import KvmConsole.Proofs.Msd.Session

/-!
# Stale reports

What is reported about an upload that has been aborted or has ended may come in at any time, also
while the next upload is in flight. The panel knows such a report by the number of the upload, and a
session goes as if it had never come.

Key results:
* `Reacts.ignores_stale`: a stale report is answered as ignored and changes nothing.
* `isPast_of_ended`, `isPast_step`: an upload that has been cancelled or has finished is over, and
  stays over, since numbers are not used again.
* `stale_reports_invisible`: a session without its stale reports is the same session.
-/

namespace KvmConsole.Msd

open Panel

/-- The moment takes in a report about an upload other than the one in flight. -/
def Moment.isStale (m : Moment) : Bool :=
  m.input.reported?.any fun u => m.before.upload ≠ some u

/-- A report is stale if the upload it names is not under way. -/
private theorem Moment.isStale_iff {m : Moment} :
    m.isStale ↔ ∃ u, m.input.reported? = some u ∧ m.before.upload ≠ some u := by
  simp [isStale, Option.any_eq_true]

namespace Panel

/-! ## One step -/

/-- A stale report leaves the panel as it is. Nothing comes of it but a record in the log. -/
theorem Reacts.ignores_stale {p : Panel} {s : Step} {turn : Turn Panel Effect Reply}
    (h : p.Reacts s turn) (hstale : Moment.isStale ⟨p, s, turn⟩) :
    turn.result = .handled .ignored ∧ turn.state = p ∧ ∀ e ∈ turn.effects, e.isLog := by
  obtain ⟨u, hu, hupload⟩ := Moment.isStale_iff.mp hstale
  cases h with
  | staleProgress | staleEnd =>
    refine ⟨rfl, rfl, fun e he => ?_⟩
    rw [List.mem_singleton.mp he]
    rfl
  | unmeasured _ _ _ hflight | progress _ _ _ _ hflight | finish _ _ _ hflight =>
    -- The report is about the upload in flight, so it is not stale.
    exact absurd (hflight.trans hu) hupload
  | _ => cases hu

/-- A report about an upload that is not in flight leaves the panel as it is. -/
theorem handle_of_stale {p : Panel} {e : Event} {u : UploadId} (he : e.upload? = some u)
    (hupload : p.upload ≠ some u) :
    (p.handle e).result = .ignored ∧ (p.handle e).state = p ∧
      ∀ x ∈ (p.handle e).effects, x.isLog := by
  have hstale : Moment.isStale ⟨p, .event e, p.step (.event e)⟩ :=
    Moment.isStale_iff.mpr ⟨u, he, hupload⟩
  obtain ⟨hresult, hstate, heffects⟩ := (reacts_step p (.event e)).ignores_stale hstale
  exact ⟨Reply.handled.inj hresult, hstate, heffects⟩

/-- The upload in flight, if any, is among those that have been numbered. -/
def IsNumbered (p : Panel) : Prop := ∀ u, p.upload = some u → u.number ≤ p.started

/-- Upload `u` has been started and is no longer in flight. -/
def IsPast (u : UploadId) (p : Panel) : Prop := p.upload ≠ some u ∧ u.number ≤ p.started

/-- A new panel has no upload. -/
private theorem isNumbered_fresh : IsNumbered {} := fun _ hu => nomatch (hu : none = some _)

/-- The upload under way has a number that has been used. -/
private theorem isNumbered_step (p : Panel) (s : Step) (h : p.IsNumbered) :
    (p.step s).state.IsNumbered := by
  intro u hu
  cases (reacts_step p s).movesUpload with
  -- A new upload takes the number that the counter moves to.
  | starts _ _ _ _ hafter hcount =>
    rw [hafter, Option.some.injEq] at hu
    rw [← hu]
    exact Nat.le_of_eq hcount.symm
  | cancels _ _ _ _ _ hafter _ | finishes _ _ _ _ _ hafter _ =>
    rw [hafter] at hu
    cases hu
  | rests _ _ _ hafter hcount =>
    rw [hafter] at hu
    rw [hcount]
    exact h u hu

/-- An upload that is over stays over: a later one gets a greater number. -/
theorem isPast_step (u : UploadId) (p : Panel) (s : Step) (h : p.IsPast u) :
    (p.step s).state.IsPast u := by
  obtain ⟨hflight, hnumber⟩ := h
  cases (reacts_step p s).movesUpload with
  | starts _ _ _ _ hafter hcount =>
    refine ⟨?_, ?_⟩
    · -- The new upload has a number that has not been used.
      rw [hafter]
      intro hu
      have hnext : u.number = p.started + 1 := by rw [← Option.some.inj hu]
      omega
    · rw [hcount]
      exact Nat.le_succ_of_le hnumber
  -- No upload is under way, and the counter stays.
  | cancels _ _ _ _ _ hafter hcount | finishes _ _ _ _ _ hafter hcount =>
    refine ⟨?_, ?_⟩
    · rw [hafter]
      nofun
    · rw [hcount]
      exact hnumber
  | rests _ _ _ hafter hcount =>
    refine ⟨?_, ?_⟩
    · rw [hafter]
      exact hflight
    · rw [hcount]
      exact hnumber

/-- An upload that is cancelled or taken in as finished was in flight, and is over after that. -/
theorem isPast_of_ended {m : Moment} (h : MovesUpload m) (hm : m.before.IsNumbered) {u : UploadId}
    (hu : u ∈ m.cancelled ∨ u ∈ m.finished) : m.turn.state.IsPast u := by
  cases h with
  | starts _ _ hcancelled hfinished _ _ | rests _ hcancelled hfinished _ _ =>
    rw [hcancelled, hfinished] at hu
    simp at hu
  -- The upload was under way, so that its number had been used.
  | cancels v hbefore _ hcancelled hfinished hafter hcount
  | finishes v hbefore _ hcancelled hfinished hafter hcount =>
    rw [hcancelled, hfinished] at hu
    have hv : u = v := by simpa using hu
    refine ⟨?_, ?_⟩
    · rw [hafter]
      nofun
    · rw [hcount]
      exact hm u (hv ▸ hbefore)

end Panel

/-! ## Whole sessions -/

/-- The steps of a session without its stale reports. -/
def liveSteps (steps : List Step) : List Step :=
  ((history steps).filter (!·.isStale)).map (·.input)

/-- Stale reports are invisible, in any session and whatever uploads they are about.

    * A stale report is answered as ignored. It leaves the panel as it is, and all that comes of it
      is a record in the log: nothing is shown, sent or cancelled.
    * Without its stale reports, a session has the same other moments, each with the same state
      before, the same effects, answer and state after, and it comes to the same panel.
    * Once an upload has been cancelled or has finished, every later report about it is stale. -/
theorem stale_reports_invisible (steps : List Step) :
    (∀ m ∈ history steps, m.isStale →
      m.turn.result = .handled .ignored ∧ m.turn.state = m.before ∧
        ∀ e ∈ m.turn.effects, e.isLog) ∧
    history (liveSteps steps) = (history steps).filter (!·.isStale) ∧
    after (liveSteps steps) = after steps ∧
    (∀ past m since, history steps = past ++ m :: since →
      ∀ u, u ∈ m.cancelled ∨ u ∈ m.finished → ∀ x ∈ since, x.input.reported? = some u →
        x.isStale ∧ x.turn.result = .handled .ignored) := by
  have hkept := Turn.history_filter_not step {} Moment.isStale
    (fun p s hs => ((reacts_step p s).ignores_stale hs).2.1) steps
  refine ⟨?_, hkept.1, hkept.2, ?_⟩
  · -- One stale report changes nothing.
    intro m hm hstale
    exact (reacts_of_mem_history hm).ignores_stale hstale
  · intro past m since hcut u hu x hx hreport
    have hm : m ∈ history steps := by rw [hcut]; simp
    have hx' : x ∈ history steps := by rw [hcut]; simp [hx]
    -- The upload is over after the moment at the cut, and so it is at the later one.
    have hnumbered : m.before.IsNumbered :=
      (Turn.history_mem_invariant step isNumbered_step isNumbered_fresh hm).1
    have hpast := isPast_of_ended (reacts_of_mem_history hm).movesUpload hnumbered hu
    obtain ⟨-, -, -, hsince⟩ := Turn.history_eq_append_cons step {} hcut
    rw [hsince] at hx
    have hover := (Turn.history_mem_invariant step (isPast_step u) hpast hx).1
    have hstale : x.isStale := Moment.isStale_iff.mpr ⟨u, hreport, hover.1⟩
    exact ⟨hstale, ((reacts_of_mem_history hx').ignores_stale hstale).1⟩

end KvmConsole.Msd
