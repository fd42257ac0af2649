import KvmConsole.Proofs.Pointer.ChannelIndependence

/-!
# Where a click lands

A click lands where the daemon's pointer is, which is where the last move took it. A button flushes
the position first, and so the last move was to the position that was observed last. But positions
are compared in pixels of the region. When the region has changed its size and the pointer has not
moved, there is no new move, and the last one was scaled to the old size. And a pointer that has
been in the corner of the region from the beginning has not moved at all.

Key results:
* `after_seen`: a tracker knows the last observation.
* `after_lastSent`: and the last move, if every move was sent.
* `moves_of_mem_history`: with one channel from before the first observation, every move is sent.
* `click_after_last_move`: the last move before a button.
* `click_without_current_move`: the two cases in which it is not the move to where the pointer is.
-/

namespace KvmConsole.Pointer

/-- What has been observed in a history, in order. -/
def observationsIn (h : List Moment) : List Observation := h.filterMap (·.input.observed?)

/-- What has been observed last in a history. -/
def lastObserved? (h : List Moment) : Option Observation := (observationsIn h).getLast?

/-- The last moment of a history at which a move was sent came when `o` was the last
    observation. -/
def SentLastAt (h : List Moment) (o : Observation) : Prop :=
  Turn.HoldsSince
    (fun past m => movesOf m.sent ≠ [] ∧ lastObserved? (past ++ [m]) = some o)
    (fun m => movesOf m.sent = []) h

/-- A moment that sends a move is the last one to do so, and any other leaves that to the moments
    before. -/
private theorem sentLastAt_concat {h : List Moment} {m : Moment} {o : Observation} :
    SentLastAt (h ++ [m]) o ↔
      (movesOf m.sent ≠ [] ∧ lastObserved? (h ++ [m]) = some o) ∨
        SentLastAt h o ∧ movesOf m.sent = [] :=
  Turn.holdsSince_concat
    (fun past (m : Moment) => movesOf m.sent ≠ [] ∧ lastObserved? (past ++ [m]) = some o)
    (fun m => movesOf m.sent = []) h m

/-- What is observed depends on the steps alone. -/
theorem observationsIn_history (touchCapture : Bool) (steps : List Step) :
    observationsIn (Forwarder.history touchCapture steps) = steps.filterMap Step.observed? := by
  rw [observationsIn, ← Function.comp_def Step.observed?, ← List.filterMap_map,
    Forwarder.history, Turn.map_input_history]

/-- What was the last observation when a move was sent is among the observations. -/
private theorem SentLastAt.mem {h : List Moment} {o : Observation} (hlast : SentLastAt h o) :
    o ∈ observationsIn h := by
  obtain ⟨past, m, since, hcut, ⟨-, ho⟩, -⟩ := hlast
  rw [hcut, List.append_cons, observationsIn, List.filterMap_append]
  exact List.mem_append_left _ (List.mem_of_getLast? ho)

/-- The last moment sends its events after all others. -/
private theorem sentIn_concat (h : List Moment) (m : Moment) :
    sentIn (h ++ [m]) = sentIn h ++ m.sent := by
  rw [sentIn, List.flatMap_append, List.flatMap_singleton, sentIn]

/-- While nothing is observed, a position that needs no move keeps needing none. -/
private theorem Tracker.rests_of_unobserved {t : Tracker} {s : Step} (hs : s.observed? = none)
    (ht : t.current = t.lastSent) :
    (t.step s).state.current = t.current ∧ (t.step s).state.lastSent = t.lastSent ∧
      movesOf (t.step s).effects = [] := by
  have hseen := t.seen_step s
  rw [hs, Option.getD_none] at hseen
  have hcurrent : (t.step s).state.current = t.current := congrArg Observation.position hseen
  cases t.movesPointer_step s with
  | rests hnone hlast _ => exact ⟨hcurrent, hlast, hnone⟩
  | moves _ _ hnew => exact absurd (hcurrent.trans ht) hnew

namespace Forwarder

variable (touchCapture : Bool)

/-! ## What a tracker remembers -/

/-- A tracker knows the last observation. Before there is one, it takes the pointer to be in the
    corner. -/
theorem after_seen (steps : List Step) :
    (after touchCapture steps).tracker.seen =
      (lastObserved? (history touchCapture steps)).getD ⟨.origin, 0, 0⟩ := by
  refine Turn.final_eq_getLast? step { touchCapture } (·.tracker.seen) Step.observed? ?_ steps
  intro f s
  rw [tracker_step]
  exact f.tracker.seen_step s

/-- Until something is observed, the pointer is in the corner, and no move is due or given out. -/
private theorem unobserved {steps : List Step} (hnone : ∀ s ∈ steps, s.observed? = none) :
    (after touchCapture steps).tracker.current = .origin ∧
      (after touchCapture steps).tracker.lastSent = .origin ∧
      ∀ m ∈ history touchCapture steps, movesOf m.generated = [] := by
  let Rests (f : Forwarder) : Prop := f.tracker.current = .origin ∧ f.tracker.lastSent = .origin
  have hfresh : Rests { touchCapture } := ⟨rfl, rfl⟩
  -- A step without an observation leaves both positions at the origin.
  have hkeep : ∀ f, ∀ s ∈ steps, Rests f → Rests (f.step s).state := by
    intro f s hs ⟨hcurrent, hlast⟩
    obtain ⟨hcurrent', hlast', -⟩ :=
      Tracker.rests_of_unobserved (hnone s hs) (hcurrent.trans hlast.symm)
    simp only [Rests, tracker_step]
    exact ⟨hcurrent'.trans hcurrent, hlast'.trans hlast⟩
  obtain ⟨hcurrent, hlast⟩ := Turn.final_invariant_of_mem step hkeep hfresh
  refine ⟨hcurrent, hlast, fun m hm => ?_⟩
  obtain ⟨⟨hcurrent, hlast⟩, hinput, -⟩ :=
    Turn.history_mem_invariant_of_mem step hkeep hfresh hm
  exact (Tracker.rests_of_unobserved (hnone _ hinput) (hcurrent.trans hlast.symm)).2.2

/-- When a move is given out, something has been observed. -/
private theorem lastObserved?_of_new (steps : List Step) (s : Step)
    (hnew : (after touchCapture (steps ++ [s])).tracker.current ≠
      (after touchCapture steps).tracker.lastSent) :
    lastObserved? (history touchCapture (steps ++ [s])) =
      some (after touchCapture (steps ++ [s])).tracker.seen := by
  rw [after_seen]
  cases ho : lastObserved? (history touchCapture (steps ++ [s])) with
  | some o => rfl
  | none =>
    -- Had nothing been observed, both positions would be the origin.
    rw [lastObserved?, List.getLast?_eq_none_iff, observationsIn_history,
      List.filterMap_eq_nil_iff] at ho
    have hsteps := unobserved touchCapture fun x hx => ho x (List.mem_append_left [s] hx)
    refine absurd ?_ hnew
    rw [(unobserved touchCapture ho).1, hsteps.2.1]

/-- If every move that was given out was sent, a tracker knows to which position the last one was,
    and that move was scaled to the region as it was observed last at the time. -/
theorem after_lastSent (steps : List Step)
    (hmoves : ∀ m ∈ history touchCapture steps, movesOf m.sent = movesOf m.generated) :
    (movesOf (sentIn (history touchCapture steps)) = [] ∧
      (after touchCapture steps).tracker.lastSent = .origin) ∨
    ∃ o, SentLastAt (history touchCapture steps) o ∧
      (movesOf (sentIn (history touchCapture steps))).getLast? = some o.moveEvent ∧
      (after touchCapture steps).tracker.lastSent = o.position := by
  induction steps using List.reverseRecOn with
  | nil => exact .inl ⟨rfl, rfl⟩
  | append_singleton steps s ih =>
    have hobserved := lastObserved?_of_new touchCapture steps s
    rw [history_concat] at hmoves hobserved ⊢
    have hbefore := ih fun m hm => hmoves m (List.mem_append_left _ hm)
    have hsent := hmoves ⟨after touchCapture steps, s, (after touchCapture steps).step s⟩ (by simp)
    rw [after_concat, tracker_step] at hobserved ⊢
    simp only [sentIn_concat, movesOf_append, sentLastAt_concat]
    rw [hsent, Moment.generated]
    cases (after touchCapture steps).tracker.movesPointer_step s with
    | rests hnone hlast _ =>
      -- The last move is still the last one.
      rw [hlast, hnone, List.append_nil]
      rcases hbefore with hunmoved | ⟨o, ho, hmove, hposition⟩
      · exact .inl hunmoved
      · exact .inr ⟨o, .inr ⟨ho, rfl⟩, hmove, hposition⟩
    | moves hmove hlast hnew =>
      -- The move of this step is the last one, and it goes where the last observation was.
      rw [hmove, List.getLast?_concat]
      exact .inr ⟨_, .inl ⟨List.cons_ne_nil _ _, hobserved hnew⟩, rfl, hlast⟩

/-- With one channel, which is there before anything is observed and takes what it is given, every
    move that is given out is sent. -/
theorem moves_of_mem_history {before since : List Step}
    (hbefore : ∀ s ∈ before, s.observed? = none) (hsince : ∀ s ∈ since, s.channel? = none)
    {m : Moment}
    (hm : m ∈ history touchCapture (before ++ .setChannel (some .accepting) :: since)) :
    movesOf m.sent = movesOf m.generated := by
  have hturn := Turn.turn_of_mem_history step { touchCapture } hm
  rw [(sent_and_refused_of_turn_eq hturn).1]
  -- It is enough that the channel was open, or that there was nothing to send.
  suffices m.before.channel = some .accepting ∨ movesOf m.generated = [] by
    rcases this with hopen | hnone
    · rw [if_pos hopen]
    · split
      · rfl
      · exact hnone.symm
  rw [history, Turn.history_append] at hm
  rcases List.mem_append.mp hm with hm | hm
  · -- Before the channel there was nothing to send.
    exact .inr ((unobserved touchCapture hbefore).2.2 m hm)
  · rcases List.mem_cons.mp hm with rfl | hm
    · exact .inr (by rw [Moment.generated, Tracker.step_of_isChannel _ rfl]; rfl)
    · -- No later step replaces the channel, so that it stays open.
      refine .inl (Turn.history_mem_invariant_of_mem step (P := (·.channel = some .accepting))
        (fun f s hs hf => ?_) ?_ hm).1
      · rw [channel_step, hsince s hs]
        exact hf
      · rfl

end Forwarder

/-- When a button is sent, nothing else but a button or the wheel is sent after it in the same
    step, and the position has been flushed. -/
private theorem Moment.of_sent_button {m : Moment} (hturn : m.turn = m.before.step m.input)
    {earlier later : List HidEvent} {b : Button} {pressed : Bool}
    (hsent : m.sent = earlier ++ .mouseButton b pressed :: later) :
    movesOf earlier = movesOf m.sent ∧
      m.turn.state.tracker.lastSent = m.turn.state.tracker.current := by
  -- Something was sent, so that the channel was open and all that was generated was sent.
  have hgenerated : m.sent = m.generated := by
    have hmay := (Forwarder.sent_and_refused_of_turn_eq hturn).1
    split at hmay
    · exact hmay
    · simp [hmay] at hsent
  have hcut : (m.before.tracker.step m.input).effects =
      earlier ++ .mouseButton b pressed :: later := hgenerated.symm.trans hsent
  have hbutton : .mouseButton b pressed ∈ (m.before.tracker.step m.input).effects := by
    rw [hcut]
    exact List.mem_append_right _ List.mem_cons_self
  constructor
  · -- A move after the button would make the button a move.
    have hlater : movesOf later = [] := by
      have hordered := m.before.tracker.pairwise_step m.input
      rw [hcut, List.pairwise_append] at hordered
      rw [movesOf, List.filter_eq_nil_iff]
      intro e he hmove
      have hbuttonMoves : (HidEvent.mouseButton b pressed).isMove :=
        (List.pairwise_cons.mp hordered.2.1).1 e he hmove
      cases hbuttonMoves
    rw [hsent, List.append_cons, movesOf_append, hlater, List.append_nil, movesOf_append]
    exact (List.append_nil _).symm
  · rw [hturn, Forwarder.tracker_step]
    exact m.before.tracker.lastSent_of_flushes m.input
      (m.before.tracker.flushes_of_mem_step m.input hbutton)

open Forwarder

/-- The last move before a button, in a session with one channel that takes events, set before
    anything is observed and there to the end. Whenever a button is sent and something has been
    observed, say `o` last, one of these is true.

    * No move has been sent at all, and the pointer is in the corner of the region.
    * The last move that has been sent is to the position of `o`. It was scaled to the size that the
      region had in the last observation at the time.

    If the region has always been observed with the same size, it is the move to `o` itself. -/
theorem click_after_last_move (touchCapture : Bool) (before since : List Step)
    (hbefore : ∀ s ∈ before, s.observed? = none) (hsince : ∀ s ∈ since, s.channel? = none) :
    ∀ past m rest,
      history touchCapture (before ++ .setChannel (some .accepting) :: since) = past ++ m :: rest →
    ∀ earlier b pressed later, m.sent = earlier ++ .mouseButton b pressed :: later →
    ∀ o, lastObserved? (past ++ [m]) = some o →
      (movesOf (sentIn past ++ earlier) = [] ∧ o.position = .origin) ∨
      ∃ viewport, SentLastAt (past ++ [m]) ⟨o.position, viewport⟩ ∧
        (movesOf (sentIn past ++ earlier)).getLast? =
          some (.mouseMove (rescale o.position.x viewport.width)
            (rescale o.position.y viewport.height)) ∧
        ((∀ seen ∈ observationsIn (past ++ [m]), seen.viewport = o.viewport) →
          viewport = o.viewport) := by
  intro past m rest hcut earlier b pressed later hsent o ho
  obtain ⟨hhistory, hafter⟩ := Turn.history_eq_concat_of_cut step { touchCapture } hcut
  -- The session up to the button is a session of its own.
  have hhistory : history touchCapture (past.map (·.input) ++ [m.input]) = past ++ [m] := hhistory
  have hafter : after touchCapture (past.map (·.input) ++ [m.input]) = m.turn.state := hafter
  have hmoves : ∀ x ∈ past ++ [m], movesOf x.sent = movesOf x.generated := by
    intro x hx
    refine moves_of_mem_history touchCapture hbefore hsince ?_
    rw [hcut, List.append_cons]
    exact List.mem_append_left rest hx
  have hseen := after_seen touchCapture (past.map (·.input) ++ [m.input])
  have hlast := after_lastSent touchCapture (past.map (·.input) ++ [m.input])
  rw [hhistory] at hseen hlast
  rw [hafter, ho, Option.getD_some] at hseen
  rw [hafter] at hlast
  -- The button has flushed the position, so what counts as sent is what has been observed.
  obtain ⟨hearlier, hflushed⟩ := Moment.of_sent_button (step_of_history_eq hcut).2 hsent
  have hposition : m.turn.state.tracker.lastSent = o.position := by
    rw [hflushed, ← hseen, Tracker.seen]
  have hall : movesOf (sentIn past ++ earlier) = movesOf (sentIn (past ++ [m])) := by
    rw [sentIn_concat, movesOf_append, movesOf_append, hearlier]
  rw [hall]
  rcases hlast hmoves with ⟨hnone, horigin⟩ | ⟨sent, hat, hmove, hsentPosition⟩
  · exact .inl ⟨hnone, hposition.symm.trans horigin⟩
  · -- The last move was sent for a position like the current one, perhaps in another viewport.
    have hsame : sent.position = o.position := hsentPosition.symm.trans hposition
    refine .inr ⟨sent.viewport, ?_, ?_, fun hviewports => hviewports sent hat.mem⟩
    · rw [← hsame]
      exact hat
    · rw [← hsame]
      exact hmove

/-- The region grows under a pointer that stays where it is, and then a button is pressed. -/
def resized : List Step :=
  [.setChannel (some .accepting), .move 400 300 ⟨0, 0, 800, 600⟩, .tick,
    .move 400 300 ⟨0, 0, 1600, 1200⟩, .sendButton .left true]

/-- The pointer comes in through the corner of the region, and a button is pressed there. -/
def cornered : List Step :=
  [.setChannel (some .accepting), .move 0 0 ⟨0, 0, 800, 600⟩, .sendButton .left true]

/-- In the session with the growing region, the last move before the button is the one to the
    middle of the small region. -/
theorem click_after_last_move_resized :
    let past := history false (resized.take 4)
    let m : Moment :=
      ⟨after false (resized.take 4), .sendButton .left true,
        (after false (resized.take 4)).step (.sendButton .left true)⟩
    history false resized = past ++ [m] ∧ m.sent = [.mouseButton .left true] ∧
      lastObserved? (past ++ [m]) = some ⟨⟨400, 300⟩, ⟨1600, 1200⟩⟩ ∧
      ∃ viewport, SentLastAt (past ++ [m]) ⟨⟨400, 300⟩, viewport⟩ ∧
        (movesOf (sentIn past)).getLast? =
          some (.mouseMove (rescale 400 viewport.width) (rescale 300 viewport.height)) := by
  intro past m
  have hcut : history false resized = past ++ [m] := rfl
  have hsent : m.sent = [.mouseButton .left true] := by decide +kernel
  have ho : lastObserved? (past ++ [m]) = some ⟨⟨400, 300⟩, ⟨1600, 1200⟩⟩ := by decide +kernel
  refine ⟨hcut, hsent, ho, ?_⟩
  -- A move has been sent, so that the pointer is not at the origin any more.
  rcases click_after_last_move false [] resized.tail (by decide) (by decide) past m [] hcut
    [] .left true [] hsent _ ho with ⟨-, horigin⟩ | ⟨viewport, hat, hmove, -⟩
  · exact absurd horigin (by decide)
  · rw [List.append_nil] at hmove
    exact ⟨viewport, hat, hmove⟩

/-- Neither button comes after the move to what was observed last: in the first session the only
    move is another one, in the second there is none. -/
theorem click_without_current_move :
    (lastObserved? (history false resized) = some ⟨⟨400, 300⟩, ⟨1600, 1200⟩⟩ ∧
      Observation.moveEvent ⟨⟨400, 300⟩, ⟨1600, 1200⟩⟩ = .mouseMove (-16384) (-16384) ∧
      sentIn (history false resized) = [.mouseMove 0 0, .mouseButton .left true]) ∧
    lastObserved? (history false cornered) = some ⟨⟨0, 0⟩, ⟨800, 600⟩⟩ ∧
      sentIn (history false cornered) = [.mouseButton .left true] := by
  decide +kernel

end KvmConsole.Pointer
