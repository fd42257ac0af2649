import KvmConsole.Proofs.Msd.Percentage

/-!
# The bar of one upload

While an upload is in flight, the bar is set by its reports and by nothing else that happens to the
panel. As long as the reports tell of more and more bytes, the percentages shown never fall, and the
last one is that of the last report.

Key results:
* `Climbs.concat`: the percentages that have been shown lead up to the present one.
* `Reacts.keeps_upload`, `Reacts.takes_progress`: what a step does to the upload in flight.
* `climbs_of_reports`: a run from the start of an upload.
* `climbs_of_upload`, `percentages_of_upload`: the upload as part of a session.
-/

namespace KvmConsole.Msd

open Panel

namespace ProgressBar

/-- The percentage in a bar, if it shows one. -/
def percent? (bar : ProgressBar) : Option Nat :=
  if bar = ofPercent bar.percent then some bar.percent else none

/-- The bar of a percentage shows it. -/
private theorem percent?_ofPercent (n : Nat) : (ofPercent n).percent? = some n := if_pos rfl

/-- The waiting bar shows no percentage. -/
private theorem percent?_waiting : waiting.percent? = none := if_neg (ofPercent_ne_waiting 0).symm

/-- The bar of an abort shows no percentage. -/
private theorem percent?_aborted : aborted.percent? = none := if_neg (ofPercent_ne_aborted 0).symm

end ProgressBar

/-- The percentages shown in a history, in order. -/
def percentagesIn (h : List Moment) : List Nat := (shownIn h).filterMap (·.progress.percent?)

/-- The percentages of two parts come one after the other. -/
private theorem percentagesIn_append (h h' : List Moment) :
    percentagesIn (h ++ h') = percentagesIn h ++ percentagesIn h' := by
  simp only [percentagesIn, shownIn, List.flatMap_append, List.filterMap_append]

/-- The percentages of one moment. -/
private theorem percentagesIn_singleton (m : Moment) :
    percentagesIn [m] = m.shown.filterMap (·.progress.percent?) := by
  simp only [percentagesIn, shownIn, List.flatMap_singleton]

/-- The report about upload `u` that a step brings. -/
def Step.reportOn? (u : UploadId) : Step → Option Event
  | .event e => if e.upload? = some u then some e else none
  | _ => none

/-- A report on an upload is an event. -/
private theorem Step.eq_of_reportOn? {u : UploadId} {s : Step} {e : Event}
    (h : s.reportOn? u = some e) :
    s = .event e := by
  cases s with
  | event e' =>
    simp only [reportOn?, Option.ite_none_right_eq_some, Option.some.injEq] at h
    rw [h.2]
  | _ => cases h

/-- That so many bytes of upload `u` have been handed over, one report after the other. -/
def Event.progressOf (u : UploadId) (total : UInt64) (loads : List UInt64) : List Event :=
  loads.map fun loaded => .uploadProgress u loaded (some total)

/-- The last of a list of reports is about the last count of bytes. -/
private theorem Event.exists_of_progressOf_eq_concat {u : UploadId} {total : UInt64}
    {loads : List UInt64}
    {events : List Event} {e : Event} (h : events ++ [e] = progressOf u total loads) :
    ∃ init loaded, loads = init ++ [loaded] ∧ events = progressOf u total init ∧
      e = .uploadProgress u loaded (some total) := by
  rcases List.eq_nil_or_concat' loads with rfl | ⟨init, loaded, rfl⟩
  · exact absurd h (List.append_ne_nil_of_right_ne_nil _ (List.cons_ne_nil e []))
  · rw [progressOf, List.map_append] at h
    obtain ⟨hevents, he⟩ := List.append_inj' h rfl
    exact ⟨init, loaded, rfl, hevents, List.singleton_inj.mp he⟩

namespace Panel

/-! ## One step -/

/-- While an upload is in flight, the view shows the percentage that is kept if a status is
    known. -/
private theorem percent?_view_eq_some_iff {p : Panel} {u : UploadId} (hupload : p.upload = some u)
    (n : Nat) : p.view.progress.percent? = some n ↔ p.status ≠ none ∧ p.progress = .active n := by
  by_cases hstatus : p.status = none
  · rw [view_progress_of_unknown hstatus, ProgressBar.percent?_waiting]
    simp [hstatus]
  · rw [view_progress_of_known hstatus, and_iff_right hstatus]
    -- The upload is under way, so that the bar shows what is kept.
    have hloc : p.loc.uploading = true := by simp [loc, hupload]
    cases hprogress : p.progress with
    | waiting =>
      have hbar : p.loc.progressBar = .waiting := by simp [loc, Local.progressBar, hprogress]
      rw [hbar, ProgressBar.percent?_waiting]
      simp
    | active k =>
      have hbar : p.loc.progressBar = .ofPercent k := by
        simp [loc, Local.progressBar, hprogress, hupload, ProgressBar.ofPercent]
      rw [hbar, ProgressBar.percent?_ofPercent]
      simp
    | aborted =>
      have hbar : p.loc.progressBar = .aborted := by
        simp [loc, Local.progressBar, hprogress, ProgressBar.aborted]
      rw [hbar, ProgressBar.percent?_aborted]
      simp

variable {p : Panel} {s : Step} {turn : Turn Panel Effect Reply} {u : UploadId}

/-- An upload stays in flight with what has been measured of it, unless it is aborted or something
    is reported about it. -/
theorem Reacts.keeps_upload (h : p.Reacts s turn) (hupload : p.upload = some u)
    (habort : s ≠ .abortUpload) (hreport : s.reportOn? u = none) :
    turn.state.upload = some u ∧ turn.state.progress = p.progress ∧
      Moment.cancelled ⟨p, s, turn⟩ = [] := by
  cases h with
  | abortIdle | abort => exact absurd rfl habort
  | startUnselected hnone | start _ hnone =>
    rw [hnone] at hupload
    cases hupload
  -- Reports on the upload are excluded.
  | unmeasured v _ _ hv | progress v _ _ _ hv | finish v _ _ hv =>
    have huv : v = u := Option.some.inj (hv.symm.trans hupload)
    simp [Step.reportOn?, Event.upload?, huv] at hreport
  | answered command status body =>
    refine ⟨hupload, rfl, ?_⟩
    by_cases hok : status = httpOk <;>
      simp [Moment.cancelled, Panel.shown, List.filterMap_cons, hok]
  | _ => exact ⟨hupload, rfl, rfl⟩

/-- A report with a total sets the progress of the upload in flight. -/
theorem Reacts.takes_progress {loaded total : UInt64}
    (h : p.Reacts (.event (.uploadProgress u loaded (some total))) turn)
    (hupload : p.upload = some u) (htotal : total ≠ 0) :
    turn.state.upload = some u ∧
      turn.state.progress = .active (Progress.percentOf loaded total) ∧
      Moment.cancelled ⟨p, .event (.uploadProgress u loaded (some total)), turn⟩ = [] := by
  have hactive := Progress.ofBytes_eq_some_iff.mpr
    ⟨total, rfl, htotal, rfl (a := Progress.active (Progress.percentOf loaded total))⟩
  -- A report with a total about the upload in flight is neither stale nor without measure.
  cases h with
  | staleProgress _ _ _ hstale => exact absurd hupload hstale
  | unmeasured _ _ _ _ hnone =>
    rw [hactive] at hnone
    cases hnone
  | progress _ _ _ progress _ hsome =>
    exact ⟨hupload, Option.some.inj (hsome.symm.trans hactive), rfl⟩

/-- When an upload is started, nothing has been measured of it, and no percentage is shown. -/
theorem Reacts.starts (h : p.Reacts s turn) (hstart : Moment.Starts ⟨p, s, turn⟩ u) :
    turn.state.upload = some u ∧ turn.state.progress = .waiting ∧
      percentagesIn [⟨p, s, turn⟩] = [] := by
  have hshows := h.shows
  cases h with
  | start file hnone hselected =>
    have hu : (⟨p.started + 1⟩ : UploadId) = u := by simpa [Panel.shown] using hstart.2
    have hupload : (some ⟨p.started + 1⟩ : Option UploadId) = some u := congrArg some hu
    refine ⟨hupload, rfl, ?_⟩
    rw [percentagesIn_singleton, List.filterMap_eq_nil_iff]
    intro v hv
    rw [Option.eq_none_iff_forall_ne_some]
    intro n hn
    -- What is shown is the new panel, whose progress is waiting.
    rcases hshows.eq_of_mem hv with ⟨-, hview⟩ | ⟨⟨hinput, -⟩, -⟩
    · rw [hview] at hn
      cases ((percent?_view_eq_some_iff hupload n).mp hn).2
    · cases hinput
  | _ => simp [Moment.Starts, Panel.shown, Turn.idle] at hstart

end Panel

/-! ## Runs -/

/-- The percentages that have been shown lead up to the one that the panel has come to. That one has
    been shown if a status is known. -/
structure Climbs (h : List Moment) (p : Panel) : Prop where
  sorted : (percentagesIn h).Pairwise (· ≤ ·)
  le : ∀ n ∈ percentagesIn h, ∃ k, p.progress = .active k ∧ n ≤ k
  reached : ∀ k, p.progress = .active k → p.status ≠ none → (percentagesIn h).getLast? = some k

/-- If the present percentage has been shown, it is the last one. -/
private theorem Climbs.getLast?_of_mem {h : List Moment} {p : Panel} (hclimbs : Climbs h p)
    {k : Nat}
    (hprogress : p.progress = .active k) (hk : k ∈ percentagesIn h) :
    (percentagesIn h).getLast? = some k := by
  obtain ⟨init, n, hinit⟩ := List.eq_nil_or_concat' _ |>.resolve_left (List.ne_nil_of_mem hk)
  have hsorted := hclimbs.sorted
  rw [hinit] at hk hsorted ⊢
  rw [List.getLast?_concat]
  -- The percentages rise, and none of them is above the present one.
  have hle : n ≤ k := by
    obtain ⟨k', hk', hnk'⟩ := hclimbs.le n (by rw [hinit]; simp)
    rw [hprogress] at hk'
    exact hnk'.trans_eq (Progress.active.inj hk').symm
  rcases List.mem_append.mp hk with hk | hk
  · exact congrArg some (hle.antisymm ((List.pairwise_append.mp hsorted).2.2 k hk n (by simp)))
  · rw [List.mem_singleton.mp hk]

/-- One more moment, in which the percentage does not fall. -/
theorem Climbs.concat {h : List Moment} {m : Moment} (hclimbs : Climbs h m.before)
    (hshows : m.Shows) (hcancelled : m.cancelled = []) {u : UploadId}
    (hupload : m.turn.state.upload = some u)
    (hrise : ∀ k, m.before.progress = .active k →
      ∃ k', m.turn.state.progress = .active k' ∧ k ≤ k') :
    Climbs (h ++ [m]) m.turn.state := by
  -- All that has been shown before is below the percentage after the moment, too.
  have hbelow : ∀ n ∈ percentagesIn h, ∃ k, m.turn.state.progress = .active k ∧ n ≤ k := by
    intro n hn
    obtain ⟨k, hk, hnk⟩ := hclimbs.le n hn
    obtain ⟨k', hk', hkk'⟩ := hrise k hk
    exact ⟨k', hk', hnk.trans hkk'⟩
  have hview := percent?_view_eq_some_iff hupload
  cases hshows with
  -- Nothing is shown, and the panel stays.
  | nothing _ hshown hstate _ =>
    have hsame : percentagesIn (h ++ [m]) = percentagesIn h := by
      rw [percentagesIn_append, percentagesIn_singleton, hshown, List.filterMap_nil,
        List.append_nil]
    rw [← hstate] at hclimbs
    exact ⟨hsame ▸ hclimbs.sorted, hsame ▸ hclimbs.le, hsame ▸ hclimbs.reached⟩
  | abort v _ _ hv _ =>
    rw [hv] at hcancelled
    cases hcancelled
  -- The current view may add a percentage at the end.
  | current _ _ hshown =>
    have hone : percentagesIn (h ++ [m]) =
        percentagesIn h ++ m.turn.state.view.progress.percent?.toList := by
      rw [percentagesIn_append, percentagesIn_singleton, hshown]
      cases hn : m.turn.state.view.progress.percent? <;> simp [hn]
    cases hn : m.turn.state.view.progress.percent? with
    | none =>
      rw [hn, Option.toList_none, List.append_nil] at hone
      refine ⟨hone ▸ hclimbs.sorted, hone ▸ hbelow, fun k hk hstatus => ?_⟩
      rw [(hview k).mpr ⟨hstatus, hk⟩] at hn
      cases hn
    | some n =>
      obtain ⟨-, hprogress⟩ := (hview n).mp hn
      rw [hn, Option.toList_some] at hone
      -- The percentage shown now is the greatest so far.
      have hlast : ∀ k ∈ percentagesIn h, k ≤ n := by
        intro k hk
        obtain ⟨k', hk', hle⟩ := hbelow k hk
        rw [hprogress] at hk'
        exact hle.trans_eq (Progress.active.inj hk').symm
      refine ⟨?_, ?_, ?_⟩
      · rw [hone, List.pairwise_append]
        refine ⟨hclimbs.sorted, List.pairwise_singleton _ n, fun a ha b hb => ?_⟩
        rw [List.mem_singleton.mp hb]
        exact hlast a ha
      · rw [hone]
        intro k hk
        refine ⟨n, hprogress, ?_⟩
        rcases List.mem_append.mp hk with hk | hk
        · exact hlast k hk
        · exact (List.mem_singleton.mp hk).le
      · intro k hk _
        rw [hone, List.getLast?_concat, ← Progress.active.inj (hprogress.symm.trans hk)]

namespace Panel

variable {p : Panel} {u : UploadId} {total : UInt64} {loads : List UInt64}

/-- A run that begins with an upload of which nothing has been measured, and in which more and more
    of it is reported. -/
theorem climbs_of_reports (hupload : p.upload = some u) (hprogress : p.progress = .waiting)
    (htotal : total ≠ 0) (hsorted : loads.Pairwise (· ≤ ·)) {steps : List Step}
    (habort : ∀ s ∈ steps, s ≠ .abortUpload)
    (hreports : steps.filterMap (Step.reportOn? u) = Event.progressOf u total loads) :
    let q := Turn.final step p steps
    q.upload = some u ∧
      q.progress =
        (loads.getLast?.elim .waiting fun loaded => .active (Progress.percentOf loaded total)) ∧
      Climbs (Turn.history step p steps) q := by
  induction steps using List.reverseRecOn generalizing loads with
  | nil =>
    have hnone : loads = [] := List.map_eq_nil_iff.mp hreports.symm
    rw [hnone]
    refine ⟨hupload, hprogress, .nil, nofun, fun k hk => ?_⟩
    rw [show (Turn.final step p []).progress = .waiting from hprogress] at hk
    cases hk
  | append_singleton steps s ih =>
    rw [List.filterMap_append] at hreports
    have hearlier := fun s hs => habort s (List.mem_append_left _ hs)
    have hs := habort s (by simp)
    rw [Turn.final_concat, Turn.history_concat]
    obtain ⟨q, hq⟩ : ∃ q, q = Turn.final step p steps := ⟨_, rfl⟩
    rw [← hq] at ih ⊢
    have hreacts := reacts_step q s
    cases hreport : s.reportOn? u with
    -- The step is no report, and the progress stays.
    | none =>
      simp only [List.filterMap_cons, hreport, List.filterMap_nil, List.append_nil] at hreports
      obtain ⟨hflight, hkept, hclimbs⟩ := ih hsorted hearlier hreports
      obtain ⟨hflight', hkept', hcancelled⟩ := hreacts.keeps_upload hflight hs hreport
      refine ⟨hflight', hkept'.trans hkept, ?_⟩
      refine hclimbs.concat hreacts.shows hcancelled hflight' fun k hk => ?_
      exact ⟨k, hkept'.trans hk, le_rfl⟩
    | some e =>
      -- It is the last of the reports.
      simp only [List.filterMap_cons, hreport, List.filterMap_nil] at hreports
      obtain ⟨init, loaded, rfl, hinit, rfl⟩ := Event.exists_of_progressOf_eq_concat hreports
      obtain ⟨hsorted, -, hlast⟩ := List.pairwise_append.mp hsorted
      obtain ⟨hflight, hkept, hclimbs⟩ := ih hsorted hearlier hinit
      have hstep := Step.eq_of_reportOn? hreport
      subst hstep
      obtain ⟨hflight', hkept', hcancelled⟩ := hreacts.takes_progress hflight htotal
      rw [List.getLast?_concat]
      refine ⟨hflight', hkept', hclimbs.concat hreacts.shows hcancelled hflight' fun k hk => ?_⟩
      refine ⟨_, hkept', ?_⟩
      have hk : q.progress = .active k := hk
      rw [hk] at hkept
      -- More bytes have been loaded than in the report before, if there was one.
      cases hbefore : init.getLast? with
      | none =>
        rw [hbefore] at hkept
        cases hkept
      | some earlier =>
        rw [hbefore] at hkept
        rw [Progress.active.inj hkept]
        exact Progress.percentOf_mono htotal
          (hlast earlier (List.mem_of_getLast? hbefore) loaded (by simp))

/-- An upload as part of a session, from its start until its end is reported, in which more and more
    of it is reported. -/
theorem climbs_of_upload {steps : List Step} {past since : List Moment} {m : Moment}
    (hcut : history steps = past ++ m :: since) (hstart : m.Starts u)
    (habort : ∀ x ∈ since, x.input ≠ .abortUpload) (htotal : total ≠ 0)
    (hsorted : loads.Pairwise (· ≤ ·))
    (hreports : since.filterMap (·.input.reportOn? u) = Event.progressOf u total loads) :
    (after steps).progress =
        (loads.getLast?.elim .waiting fun loaded => .active (Progress.percentOf loaded total)) ∧
      Climbs (m :: since) (after steps) := by
  have hm : m ∈ history steps := by rw [hcut]; simp
  obtain ⟨hupload, hprogress, hnone⟩ := (reacts_of_mem_history hm).starts hstart
  have hshown : percentagesIn (m :: since) = percentagesIn since := by
    rw [← List.singleton_append, percentagesIn_append, hnone, List.nil_append]
  -- What follows is a run of its own, from the panel with the upload.
  obtain ⟨-, -, -, hsince⟩ := Turn.history_eq_append_cons step {} hcut
  have hafter : after steps = Turn.final step m.turn.state (since.map (·.input)) :=
    Turn.final_eq_of_cut step {} hcut
  -- The reports are read from the inputs of the rest.
  have hinputs : (since.map (·.input)).filterMap (Step.reportOn? u) =
      Event.progressOf u total loads := by
    rw [List.filterMap_map]
    exact hreports
  have hnoAbort : ∀ s ∈ since.map (·.input), s ≠ .abortUpload := by
    intro s hs
    obtain ⟨x, hx, rfl⟩ := List.mem_map.mp hs
    exact habort x hx
  obtain ⟨-, hkept, hclimbs⟩ :=
    climbs_of_reports hupload hprogress htotal hsorted hnoAbort hinputs
  rw [← hafter] at hkept hclimbs
  rw [← hsince] at hclimbs
  exact ⟨hkept, hshown ▸ hclimbs.sorted, hshown ▸ hclimbs.le, hshown ▸ hclimbs.reached⟩

/-- The percentages shown of an upload, from its start until its end is reported. They never fall,
    and with a status known at any time since the last report, the last one is that of the last
    report. -/
theorem percentages_of_upload {steps : List Step} {past since : List Moment} {m : Moment}
    (hcut : history steps = past ++ m :: since) (hstart : m.Starts u)
    (habort : ∀ x ∈ since, x.input ≠ .abortUpload) (htotal : total ≠ 0)
    (hsorted : loads.Pairwise (· ≤ ·))
    (hreports : since.filterMap (·.input.reportOn? u) = Event.progressOf u total loads)
    {loaded : UInt64} (hlast : loads.getLast? = some loaded) :
    (after steps).progress = .active (Progress.percentOf loaded total) ∧
      (percentagesIn (m :: since)).Pairwise (· ≤ ·) ∧
      ∀ mid x rest, since = mid ++ x :: rest → (∀ y ∈ rest, y.input.reportOn? u = none) →
        x.turn.state.status ≠ none →
        (percentagesIn (m :: since)).getLast? = some (Progress.percentOf loaded total) := by
  obtain ⟨hprogress, hclimbs⟩ := climbs_of_upload hcut hstart habort htotal hsorted hreports
  rw [hlast] at hprogress
  refine ⟨hprogress, hclimbs.sorted, ?_⟩
  rintro mid x rest rfl hrest hstatus
  refine hclimbs.getLast?_of_mem hprogress ?_
  -- Up to `x` it is a session of its own with the same reports, and there the percentage was shown.
  have hcut' : history steps = (past ++ m :: mid) ++ x :: rest := by
    rw [hcut, List.append_assoc, List.cons_append]
  obtain ⟨earlier, hhistory, hstate⟩ := exists_history_eq_concat hcut'
  rw [List.append_assoc, List.cons_append] at hhistory
  -- What is assumed of the whole session holds of its beginning.
  have habort' : ∀ y ∈ mid ++ [x], y.input ≠ .abortUpload := by
    intro y hy
    refine habort y ?_
    rw [List.append_cons]
    exact List.mem_append_left rest hy
  have hreports' := hreports
  rw [List.append_cons, List.filterMap_append, List.filterMap_eq_nil_iff.mpr hrest,
    List.append_nil] at hreports'
  obtain ⟨hprogress', hclimbs'⟩ :=
    climbs_of_upload hhistory hstart habort' htotal hsorted hreports'
  rw [hstate] at hprogress' hclimbs'
  rw [hlast] at hprogress'
  have hmem := List.mem_of_getLast? (hclimbs'.reached _ hprogress' hstatus)
  rw [List.append_cons, ← List.cons_append, percentagesIn_append]
  exact List.mem_append_left _ hmem

end Panel

end KvmConsole.Msd
