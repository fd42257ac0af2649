import KvmConsole.Proofs.Msd.Shown
import KvmConsole.Proofs.Msd.UploadAccount

/-!
# The progress bar

The panel keeps one progress, which a start, an abort, a report and an end overwrite. What the bar
shows is a matter of the history: which upload is in flight, and what was reported about it last.

Key results:
* `Progress.percentOf_le`: a percentage is at most 100.
* `progress_eq_active_iff`: what one step does to the percentage.
* `after_progress_eq_active_iff`: the percentage that is kept is the last one measured.
* `progress_bar_of_history`: the bar of a session, in every view.
-/

namespace KvmConsole.Msd

open Panel

/-! ## Percentages -/

/-- Cut off at 100, a number truncates to at most 100. -/
private theorem truncateInto_min_hundred_le (x : Binary64) :
    (x.min 100).truncateInto 0 255 ≤ 100 := by
  have hvalue : (100 : Binary64) = .finite false 100 := by decide +kernel
  have hhundred : (Binary64.finite false 100).truncateInto 0 255 ≤ 100 := by decide +kernel
  rw [hvalue]
  cases x with
  | nan => exact hhundred
  | infinity negative =>
    cases negative with
    | false => exact hhundred
    | true => decide
  | finite negative v =>
    -- The minimum with a hundred is one of the two numbers.
    by_cases hv : 100 < v
    · have hmin : (Binary64.finite negative v).min (.finite false 100) = .finite false 100 := by
        simp [Binary64.min, Binary64.isNan, Binary64.lt, hv]
      rw [hmin]
      exact hhundred
    · have hmin : (Binary64.finite negative v).min (.finite false 100) = .finite negative v := by
        simp [Binary64.min, Binary64.isNan, Binary64.lt, hv]
      have hle : v ≤ 100 := Rat.not_lt.mp hv
      have hinteger : (if v < 0 then -(-v).floor else v.floor) ≤ 100 := by
        split
        · rename_i hnegative
          have hfloor : (0 : Int) ≤ (-v).floor := Rat.le_floor_iff.mpr (by grind)
          omega
        · have hfloor : ((v.floor : Int) : Rat) ≤ ((100 : Int) : Rat) :=
            Rat.le_trans (Rat.floor_le v) hle
          exact Rat.intCast_le_intCast.mp hfloor
      rw [hmin]
      simp only [Binary64.truncateInto]
      omega

/-- Bytes can be measured against a total that is there and is not zero. -/
theorem Progress.ofBytes_eq_some_iff {loaded : UInt64} {total : Option UInt64}
    {progress : Progress} :
    Progress.ofBytes loaded total = some progress ↔
      ∃ t, total = some t ∧ t ≠ 0 ∧ progress = .active (percentOf loaded t) := by
  cases total with
  | none => simp [Progress.ofBytes]
  | some t => by_cases ht : t = 0 <;> simp [Progress.ofBytes, ht, eq_comm]

/-- A percentage is at most a hundred. -/
theorem Progress.percentOf_le (loaded total : UInt64) : percentOf loaded total ≤ 100 :=
  Int.toNat_le.mpr (truncateInto_min_hundred_le _)

namespace ProgressBar

/-- The bar for an upload that has been aborted. -/
def aborted : ProgressBar := ⟨"Aborted", 0⟩

/-- The bar for an upload of which that much is done. -/
def ofPercent (percent : Nat) : ProgressBar := ⟨toString percent ++ "%", percent⟩

/-- Different percentages look different. -/
private theorem ofPercent_inj {a b : Nat} : ofPercent a = ofPercent b ↔ a = b :=
  ⟨congrArg ProgressBar.percent, congrArg ofPercent⟩

/-- The label of a percentage ends in a percent sign. -/
private theorem getLast?_label_ofPercent (percent : Nat) :
    (ofPercent percent).label.toList.getLast? = some '%' := by
  simp [ofPercent]

/-- No percentage looks like waiting. -/
theorem ofPercent_ne_waiting (percent : Nat) : ofPercent percent ≠ waiting := by
  intro h
  have hlast := getLast?_label_ofPercent percent
  rw [h] at hlast
  exact absurd hlast (by decide)

/-- No percentage looks like an abort. -/
theorem ofPercent_ne_aborted (percent : Nat) : ofPercent percent ≠ aborted := by
  intro h
  have hlast := getLast?_label_ofPercent percent
  rw [h] at hlast
  exact absurd hlast (by decide)

/-- An abort does not look like waiting. -/
private theorem aborted_ne_waiting : aborted ≠ waiting := by decide

end ProgressBar

/-! ## What has been measured -/

/-- The moment takes in that so much of upload `u` is done: its total is known and is not zero. -/
def Moment.Measures (m : Moment) (u : UploadId) (percent : Nat) : Prop :=
  ∃ loaded total, m.input = .event (.uploadProgress u loaded (some total)) ∧ total ≠ 0 ∧
    percent = Progress.percentOf loaded total

/-- A report measures what the code makes of its bytes. -/
private theorem Moment.measures_iff_ofBytes {p : Panel} {turn : Turn Panel Effect Reply}
    {u v : UploadId} {loaded : UInt64} {total : Option UInt64} {percent : Nat} :
    Moment.Measures ⟨p, .event (.uploadProgress v loaded total), turn⟩ u percent ↔
      v = u ∧ Progress.ofBytes loaded total = some (.active percent) := by
  rw [Progress.ofBytes_eq_some_iff]
  constructor
  · rintro ⟨loaded', t, hinput, ht, hpercent⟩
    cases hinput
    exact ⟨rfl, t, rfl, ht, congrArg Progress.active hpercent⟩
  · rintro ⟨rfl, t, rfl, ht, hpercent⟩
    exact ⟨loaded, t, rfl, ht, Progress.active.inj hpercent⟩

/-- What is measured is at most a hundred. -/
private theorem Moment.Measures.percent_le {m : Moment} {u : UploadId} {percent : Nat}
    (h : m.Measures u percent) : percent ≤ 100 := by
  obtain ⟨loaded, total, -, -, hpercent⟩ := h
  rw [hpercent]
  exact Progress.percentOf_le loaded total

/-- Upload `u` is in flight, and so much of it was done when it was last measured. -/
def Measured (h : List Moment) (u : UploadId) (percent : Nat) : Prop :=
  Turn.HoldsSince (fun past m => Underway past u ∧ m.Measures u percent)
    (fun m => ¬ m.Ends u ∧ ∀ other, ¬ m.Measures u other) h

/-- The last moment measures, or leaves what has been measured if it neither ends the upload nor
    measures it anew. -/
private theorem measured_concat {h : List Moment} {m : Moment} {u : UploadId} {percent : Nat} :
    Measured (h ++ [m]) u percent ↔
      Underway h u ∧ m.Measures u percent ∨
        Measured h u percent ∧ ¬ m.Ends u ∧ ∀ other, ¬ m.Measures u other :=
  Turn.holdsSince_concat (fun past (m : Moment) => Underway past u ∧ m.Measures u percent)
    (fun m => ¬ m.Ends u ∧ ∀ other, ¬ m.Measures u other) h m

namespace Panel

/-! ## One step -/

/-- After a step, the percentage of the upload in flight is the one measured in the step, or the one
    kept from before if the upload neither ended nor was measured in it. -/
theorem progress_eq_active_iff {p : Panel} {s : Step} {turn : Turn Panel Effect Reply}
    (h : p.Reacts s turn) (u : UploadId) (percent : Nat) :
    (turn.state.upload = some u ∧ turn.state.progress = .active percent) ↔
      p.upload = some u ∧ Moment.Measures ⟨p, s, turn⟩ u percent ∨
        (p.upload = some u ∧ p.progress = .active percent) ∧ ¬ Moment.Ends ⟨p, s, turn⟩ u ∧
          ∀ other, ¬ Moment.Measures ⟨p, s, turn⟩ u other := by
  cases h with
  | staleProgress v loaded total hupload =>
    -- The report is about another upload than the one in flight.
    have hne : p.upload = some u → v ≠ u := fun hu hv => hupload (hv ▸ hu)
    simp only [Moment.measures_iff_ofBytes, Moment.Ends]
    grind
  | unmeasured v loaded total hupload htotal =>
    simp [Moment.measures_iff_ofBytes, Moment.Ends, htotal, Turn.idle]
  | progress v loaded total progress hupload htotal =>
    -- What is measured now takes the place of what was kept.
    obtain ⟨t, -, -, hprogress⟩ := Progress.ofBytes_eq_some_iff.mp htotal
    simp only [Moment.measures_iff_ofBytes, Moment.Ends, htotal, shown, hprogress, hupload]
    grind
  | staleEnd v _ _ hupload =>
    have hne : p.upload = some u → v ≠ u := fun hu hv => hupload (hv ▸ hu)
    simp only [Moment.Measures, Moment.Ends]
    grind
  | finish v status body hupload =>
    simp +contextual [Moment.Measures, Moment.Ends, shown, hupload]
  | _ => simp [Moment.Measures, Moment.Ends, shown, Turn.idle, Turn.map, issue, *]

/-- An abort is shown, and not kept. -/
private theorem Reacts.progress_ne_aborted {p : Panel} {s : Step} {turn : Turn Panel Effect Reply}
    (h : p.Reacts s turn) (hp : p.progress ≠ .aborted) : turn.state.progress ≠ .aborted := by
  cases h with
  | progress u loaded total progress _ htotal =>
    obtain ⟨t, -, -, hprogress⟩ := Progress.ofBytes_eq_some_iff.mp htotal
    rw [hprogress]
    exact Progress.noConfusion
  | start | abort | finish => exact Progress.noConfusion
  | _ => exact hp

/-! ## What the bar shows -/

/-- Without a status there is nothing to show progress of. -/
theorem view_progress_of_unknown {p : Panel} (h : p.status = none) :
    p.view.progress = .waiting := by
  rw [view, h]
  rfl

/-- With a status known, the bar of the view is that of the local state. -/
theorem view_progress_of_known {p : Panel} (h : p.status ≠ none) :
    p.view.progress = p.loc.progressBar := by
  obtain ⟨status, hstatus⟩ := Option.ne_none_iff_exists'.mp h
  rw [view, hstatus]
  rfl

end Panel

/-! ## Whole sessions -/

/-- The progress that is kept for the upload in flight is what was last measured of it. -/
theorem after_progress_eq_active_iff (steps : List Step) (u : UploadId) (percent : Nat) :
    (after steps).upload = some u ∧ (after steps).progress = .active percent ↔
      Measured (history steps) u percent := by
  induction steps using List.reverseRecOn with
  | nil =>
    refine iff_of_false ?_ (Turn.not_holdsSince_nil _ _)
    rintro ⟨hupload, -⟩
    cases hupload
  | append_singleton steps s ih =>
    rw [after_concat, history_concat, measured_concat, ← ih, ← after_upload_eq_some_iff]
    exact progress_eq_active_iff (reacts_step _ _) u percent

/-- No session leads to a panel whose progress is an abort, as that is set for one view only. -/
private theorem after_progress_ne_aborted (steps : List Step) : (after steps).progress ≠ .aborted :=
  Turn.final_invariant step (fun p s hp => (reacts_step p s).progress_ne_aborted hp)
    Progress.noConfusion steps

/-- What a bar shows fits a history: that the upload has been aborted if that is just happening,
    else what was last measured of the upload in flight, else that an upload is awaited. -/
structure ProgressBar.Fits (bar : ProgressBar) (h : List Moment) (aborting : Prop) : Prop where
  aborted : bar = .aborted ↔ aborting
  percent : ∀ percent, bar = .ofPercent percent ↔ ¬ aborting ∧ ∃ u, Measured h u percent
  waiting : bar = .waiting ↔ ¬ aborting ∧ ∀ u percent, ¬ Measured h u percent

namespace ProgressBar

variable {h : List Moment} {aborting : Prop}

/-- The bar of an abort fits while aborting. -/
private theorem fits_aborted (habort : aborting) : aborted.Fits h aborting where
  aborted := iff_of_true rfl habort
  percent n := iff_of_false (ofPercent_ne_aborted n).symm fun hn => hn.1 habort
  waiting := iff_of_false aborted_ne_waiting fun hn => hn.1 habort

/-- The waiting bar fits if nothing has been measured. -/
private theorem fits_waiting (hno : ¬ aborting) (hnone : ∀ u n, ¬ Measured h u n) :
    waiting.Fits h aborting where
  aborted := iff_of_false aborted_ne_waiting.symm hno
  percent n := iff_of_false (ofPercent_ne_waiting n).symm fun ⟨_, u, hu⟩ => hnone u n hu
  waiting := iff_of_true rfl ⟨hno, hnone⟩

/-- The bar of a percentage fits if that is what has been measured. -/
private theorem fits_ofPercent (hno : ¬ aborting) {u : UploadId} {n : Nat} (hu : Measured h u n)
    (honly : ∀ v k, Measured h v k → k = n) : (ofPercent n).Fits h aborting where
  aborted := iff_of_false (ofPercent_ne_aborted n) hno
  percent k := by
    rw [ofPercent_inj]
    refine ⟨fun hk => ⟨hno, u, hk ▸ hu⟩, fun ⟨_, v, hv⟩ => (honly v k hv).symm⟩
  waiting := iff_of_false (ofPercent_ne_waiting n) fun hnone => hnone.2 u n hu

end ProgressBar

/-- While a status is known, the bar of the panel fits its history. -/
private theorem fits_view_progress (steps : List Step) (hstatus : (after steps).status ≠ none)
    {aborting : Prop} (hno : ¬ aborting) :
    (after steps).view.progress.Fits (history steps) aborting := by
  have hmeasured := after_progress_eq_active_iff steps
  rw [view_progress_of_known hstatus]
  cases hprogress : (after steps).progress with
  | waiting =>
    have hbar : (after steps).loc.progressBar = .waiting := by
      simp [loc, Local.progressBar, hprogress]
    rw [hbar]
    refine ProgressBar.fits_waiting hno fun u n hu => ?_
    have hactive := ((hmeasured u n).mpr hu).2
    rw [hprogress] at hactive
    cases hactive
  | aborted => exact absurd hprogress (after_progress_ne_aborted steps)
  -- A percentage is kept after its upload, but is shown only during it.
  | active n =>
    cases hupload : (after steps).upload with
    | none =>
      have hbar : (after steps).loc.progressBar = .waiting := by
        simp [loc, Local.progressBar, hprogress, hupload]
      rw [hbar]
      refine ProgressBar.fits_waiting hno fun u k hu => ?_
      have hflight := ((hmeasured u k).mpr hu).1
      rw [hupload] at hflight
      cases hflight
    | some u =>
      have hbar : (after steps).loc.progressBar = .ofPercent n := by
        simp [loc, Local.progressBar, hprogress, hupload, ProgressBar.ofPercent]
      rw [hbar]
      refine ProgressBar.fits_ofPercent hno ((hmeasured u n).mp ⟨hupload, hprogress⟩) ?_
      intro v k hv
      have hactive := ((hmeasured v k).mpr hv).2
      rw [hprogress] at hactive
      exact (Progress.active.inj hactive).symm

/-- What a view shows of progress, given what is known of the status: nothing without a status, and
    else what fits the history. -/
def View.TellsProgress (v : View) (status : Option Status) (h : List Moment) (aborting : Prop) :
    Prop :=
  (status = none → v.progress = .waiting) ∧ (status ≠ none → v.progress.Fits h aborting)

/-- The current view tells the progress of its history. -/
private theorem tellsProgress_view (steps : List Step) {aborting : Prop} (hno : ¬ aborting) :
    (after steps).view.TellsProgress (after steps).status (history steps) aborting :=
  ⟨view_progress_of_unknown, fun hstatus => fits_view_progress steps hstatus hno⟩

/-- The progress bar of any session, in the panel as it is and in every view that was ever shown.

    * Without a status the bar is waiting. With one, it says that the upload has been aborted in the
      view that the abort shows and in no other. Any other bar has the percentage that was last
      measured of the upload in flight, if it has been measured since it was started, and is
      waiting if not.
    * What has been measured is the upload in flight, and a percentage is at most 100. -/
theorem progress_bar_of_history (steps : List Step) :
    (after steps).view.TellsProgress (after steps).status (history steps) False ∧
    (∀ past m since, history steps = past ++ m :: since → ∀ v ∈ m.shown,
      v.TellsProgress m.turn.state.status (past ++ [m])
        (m.input = .abortUpload ∧ m.cancelled ≠ [])) ∧
    (∀ u n, Measured (history steps) u n → (after steps).upload = some u ∧ n ≤ 100) := by
  refine ⟨tellsProgress_view steps not_false, ?_, ?_⟩
  · -- Up to the moment the history is that of a session of its own.
    intro past m since hcut v hv
    obtain ⟨earlier, hhistory, hstate⟩ := exists_history_eq_concat hcut
    have hm : m ∈ history steps := by rw [hcut]; simp
    rcases (shows_of_mem_history hm).eq_of_mem hv with ⟨hcancelled, hview⟩ | ⟨habort, hview⟩
    · rw [hview, ← hhistory, ← hstate]
      exact tellsProgress_view earlier fun habort => habort.2 hcancelled
    · -- An abort shows a panel of its own, with its progress set to aborted.
      rw [hview]
      refine ⟨fun hstatus => view_progress_of_unknown hstatus, fun hstatus => ?_⟩
      rw [view_progress_of_known (p := { m.turn.state with progress := .aborted }) hstatus]
      exact ProgressBar.fits_aborted habort
  · intro u n hu
    refine ⟨((after_progress_eq_active_iff steps u n).mpr hu).1, ?_⟩
    obtain ⟨_, _, _, _, ⟨_, hmeasures⟩, _⟩ := hu
    exact hmeasures.percent_le

end KvmConsole.Msd
