import KvmConsole.Proofs.Msd.Session

/-!
# What a panel shows

A panel hands out whole views, and after every step the last one is the view of the panel as it is.
The one exception is an upload that has just been aborted: the view says so, while the panel has
gone back to waiting.

Key results:
* `Reacts.shows`: a step shows nothing and does nothing, or it shows one view.
* `Moment.Shows.eq_of_mem`: which view that is.
* `view_with_progress`: the progress is seen in the progress bar only.
* `last_shown_current`: the last view shown in a session, and the steps that show none.
-/

namespace KvmConsole.Msd

open Panel

/-- The view that an effect shows. -/
@[simp] def Effect.shown? : Effect → Option View
  | .render view => some view
  | _ => none

/-- There is no progress to speak of exactly if the total is unknown or zero. -/
theorem Progress.ofBytes_eq_none_iff {loaded : UInt64} {total : Option UInt64} :
    Progress.ofBytes loaded total = none ↔ total = none ∨ total = some 0 := by
  cases total with
  | none => simp [Progress.ofBytes]
  | some t => by_cases ht : t = 0 <;> simp [Progress.ofBytes, ht]

namespace Moment

/-- The views shown. -/
def shown (m : Moment) : List View := m.turn.effects.filterMap Effect.shown?

/-- There is nothing to be done: a file is selected while nothing is known about the storage, a
    start is refused, an abort finds no upload, a report is ignored, or it has no total. -/
def IsQuiet (m : Moment) : Prop :=
  match m.input with
  | .select _ => m.before.status = none
  | .startUpload => ∃ reason, m.turn.result = .refused reason
  | .abortUpload => m.before.upload = none
  | .event (.uploadProgress _ _ total) =>
    m.turn.result = .handled .ignored ∨ total = none ∨ total = some 0
  | .event (.uploadFinished _ _ _) => m.turn.result = .handled .ignored
  | _ => False

/-- The three things that a moment can show. -/
inductive Shows (m : Moment) : Prop where
  | nothing (hquiet : m.IsQuiet) (hshown : m.shown = []) (hstate : m.turn.state = m.before)
      (heffects : ∀ e ∈ m.turn.effects, e.isLog)
  | current (hquiet : ¬ m.IsQuiet) (hcancelled : m.cancelled = [])
      (hshown : m.shown = [m.turn.state.view])
  /-- That the upload in flight has been aborted. The panel goes back to waiting after that. -/
  | abort (u : UploadId) (hquiet : ¬ m.IsQuiet) (hinput : m.input = .abortUpload)
      (hcancelled : m.cancelled = [u])
      (hshown : m.shown = [{ m.turn.state with progress := .aborted }.view])

/-- A view shown is that of the panel after the moment, but for the progress in an abort. -/
theorem Shows.eq_of_mem {m : Moment} (h : m.Shows) {v : View} (hv : v ∈ m.shown) :
    m.cancelled = [] ∧ v = m.turn.state.view ∨
      (m.input = .abortUpload ∧ m.cancelled ≠ []) ∧
        v = { m.turn.state with progress := .aborted }.view := by
  cases h with
  | nothing _ hshown _ _ =>
    rw [hshown] at hv
    cases hv
  | current _ hcancelled hshown =>
    rw [hshown, List.mem_singleton] at hv
    exact .inl ⟨hcancelled, hv⟩
  | abort u _ hinput hcancelled hshown =>
    rw [hshown, List.mem_singleton] at hv
    exact .inr ⟨⟨hinput, hcancelled ▸ List.cons_ne_nil u []⟩, hv⟩

end Moment

namespace Panel

/-- A rendering shows the view of its panel. -/
@[simp] theorem filterMap_shown?_rendering (p : Panel) :
    p.rendering.filterMap Effect.shown? = [p.view] := rfl

/-- The progress is seen in the progress bar only. -/
theorem view_with_progress (p : Panel) (progress : Progress) :
    { p with progress }.view = { p.view with progress := { p with progress }.view.progress } := by
  rcases p with ⟨_ | status, _⟩ <;> rfl

/-! ## One step -/

/-- Every reaction shows nothing, the current view, or the view of an aborted upload. -/
theorem Reacts.shows {p : Panel} {s : Step} {turn : Turn Panel Effect Reply}
    (h : p.Reacts s turn) : Moment.Shows ⟨p, s, turn⟩ := by
  cases h with
  | setStatus | switchTo | reset => exact .current id rfl rfl
  | selectUnknown file hstatus => exact .nothing hstatus rfl rfl (by simp [note, Effect.isLog])
  | selectTooBig file status hstatus _ | select file status hstatus _ =>
    refine .current (fun hquiet => ?_) rfl rfl
    exact Option.some_ne_none status (hstatus.symm.trans hquiet)
  | startBusy | startUnselected => exact .nothing ⟨_, rfl⟩ rfl rfl (by simp [Turn.idle])
  | start =>
    refine .current ?_ rfl rfl
    rintro ⟨reason, hquiet⟩
    cases hquiet
  | abortIdle hupload => exact .nothing hupload rfl rfl (by simp [note, Effect.isLog])
  -- The abort is shown before the upload is forgotten.
  | abort u hupload =>
    refine .abort u (fun hquiet => ?_) rfl rfl rfl
    exact Option.some_ne_none u (hupload.symm.trans hquiet)
  | staleProgress => exact .nothing (.inl rfl) rfl rfl (by simp [note, Effect.isLog])
  -- A report without a usable total shows nothing.
  | unmeasured u loaded total _ htotal =>
    exact .nothing (.inr (Progress.ofBytes_eq_none_iff.mp htotal)) rfl rfl (by simp [Turn.idle])
  | progress u loaded total progress _ htotal =>
    refine .current (fun hquiet => ?_) rfl rfl
    rcases hquiet with hquiet | hquiet
    · cases hquiet
    · rw [Progress.ofBytes_eq_none_iff.mpr hquiet] at htotal
      cases htotal
  | staleEnd => exact .nothing rfl rfl rfl (by simp [note, Effect.isLog])
  | finish u status body _ =>
    -- The end is logged or shown as an error before the view.
    refine .current ?_ ?_ ?_
    · intro hquiet
      cases hquiet
    · by_cases hok : status = httpOk <;>
        simp [Moment.cancelled, Panel.shown, note, List.filterMap_cons, hok]
    · by_cases hok : status = httpOk <;>
        simp [Moment.shown, Panel.shown, note, List.filterMap_cons, hok]
  | answered command status body =>
    refine .current id ?_ ?_
    · by_cases hok : status = httpOk <;>
        simp [Moment.cancelled, Panel.shown, List.filterMap_cons, hok]
    · by_cases hok : status = httpOk <;>
        simp [Moment.shown, Panel.shown, List.filterMap_cons, hok]

end Panel

/-! ## Whole sessions -/

/-- Every moment of a session shows as its reaction does. -/
theorem shows_of_mem_history {steps : List Step} {m : Moment} (hm : m ∈ history steps) : m.Shows :=
  (reacts_of_mem_history hm).shows

/-- The views shown in a history, in order. -/
def shownIn (h : List Moment) : List View := h.flatMap Moment.shown

/-- The last moment that showed a view aborted an upload. -/
def AbortShown (h : List Moment) : Prop :=
  Turn.HoldsSince (fun _ m => m.input = .abortUpload ∧ m.cancelled ≠ []) (fun m => m.shown = []) h

/-- The last view shown is that of the panel as it is, up to the progress if it told of an abort. -/
private theorem getLast?_shownIn_history (steps : List Step) {v : View}
    (h : (shownIn (history steps)).getLast? = some v) :
    v = (after steps).view ∨
      AbortShown (history steps) ∧ v = { (after steps).view with progress := v.progress } := by
  induction steps using List.reverseRecOn with
  | nil => cases h
  | append_singleton steps s ih =>
    rw [history_concat, shownIn, List.flatMap_append, List.flatMap_singleton, ← shownIn] at h
    rw [after_concat, history_concat, AbortShown, Turn.holdsSince_concat, ← AbortShown]
    cases (reacts_step (after steps) s).shows with
    | nothing _ hshown hstate _ =>
      -- The panel has not changed, and what was shown last still is.
      rw [hshown, List.append_nil] at h
      have hstate : ((after steps).step s).state = after steps := hstate
      rw [hstate]
      exact (ih h).imp_right fun ⟨habort, hv⟩ => ⟨.inr ⟨habort, hshown⟩, hv⟩
    | current _ _ hshown =>
      rw [hshown, List.getLast?_concat] at h
      exact .inl (Option.some.inj h).symm
    -- The view of the abort differs from the current one in its progress.
    | abort u _ hinput hcancelled hshown =>
      rw [hshown, List.getLast?_concat] at h
      have hv := Option.some.inj h
      refine .inr ⟨.inl ⟨hinput, ?_⟩, ?_⟩
      · rw [hcancelled]
        exact List.cons_ne_nil u []
      · rw [← hv]
        exact view_with_progress _ .aborted

/-- What any session shows is up to date. A session cut short is a session, so this holds after
    every step.

    * The last view shown is that of the panel as it is. Only if it was shown by the abort of an
      upload it may have another progress bar.
    * A step shows one view at most. It shows none exactly if there was nothing to be done.
    * A step that shows none leaves the panel as it is and does nothing but write to the log. -/
theorem last_shown_current (steps : List Step) :
    (∀ v, (shownIn (history steps)).getLast? = some v →
      v = (after steps).view ∨
        AbortShown (history steps) ∧ v = { (after steps).view with progress := v.progress }) ∧
    (∀ m ∈ history steps, m.shown.length ≤ 1 ∧ (m.shown = [] ↔ m.IsQuiet)) ∧
    (∀ m ∈ history steps, m.shown = [] →
      m.turn.state = m.before ∧ ∀ e ∈ m.turn.effects, e.isLog) := by
  refine ⟨fun v hv => getLast?_shownIn_history steps hv, ?_, ?_⟩
  · -- A step shows at most one view.
    intro m hm
    cases shows_of_mem_history hm with
    | nothing hquiet hshown _ _ =>
      rw [hshown]
      exact ⟨Nat.zero_le 1, iff_of_true rfl hquiet⟩
    | current hquiet _ hshown | abort _ hquiet _ _ hshown =>
      rw [hshown]
      exact ⟨Nat.le_refl 1, iff_of_false (List.cons_ne_nil _ _) hquiet⟩
  · -- A step that shows nothing does nothing but log.
    intro m hm hnone
    have hone : ∀ v, m.shown ≠ [v] := fun v hv => List.cons_ne_nil v [] (hv.symm.trans hnone)
    cases shows_of_mem_history hm with
    | nothing _ _ hstate heffects => exact ⟨hstate, heffects⟩
    | current _ _ hshown | abort _ _ _ _ hshown => exact absurd hshown (hone _)

end KvmConsole.Msd
