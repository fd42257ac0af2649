import KvmConsole.Proofs.Msd.Shown
import KvmConsole.Proofs.Msd.UploadAccount

/-!
# Enabled buttons

The view decides which buttons are enabled, and the panel decides anew what it does with a request.
The two do not look at each other, but they agree: whoever only presses enabled buttons is not
turned down, except for a file that does not fit. While an upload is in flight, nothing is enabled
that would change the selected file, so that it is still the file of the upload.

Key results:
* `selectNewImage_view_iff`, `upload_view_iff`, `abortUpload_view_iff`: what enables a button.
* `locks_view`: the buttons while an upload is in flight.
* `selected_of_gated`: the selected file while an upload is in flight.
* `enabled_buttons_accepted`: the buttons of a session.
-/

namespace KvmConsole.Msd

open Panel

/-- The upload that an effect hands to the network, with its file. -/
def Effect.handed? : Effect → Option (UploadId × ImageFile)
  | .startUpload u file => some (u, file)
  | _ => none

/-- The uploads handed to the network in a moment, with their files. -/
def Moment.handed (m : Moment) : List (UploadId × ImageFile) :=
  m.turn.effects.filterMap Effect.handed?

/-- The uploads that are handed over are those that start. -/
private theorem Moment.map_fst_handed (m : Moment) : m.handed.map Prod.fst = m.started := by
  unfold handed started
  rw [List.map_filterMap]
  congr
  funext e
  cases e <;> rfl

/-- The buttons of a view while an upload is in flight: of the three that have to do with files, the
    one that aborts the upload is enabled as long as the device works. A reset is not possible. -/
structure View.LocksFor (v : View) (status : Option Status) : Prop where
  selectNewImage : v.disabled.selectNewImage
  upload : v.disabled.upload
  reset : v.disabled.reset
  abortUpload : ∀ s, status = some s → (v.disabled.abortUpload = false ↔ s.inOperate)

namespace Panel

/-! ## What enables a button -/

/-- Without a status everything is disabled. -/
private theorem disabled_view_of_unknown {p : Panel} (h : p.status = none) :
    p.view.disabled = .everything := by
  rw [view, h]
  rfl

/-- With a status, what is disabled follows from it and from the local state. -/
private theorem disabled_view_of_known {p : Panel} {status : Status} (h : p.status = some status) :
    p.view.disabled = .derive status p.loc := by
  rw [view, h]
  rfl

/-- A file can be picked if the device works, is attached to the controlled computer and is not
    being written, and no upload is in flight. -/
theorem selectNewImage_view_iff (p : Panel) :
    p.view.disabled.selectNewImage = false ↔
      (∃ status, p.status = some status ∧
        status.inOperate ∧ status.connectedTo = .kvm ∧ ¬ status.busy) ∧ p.upload = none := by
  cases hstatus : p.status with
  | none => simp [disabled_view_of_unknown hstatus, Disabled.everything]
  | some status =>
    rw [disabled_view_of_known hstatus]
    simp [Disabled.derive, loc, and_assoc]

/-- The selected file can be uploaded if a file can be picked at all. -/
theorem upload_view_iff (p : Panel) :
    p.view.disabled.upload = false ↔
      p.view.disabled.selectNewImage = false ∧ p.selected ≠ none := by
  cases hstatus : p.status with
  | none => simp [disabled_view_of_unknown hstatus, Disabled.everything]
  | some status =>
    rw [disabled_view_of_known hstatus]
    cases hselected : p.selected <;> simp [Disabled.derive, loc, hselected]

/-- The upload in flight can be aborted if the device works. -/
theorem abortUpload_view_iff (p : Panel) :
    p.view.disabled.abortUpload = false ↔
      (∃ status, p.status = some status ∧ status.inOperate) ∧ p.upload ≠ none := by
  cases hstatus : p.status with
  | none => simp [disabled_view_of_unknown hstatus, Disabled.everything]
  | some status =>
    rw [disabled_view_of_known hstatus]
    cases hupload : p.upload <;> simp [Disabled.derive, loc, hupload]

/-- While an upload is under way, the view locks all that would disturb it. -/
theorem locks_view {p : Panel} {u : UploadId} (hupload : p.upload = some u) :
    p.view.LocksFor p.status := by
  -- Nothing that has to do with another file is possible before the upload has ended.
  have hselect : p.view.disabled.selectNewImage := by
    rw [← Bool.not_eq_false, selectNewImage_view_iff]
    rintro ⟨-, hnone⟩
    rw [hupload] at hnone
    cases hnone
  have hstart : p.view.disabled.upload := by
    rw [← Bool.not_eq_false, upload_view_iff]
    rintro ⟨henabled, -⟩
    rw [hselect] at henabled
    cases henabled
  refine ⟨hselect, hstart, ?_, ?_⟩
  · cases hstatus : p.status with
    | none =>
      rw [disabled_view_of_unknown hstatus]
      rfl
    | some status =>
      rw [disabled_view_of_known hstatus]
      simp [Disabled.derive, loc, hupload]
  · intro status hstatus
    rw [abortUpload_view_iff, hstatus, hupload]
    simp

/-! ## What comes of an enabled button -/

/-- The button of a step is enabled. Steps that only take in a status or a report have none, and
    commands are left out here. -/
def Enables (p : Panel) : Step → Prop
  | .select _ => p.view.disabled.selectNewImage = false
  | .startUpload => p.view.disabled.upload = false
  | .abortUpload => p.view.disabled.abortUpload = false
  | _ => True

/-- A file that is picked by the enabled button is refused only if it is too big. -/
private theorem Reacts.select_enabled {p : Panel} {file : ImageFile}
    {turn : Turn Panel Effect Reply}
    (h : p.Reacts (.select file) turn) (henabled : p.Enables (.select file)) :
    turn.result = .selected ∨ ∃ max, turn.result = .refused (.imageTooBig file.size max) := by
  obtain ⟨⟨status, hstatus, -⟩, -⟩ := p.selectNewImage_view_iff.mp henabled
  cases h with
  | selectUnknown _ hunknown =>
    rw [hunknown] at hstatus
    cases hstatus
  | selectTooBig => exact .inr ⟨_, rfl⟩
  | select => exact .inl rfl

/-- An upload that is started by the enabled button goes into flight, and it is the selected file
    that is handed over. -/
private theorem Reacts.start_enabled {p : Panel} {turn : Turn Panel Effect Reply}
    (h : p.Reacts .startUpload turn) (henabled : p.Enables .startUpload) :
    ∃ file u, p.selected = some file ∧ turn.result = .started u ∧
      turn.state.upload = some u ∧ Moment.handed ⟨p, .startUpload, turn⟩ = [(u, file)] := by
  obtain ⟨hselect, hselected⟩ := p.upload_view_iff.mp henabled
  obtain ⟨-, hnone⟩ := p.selectNewImage_view_iff.mp hselect
  cases h with
  | startBusy u hupload =>
    rw [hnone] at hupload
    cases hupload
  | startUnselected _ hunselected => exact absurd hunselected hselected
  | start file _ hfile => exact ⟨file, _, hfile, rfl, rfl, rfl⟩

/-- The enabled button of an abort cancels the upload in flight. -/
private theorem Reacts.abort_enabled {p : Panel} {turn : Turn Panel Effect Reply}
    (h : p.Reacts .abortUpload turn) (henabled : p.Enables .abortUpload) :
    ∃ u, p.upload = some u ∧ Moment.cancelled ⟨p, .abortUpload, turn⟩ = [u] ∧
      turn.state.upload = none := by
  obtain ⟨-, hflight⟩ := p.abortUpload_view_iff.mp henabled
  cases h with
  | abortIdle hnone => exact absurd hnone hflight
  | abort u hupload => exact ⟨u, hupload, rfl, rfl⟩

/-- A step whose button is enabled leaves the selected file alone while an upload is in flight. An
    upload that goes into flight is that of the selected file. -/
private theorem Reacts.handed_or_keeps {p : Panel} {s : Step} {turn : Turn Panel Effect Reply}
    (h : p.Reacts s turn) (henabled : p.Enables s) {u : UploadId}
    (hupload : turn.state.upload = some u) :
    (∃ file, turn.state.selected = some file ∧ (u, file) ∈ Moment.handed ⟨p, s, turn⟩) ∨
      p.upload = some u ∧ turn.state.selected = p.selected := by
  cases h with
  | selectTooBig | select =>
    -- The button is enabled, so there is no upload in flight.
    obtain ⟨-, hnone⟩ := p.selectNewImage_view_iff.mp henabled
    have hsame : p.upload = some u := hupload
    rw [hnone] at hsame
    cases hsame
  -- The upload that starts is the one under way, and its file is handed over.
  | start file _ hselected =>
    have hu : (⟨p.started + 1⟩ : UploadId) = u := Option.some.inj hupload
    subst hu
    exact .inl ⟨file, hselected, List.mem_singleton.mpr rfl⟩
  | abort | finish => cases hupload
  | _ => exact .inr ⟨hupload, rfl⟩

end Panel

/-! ## Whole sessions -/

/-- The uploads handed to the network in a history, in order and with their files. -/
def handedIn (h : List Moment) : List (UploadId × ImageFile) := h.flatMap Moment.handed

/-- The uploads that are handed over in a session are those that start in it. -/
private theorem map_fst_handedIn (h : List Moment) : (handedIn h).map Prod.fst = startedIn h := by
  rw [handedIn, startedIn, List.map_flatMap]
  simp only [Moment.map_fst_handed]

/-- An upload has one file. -/
private theorem file_unique {steps : List Step} {u : UploadId} {file other : ImageFile}
    (h : (u, file) ∈ handedIn (history steps)) (h' : (u, other) ∈ handedIn (history steps)) :
    other = file := by
  have hnodup := nodup_startedIn_history steps
  rw [← map_fst_handedIn] at hnodup
  have hsame := List.inj_on_of_nodup_map hnodup h' h rfl
  exact congrArg Prod.snd hsame

/-- The buttons for files are pressed only when they are enabled. -/
def IsGated (steps : List Step) : Prop := ∀ m ∈ history steps, m.before.Enables m.input

/-- Every beginning of a gated run is gated. -/
private theorem isGated_concat {steps : List Step} {s : Step} (h : IsGated (steps ++ [s])) :
    IsGated steps ∧ (after steps).Enables s := by
  unfold IsGated at h
  rw [history_concat] at h
  constructor
  · intro m hm
    exact h m (List.mem_append_left _ hm)
  · exact h ⟨after steps, s, (after steps).step s⟩ (List.mem_append_right _ (by simp))

/-- While an upload is in flight, the selected file is the one that was handed over for it. -/
theorem selected_of_gated {steps : List Step} (hgated : IsGated steps) {u : UploadId}
    (hupload : (after steps).upload = some u) :
    ∃ file, (after steps).selected = some file ∧ (u, file) ∈ handedIn (history steps) := by
  induction steps using List.reverseRecOn with
  | nil => cases hupload
  | append_singleton steps s ih =>
    obtain ⟨hearlier, henabled⟩ := isGated_concat hgated
    rw [after_concat] at hupload ⊢
    rw [history_concat, handedIn, List.flatMap_append, List.flatMap_singleton, ← handedIn]
    rcases (reacts_step (after steps) s).handed_or_keeps henabled hupload with
      ⟨file, hselected, hhanded⟩ | ⟨hflight, hselected⟩
    · exact ⟨file, hselected, List.mem_append_right _ hhanded⟩
    · -- The upload was in flight before the step, with the same file.
      obtain ⟨file, hfile, hhanded⟩ := ih hearlier hflight
      exact ⟨file, hselected.trans hfile, List.mem_append_left _ hhanded⟩

/-- The buttons of any session agree with what the panel does. A session cut short is a session, so
    the first four parts speak of the panel after every step.

    * Where the view enables the upload, a start succeeds, and exactly the selected file is handed
      to the network.
    * Where it enables the abort, an abort cancels exactly the upload in flight.
    * Where it enables picking a file, the file is selected or is too big.
    * While an upload is in flight, every view, shown or not, disables picking a file, an upload and
      a reset; the abort is enabled if the device works. Without a status it is not known whether
      it does.
    * If those three buttons are pressed only when they are enabled, then while an upload is in
      flight the selected file is the one file that was handed over for it. -/
theorem enabled_buttons_accepted (steps : List Step) :
    let p := after steps
    (p.view.disabled.upload = false →
      ∃ file u, p.selected = some file ∧ (p.step .startUpload).result = .started u ∧
        (p.step .startUpload).state.upload = some u ∧
        Moment.handed ⟨p, .startUpload, p.step .startUpload⟩ = [(u, file)]) ∧
    (p.view.disabled.abortUpload = false →
      ∃ u, p.upload = some u ∧ Moment.cancelled ⟨p, .abortUpload, p.step .abortUpload⟩ = [u] ∧
        (p.step .abortUpload).state.upload = none) ∧
    (p.view.disabled.selectNewImage = false → ∀ file,
      (p.step (.select file)).result = .selected ∨
        ∃ max, (p.step (.select file)).result = .refused (.imageTooBig file.size max)) ∧
    (∀ u, p.upload = some u → p.view.LocksFor p.status) ∧
    (∀ m ∈ history steps, ∀ u, m.turn.state.upload = some u →
      ∀ v ∈ m.shown, v.LocksFor m.turn.state.status) ∧
    (IsGated steps → ∀ u, p.upload = some u →
      ∃ file, p.selected = some file ∧
        ∀ other, (u, other) ∈ handedIn (history steps) ↔ other = file) := by
  intro p
  refine ⟨?_, ?_, ?_, ?_, ?_, ?_⟩
  · intro henabled
    exact (p.reacts_step .startUpload).start_enabled henabled
  · intro henabled
    exact (p.reacts_step .abortUpload).abort_enabled henabled
  · intro henabled file
    exact (p.reacts_step (.select file)).select_enabled henabled
  · intro u hupload
    exact locks_view hupload
  · -- A view is the current one, or that of an abort.
    intro m hm u hupload v hv
    rcases (shows_of_mem_history hm).eq_of_mem hv with ⟨-, hview⟩ | ⟨⟨-, hcancelled⟩, -⟩
    · rw [hview]
      exact locks_view hupload
    · -- After an abort there is no upload.
      cases (reacts_of_mem_history hm).movesUpload with
      | cancels _ _ _ _ _ hafter _ =>
        rw [hafter] at hupload
        cases hupload
      | starts _ _ hnone _ _ _ | finishes _ _ _ hnone _ _ _ | rests _ hnone _ _ _ =>
        exact absurd hnone hcancelled
  · -- No number is handed over with two files.
    intro hgated u hupload
    obtain ⟨file, hselected, hhanded⟩ := selected_of_gated hgated hupload
    refine ⟨file, hselected, fun other => ⟨file_unique hhanded, ?_⟩⟩
    rintro rfl
    exact hhanded

end KvmConsole.Msd
