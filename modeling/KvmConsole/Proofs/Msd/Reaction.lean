import KvmConsole.Msd.Panel

/-!
# What a panel can do

`Panel.step` nests the decisions of every operation. `Panel.Reacts` lists what may come of a step,
one rule for each way it can go, with the condition under which it goes that way, the state after
it, its effects and its answer. Proofs about runs split on these rules and never open the step.

Key result: `reacts_step`, every step follows one of the rules.
-/

namespace KvmConsole.Msd.Panel

/-- The rules of a panel: `p.Reacts step turn` if `turn` may come of `step`. -/
inductive Reacts (p : Panel) : Step → Turn Panel Effect Reply → Prop where
  | setStatus (status : Option Status) :
    Reacts p (.setStatus status) ({ p with status }.shown [] .done)
  /-- Nothing is known about the storage yet. -/
  | selectUnknown (file : ImageFile) (hstatus : p.status = none) :
    Reacts p (.select file)
      ⟨p, [note .warn "image selected before MSD status is known" [("name", .plain file.name)]],
        .refused .unavailable⟩
  | selectTooBig (file : ImageFile) (status : Status) (hstatus : p.status = some status)
      (hsize : status.info.size < file.size) :
    Reacts p (.select file)
      ({ p with selected := none }.shown [.notify (tooBigMessage status.info.size)]
        (.refused (.imageTooBig file.size status.info.size)))
  | select (file : ImageFile) (status : Status) (hstatus : p.status = some status)
      (hsize : file.size ≤ status.info.size) :
    Reacts p (.select file)
      ({ p with selected := some file }.shown
        [note .info "new image selected"
          [("name", .plain file.name), ("size", .natural file.size.toNat)]] .selected)
  | startBusy (u : UploadId) (hupload : p.upload = some u) :
    Reacts p .startUpload (.idle p (.refused .uploadInProgress))
  | startUnselected (hupload : p.upload = none) (hselected : p.selected = none) :
    Reacts p .startUpload (.idle p (.refused .noImageSelected))
  | start (file : ImageFile) (hupload : p.upload = none) (hselected : p.selected = some file) :
    Reacts p .startUpload
      ({ p with
          upload := some ⟨p.started + 1⟩
          progress := .waiting
          started := p.started + 1 }.shown
        [note .info "starting image upload"
            [("id", .natural (p.started + 1)), ("name", .plain file.name),
              ("size", .natural file.size.toNat)],
          .startUpload ⟨p.started + 1⟩ file] (.started ⟨p.started + 1⟩))
  | abortIdle (hupload : p.upload = none) :
    Reacts p .abortUpload ⟨p, [note .debug "abort requested with no upload in flight" []], .done⟩
  | abort (u : UploadId) (hupload : p.upload = some u) :
    Reacts p .abortUpload
      ⟨{ p with upload := none, progress := .waiting },
        [note .info "aborting image upload" [("id", .natural u.number)], .cancelUpload u] ++
          { p with upload := none, progress := .aborted }.rendering, .done⟩
  | switchTo (target : Target) :
    Reacts p (.switchTo target) ((p.issue (.connect target)).map fun _ => .done)
  | reset : Reacts p .reset ((p.issue .reset).map fun _ => .done)
  | staleProgress (u : UploadId) (loaded : UInt64) (total : Option UInt64)
      (hupload : p.upload ≠ some u) :
    Reacts p (.event (.uploadProgress u loaded total))
      ⟨p, [note .debug "dropping progress of a detached upload" [("id", .natural u.number)]],
        .handled .ignored⟩
  /-- The total is unknown or zero, so there is nothing to show. -/
  | unmeasured (u : UploadId) (loaded : UInt64) (total : Option UInt64)
      (hupload : p.upload = some u) (htotal : Progress.ofBytes loaded total = none) :
    Reacts p (.event (.uploadProgress u loaded total)) (.idle p (.handled .progress))
  | progress (u : UploadId) (loaded : UInt64) (total : Option UInt64) (progress : Progress)
      (hupload : p.upload = some u) (htotal : Progress.ofBytes loaded total = some progress) :
    Reacts p (.event (.uploadProgress u loaded total))
      ({ p with progress }.shown [] (.handled .progress))
  | staleEnd (u : UploadId) (status : UInt16) (body : String) (hupload : p.upload ≠ some u) :
    Reacts p (.event (.uploadFinished u status body))
      ⟨p, [note .debug "dropping completion of a detached upload" [("id", .natural u.number)]],
        .handled .ignored⟩
  | finish (u : UploadId) (status : UInt16) (body : String) (hupload : p.upload = some u) :
    Reacts p (.event (.uploadFinished u status body))
      ({ p with selected := none, upload := none, progress := .waiting }.shown
        [if status = httpOk then note .info "image upload finished" [("id", .natural u.number)]
          else .notify (uploadFailedMessage body)]
        (.handled (.uploadFinished (status = httpOk))))
  | answered (command : Command) (status : UInt16) (body : String) :
    Reacts p (.event (.commandFinished command status body))
      ({ p with pending := if p.pending = some command then none else p.pending }.shown
        (if status = httpOk then [] else [.notify (commandFailedMessage command body)])
        (.handled (.commandFinished command (status = httpOk))))

/-- A step that comes to the turn of a rule follows the rule. -/
private theorem Reacts.of_eq {p : Panel} {s : Step} {turn : Turn Panel Effect Reply}
    (h : p.Reacts s turn) (hturn : p.step s = turn) : p.Reacts s (p.step s) :=
  hturn ▸ h

/-- Every step follows one of the rules. -/
theorem reacts_step (p : Panel) (s : Step) : p.Reacts s (p.step s) := by
  cases s with
  | setStatus status => exact .setStatus status
  -- The check against the storage needs a status.
  | select file =>
    rcases hstatus : p.status with _ | status
    · refine (Reacts.selectUnknown file hstatus).of_eq ?_
      simp only [step, Panel.select, hstatus]
      rfl
    · by_cases hsize : status.info.size < file.size
      · refine (Reacts.selectTooBig file status hstatus hsize).of_eq ?_
        simp only [step, Panel.select, hstatus, if_pos hsize]
        rfl
      · refine (Reacts.select file status hstatus (UInt64.not_lt.mp hsize)).of_eq ?_
        simp only [step, Panel.select, hstatus, if_neg hsize]
        rfl
  -- Whether an upload is under way is checked first, and then whether there is a file.
  | startUpload =>
    rcases hupload : p.upload with _ | u
    · rcases hselected : p.selected with _ | file
      · refine (Reacts.startUnselected hupload hselected).of_eq ?_
        simp only [step, Panel.startUpload, hupload, hselected]
        rfl
      · refine (Reacts.start file hupload hselected).of_eq ?_
        simp only [step, Panel.startUpload, hupload, hselected]
        rfl
    · refine (Reacts.startBusy u hupload).of_eq ?_
      simp only [step, Panel.startUpload, hupload]
      rfl
  | abortUpload =>
    rcases hupload : p.upload with _ | u
    · exact (Reacts.abortIdle hupload).of_eq (by simp only [step, Panel.abortUpload, hupload]; rfl)
    · exact (Reacts.abort u hupload).of_eq (by simp only [step, Panel.abortUpload, hupload]; rfl)
  | switchTo target => exact .switchTo target
  | reset => exact .reset
  | event e =>
    cases e with
    -- A report counts only for the upload that is under way, and is shown only if it can be
    -- measured.
    | uploadProgress u loaded total =>
      by_cases hupload : p.upload = some u
      · rcases htotal : Progress.ofBytes loaded total with _ | progress
        · refine (Reacts.unmeasured u loaded total hupload htotal).of_eq ?_
          simp only [step, handle, if_neg (not_not_intro hupload), htotal]
          rfl
        · refine (Reacts.progress u loaded total progress hupload htotal).of_eq ?_
          simp only [step, handle, if_neg (not_not_intro hupload), htotal]
          rfl
      · refine (Reacts.staleProgress u loaded total hupload).of_eq ?_
        simp only [step, handle, if_pos hupload]
        rfl
    | uploadFinished u status body =>
      by_cases hupload : p.upload = some u
      · refine (Reacts.finish u status body hupload).of_eq ?_
        simp only [step, handle, if_neg (not_not_intro hupload), decide_eq_true_eq]
        rfl
      · refine (Reacts.staleEnd u status body hupload).of_eq ?_
        simp only [step, handle, if_pos hupload]
        rfl
    | commandFinished command status body =>
      refine (Reacts.answered command status body).of_eq ?_
      simp only [step, handle, decide_eq_true_eq]
      rfl

end KvmConsole.Msd.Panel
