import KvmConsole.Proofs.Console.Reports
import KvmConsole.Proofs.Daemon.Requests

/-!
# What operations come to

A command or an upload goes through stages: the status, the button, the size of the image, and the
wait for the end. For each stage at which it may stop, there is one lemma here that says everything
about it: the console afterwards, the result with the requests, and the errors shown.

Key results:
* `isDisabled_eq_false_iff`, `selectNewImage_eq_false_iff`: which status enables a button.
* `command_of_error`, `command_of_disabled`, `command_of_allowed`: a command.
* `upload_of_error`, `upload_of_disabled`, `upload_of_tooBig`, `upload_of_end`,
  `upload_of_noEnd`: an upload.
-/

namespace KvmConsole

/-! ## What a status allows -/

namespace Msd

/-- A device with the status takes a command. It is only attached to a machine that it is not
    attached to already, and not while an image is being written. -/
def Status.Allows (s : Status) : Command → Prop
  | .connect target => s.inOperate ∧ ¬ s.busy ∧ s.connectedTo ≠ target
  | .reset => s.inOperate

instance (s : Status) : (command : Command) → Decidable (s.Allows command)
  | .connect target => inferInstanceAs (Decidable (s.inOperate ∧ ¬ s.busy ∧ s.connectedTo ≠ target))
  | .reset => inferInstanceAs (Decidable s.inOperate)

/-- A device with the status takes an image. -/
def Status.AllowsUpload (s : Status) : Prop := s.inOperate ∧ s.connectedTo = .kvm ∧ ¬ s.busy

instance (s : Status) : Decidable s.AllowsUpload :=
  inferInstanceAs (Decidable (s.inOperate ∧ s.connectedTo = .kvm ∧ ¬ s.busy))

end Msd

namespace Console

/-- Without work of this client, the button of a command is enabled if the status allows it. -/
theorem isDisabled_eq_false_iff (s : Msd.Status) (loc : Msd.Local)
    (huploading : loc.uploading = false) (hpending : loc.pending = none) (command : Msd.Command) :
    isDisabled (.derive s loc) command = false ↔ s.Allows command := by
  rcases command with target | _
  · cases target <;> cases hto : s.connectedTo <;>
      simp [isDisabled, Msd.Disabled.derive, Msd.Status.Allows, hto, hpending]
  · simp [isDisabled, Msd.Disabled.derive, Msd.Status.Allows, huploading, hpending]

/-- Without an upload of this client, an image can be picked if the status allows it. -/
theorem selectNewImage_eq_false_iff (s : Msd.Status) (loc : Msd.Local)
    (huploading : loc.uploading = false) :
    (Msd.Disabled.derive s loc).selectNewImage = false ↔ s.AllowsUpload := by
  simp [Msd.Disabled.derive, Msd.Status.AllowsUpload, huploading, and_assoc]

/-! ## The console between operations -/

/-- The console has no upload and no command of its own, and waits for no report: what may still
    come in is about uploads that are over. -/
structure AtRest (c : Console) : Prop where
  upload : c.panel.upload = none
  pending : c.panel.pending = none
  progress : c.panel.progress = .waiting
  stale : ∀ e ∈ c.reports, ∃ u, e.upload? = some u ∧ u.number ≤ c.panel.started

/-- A panel whose upload in flight, if any, is a new one passes over what is in the queue. -/
private theorem AtRest.passesOver {c : Console} (hc : c.AtRest) {p : Msd.Panel}
    (hp : ∀ u, p.upload = some u → c.panel.started < u.number) :
    ∀ e ∈ c.reports, p.PassesOver e := by
  intro e he
  obtain ⟨u, hu, hnumber⟩ := hc.stale e he
  apply Msd.Panel.passesOver_of_stale hu
  intro hupload
  have hnew := hp u hupload
  omega

/-- The console when it has seen a status. -/
def seen (c : Console) (s : Msd.Status) : Console :=
  { c with panel := { c.panel with status := some s } }

/-- At rest, the button of a command is enabled if the status allows it. -/
private theorem AtRest.isDisabled_seen {c : Console} (hc : c.AtRest) (s : Msd.Status)
    (command : Msd.Command) :
    isDisabled (c.seen s).panel.view.disabled command = false ↔ s.Allows command := by
  have huploading : (c.seen s).panel.loc.uploading = false := by
    simp only [Msd.Panel.loc, seen, hc.upload, Option.isSome_none]
  exact isDisabled_eq_false_iff s (c.seen s).panel.loc huploading hc.pending command

/-- With nothing under way, the button for a new image depends on the status alone. -/
private theorem AtRest.selectNewImage_seen {c : Console} (hc : c.AtRest) (s : Msd.Status) :
    (c.seen s).panel.view.disabled.selectNewImage = false ↔ s.AllowsUpload := by
  have huploading : (c.seen s).panel.loc.uploading = false := by
    simp only [Msd.Panel.loc, seen, hc.upload, Option.isSome_none]
  exact selectNewImage_eq_false_iff s (c.seen s).panel.loc huploading

/-- What an operation comes to: the console after it, its result with the requests, and the errors
    that it showed. -/
structure Operation.ComesTo {α : Type} (operation : Operation α) (c : Console)
    (exchange : Daemon.Exchange (Except Fault α)) (shown : List String) : Prop where
  state : operation.state = c
  result : operation.result = exchange
  notices : notices operation.effects = shown

section Stages

variable {c : Console} {network network' network'' : Daemon.Network}
  {requests requests' : List Daemon.Request} {reason : Daemon.Failure} {s : Msd.Status}

/-- A refresh without an answer comes to its failure. -/
theorem refresh_of_error (h : c.client.status network = ⟨.error reason, requests, network'⟩) :
    (c.refresh network).ComesTo c ⟨.error (.daemon reason), requests, network'⟩ [] := by
  simp only [refresh, h]
  exact ⟨rfl, rfl, rfl⟩

/-- A refresh with an answer comes to the status. -/
theorem refresh_of_ok (h : c.client.status network = ⟨.ok s, requests, network'⟩) :
    (c.refresh network).ComesTo (c.seen s) ⟨.ok s, requests, network'⟩ [] := by
  simp only [refresh, h]
  exact ⟨rfl, rfl, rfl⟩

namespace Operation.ComesTo

variable {α β : Type} {operation : Operation α} {next : Console → Daemon.Network → α → Operation β}
  {shown : List String}

/-- An operation that ends with a fault is not gone on with. -/
private theorem bind_error {fault : Fault}
    (h : operation.ComesTo c ⟨.error fault, requests, network'⟩ shown) :
    (operation.bind next).ComesTo c ⟨.error fault, requests, network'⟩ shown := by
  simp only [Operation.bind, h.result]
  exact ⟨h.state, rfl, h.notices⟩

/-- The requests of both operations are made, one after the other. -/
private theorem bind_ok {value : α} {c' : Console} {result : Except Fault β}
    (h : operation.ComesTo c ⟨.ok value, requests, network'⟩ [])
    (h' : (next c network' value).ComesTo c' ⟨result, requests', network''⟩ shown) :
    (operation.bind next).ComesTo c' ⟨result, requests ++ requests', network''⟩ shown := by
  simp only [Operation.bind, h.result, Turn.andThen, h.state]
  refine ⟨h'.state, ?_, ?_⟩
  · simp only [Turn.after, Turn.map, h'.result]
  · simp only [Turn.after, Turn.map, notices_append, h.notices, h'.notices, List.nil_append]

end Operation.ComesTo

/-! ## A command -/

/-- A command without a status comes to the failure. -/
theorem command_of_error (h : c.client.status network = ⟨.error reason, requests, network'⟩)
    (command : Msd.Command) :
    (c.command command network).ComesTo c ⟨.error (.daemon reason), requests, network'⟩ [] :=
  (refresh_of_error h).bind_error

/-- A command whose button is disabled comes to a fault, and is not sent. -/
theorem command_of_disabled (hc : c.AtRest)
    (h : c.client.status network = ⟨.ok s, requests, network'⟩) {command : Msd.Command}
    (hs : ¬ s.Allows command) :
    (c.command command network).ComesTo (c.seen s)
      ⟨.error (.disabled (.command command)), requests, network'⟩ [] := by
  have hdisabled : isDisabled (c.seen s).panel.view.disabled command := by
    rw [← Bool.not_eq_false, hc.isDisabled_seen]
    exact hs
  unfold Console.command
  rw [← List.append_nil requests]
  refine (refresh_of_ok h).bind_ok ?_
  rw [if_pos hdisabled]
  exact ⟨rfl, rfl, rfl⟩

/-- A command that the status allows is sent. Its end is the only report that is not passed over. -/
theorem command_of_allowed (hc : c.AtRest)
    (h : c.client.status network = ⟨.ok s, requests, network'⟩) {command : Msd.Command}
    (hs : s.Allows command) {status : UInt16} {body : String}
    (hend : c.client.command command network' =
      ⟨[.commandFinished command status body], requests', network''⟩) :
    (c.command command network).ComesTo { c.seen s with reports := [] }
      ⟨verdict (.command command) (status = Msd.Panel.httpOk) status body, requests ++ requests',
        network''⟩
      (if status = Msd.Panel.httpOk then []
        else [Msd.Panel.commandFailedMessage command body]) := by
  have henabled : ¬ isDisabled (c.seen s).panel.view.disabled command := by
    rw [Bool.not_eq_true, hc.isDisabled_seen]
    exact hs
  unfold Console.command
  refine (refresh_of_ok h).bind_ok ?_
  rw [if_neg henabled]
  -- What is left is the wait, over the queue and then the end.
  let issued : Console :=
    { c.seen s with panel := { (c.seen s).panel with pending := some command } }
  -- The reports that are still waiting belong to uploads that have ended.
  have hpass : ∀ e ∈ c.reports, issued.panel.PassesOver e :=
    hc.passesOver fun u hu => by
      rw [show issued.panel.upload = none from hc.upload] at hu
      cases hu
  obtain ⟨effects, hnotices, hwait⟩ :=
    awaitCommand_eq (c := issued) hc.upload rfl hpass status body
  have hissue : (c.seen s).issue command =
      ⟨issued, ((c.seen s).panel.issue command).effects.map .msd, ()⟩ := by
    cases command <;> rfl
  have hclient : (c.seen s).client = c.client := rfl
  have hreports : issued.reports = c.reports := rfl
  -- The answer leaves the console as it was, but for what it has seen.
  have hdone : { issued with
      panel := { issued.panel with pending := none }, reports := [] } =
        { c.seen s with reports := [] } := by
    simp only [issued, seen, ← hc.pending]
  simp only [hclient, hend, hissue, Turn.andThen, hreports, hwait, hdone]
  refine ⟨rfl, rfl, ?_⟩
  simp only [Turn.after, Turn.map, notices_append, hnotices, notices_map_msd]
  rfl

/-! ## An upload -/

/-- An upload without a status comes to the failure. -/
theorem upload_of_error (h : c.client.status network = ⟨.error reason, requests, network'⟩)
    (file : Msd.ImageFile) (files : Files) (limits : List Nat) :
    (c.upload file files limits network).ComesTo c ⟨.error (.daemon reason), requests, network'⟩
      [] :=
  (refresh_of_error h).bind_error

/-- An upload whose button is disabled comes to a fault. -/
theorem upload_of_disabled (hc : c.AtRest)
    (h : c.client.status network = ⟨.ok s, requests, network'⟩) (hs : ¬ s.AllowsUpload)
    (file : Msd.ImageFile) (files : Files) (limits : List Nat) :
    (c.upload file files limits network).ComesTo (c.seen s)
      ⟨.error (.disabled .upload), requests, network'⟩ [] := by
  have hdisabled : (c.seen s).panel.view.disabled.selectNewImage := by
    rw [← Bool.not_eq_false, hc.selectNewImage_seen]
    exact hs
  unfold Console.upload
  rw [← List.append_nil requests]
  refine (refresh_of_ok h).bind_ok ?_
  rw [if_pos hdisabled]
  exact ⟨rfl, rfl, rfl⟩

/-- An image that does not fit is not sent, and none is selected after that. -/
theorem upload_of_tooBig (hc : c.AtRest)
    (h : c.client.status network = ⟨.ok s, requests, network'⟩) (hs : s.AllowsUpload)
    {file : Msd.ImageFile} (hsize : s.info.size < file.size) (files : Files) (limits : List Nat) :
    (c.upload file files limits network).ComesTo
      { c.seen s with panel := { (c.seen s).panel with selected := none } }
      ⟨.error (.msd (.imageTooBig file.size s.info.size)), requests, network'⟩
      [Msd.Panel.tooBigMessage s.info.size] := by
  have henabled : ¬ (c.seen s).panel.view.disabled.selectNewImage := by
    rw [Bool.not_eq_true, hc.selectNewImage_seen]
    exact hs
  -- The selection is refused with an error, and what was selected before is dropped.
  have hselect : (c.seen s).onPanel (·.select file) =
      ⟨{ c.seen s with panel := { (c.seen s).panel with selected := none } },
        ([Msd.Effect.notify (Msd.Panel.tooBigMessage s.info.size)] ++
          Msd.Panel.rendering { (c.seen s).panel with selected := none }).map .msd,
        .error (.imageTooBig file.size s.info.size)⟩ := by
    simp only [onPanel, Msd.Panel.select, seen, if_pos hsize]
    rfl
  unfold Console.upload
  rw [← List.append_nil requests]
  refine (refresh_of_ok h).bind_ok ?_
  rw [if_neg henabled]
  simp only [hselect]
  exact ⟨rfl, rfl, rfl⟩

/-- The console when it has seen a status and has started to upload a file. -/
def uploading (c : Console) (s : Msd.Status) (file : Msd.ImageFile) : Console :=
  { c with
    panel := { c.panel with
      status := some s
      selected := some file
      upload := some ⟨c.panel.started + 1⟩
      progress := .waiting
      started := c.panel.started + 1 } }

variable {file : Msd.ImageFile} {files : Files} {limits : List Nat}

/-- An image that fits is sent, and the upload comes to what the wait for it comes to. -/
private theorem upload_of_fits (hc : c.AtRest)
    (h : c.client.status network = ⟨.ok s, requests, network'⟩) (hs : s.AllowsUpload)
    (hsize : file.size ≤ s.info.size) {reports : List Msd.Event}
    (hreports : c.client.upload ⟨c.panel.started + 1⟩ file files limits network' =
      ⟨reports, requests', network''⟩)
    {c' : Console} {effects : List Effect} {result : Except Fault Unit}
    (hwait : (c.uploading s file).awaitUpload (c.reports ++ reports) = ⟨c', effects, result⟩) :
    (c.upload file files limits network).ComesTo c' ⟨result, requests ++ requests', network''⟩
      (notices effects) := by
  have henabled : ¬ (c.seen s).panel.view.disabled.selectNewImage := by
    rw [Bool.not_eq_true, hc.selectNewImage_seen]
    exact hs
  -- The file is selected, which shows no error.
  obtain ⟨selecting, hquiet, hselect⟩ : ∃ selecting, notices selecting = [] ∧
      (c.seen s).onPanel (·.select file) =
        ⟨{ c.seen s with panel := { (c.seen s).panel with selected := some file } }, selecting,
          .ok ()⟩ := by
    refine ⟨((c.seen s).panel.select file).effects.map .msd, ?_, ?_⟩
    · simp only [Msd.Panel.select, seen, if_neg (UInt64.not_lt.mpr hsize)]
      rfl
    · simp only [onPanel, Msd.Panel.select, seen, if_neg (UInt64.not_lt.mpr hsize)]
      rfl
  -- The upload is started under the next number, which shows none either.
  obtain ⟨starting, hquiet', hstart⟩ : ∃ starting, notices starting = [] ∧
      ({ c.seen s with panel := { (c.seen s).panel with selected := some file } } : Console).onPanel
          (·.startUpload) =
        ⟨c.uploading s file, starting, .ok ⟨c.panel.started + 1⟩⟩ := by
    refine ⟨(Msd.Panel.startUpload { (c.seen s).panel with selected := some file }).effects.map
      .msd, ?_, ?_⟩
    · simp only [Msd.Panel.startUpload, seen, hc.upload]
      rfl
    · simp only [onPanel, Msd.Panel.startUpload, seen, hc.upload]
      rfl
  have hsent : (c.seen s).client.upload ⟨c.panel.started + 1⟩ file files limits network' =
      ⟨reports, requests', network''⟩ := hreports
  have hqueue : (c.uploading s file).reports = c.reports := rfl
  unfold Console.upload
  refine (refresh_of_ok h).bind_ok ?_
  rw [if_neg henabled]
  simp only [hselect, Turn.andThen, hstart, hsent, hqueue, hwait]
  refine ⟨rfl, rfl, ?_⟩
  simp only [Turn.after, Turn.map, notices_append, hquiet, hquiet', List.nil_append]

/-- While an upload is on its way, the reports of earlier uploads and of progress are passed
    over. -/
private theorem AtRest.uploading_passesOver (hc : c.AtRest) (s : Msd.Status) (file : Msd.ImageFile)
    (chunks : List (List UInt8)) :
    ∀ e ∈ c.reports ++ Daemon.Client.progressEvents ⟨c.panel.started + 1⟩ file.size chunks,
      (c.uploading s file).panel.PassesOver e := by
  intro e he
  rcases List.mem_append.mp he with hqueue | hprogress
  · -- What waits in the queue is about uploads with lower numbers.
    refine hc.passesOver (fun u hu => ?_) e hqueue
    have hnumber : u = ⟨c.panel.started + 1⟩ := (Option.some.inj hu).symm
    rw [hnumber]
    exact Nat.lt_succ_self _
  · obtain ⟨loaded, -, rfl⟩ := List.mem_map.mp hprogress
    trivial

/-- An upload that ends. -/
theorem upload_of_end (hc : c.AtRest)
    (h : c.client.status network = ⟨.ok s, requests, network'⟩) (hs : s.AllowsUpload)
    (hsize : file.size ≤ s.info.size) {chunks : List (List UInt8)} {status : UInt16}
    {body : String}
    (hreports : c.client.upload ⟨c.panel.started + 1⟩ file files limits network' =
      ⟨Daemon.Client.progressEvents ⟨c.panel.started + 1⟩ file.size chunks ++
        [.uploadFinished ⟨c.panel.started + 1⟩ status body], requests', network''⟩) :
    (c.upload file files limits network).ComesTo
      { c with
        panel := { c.panel with
          status := some s
          selected := none
          upload := none
          progress := .waiting
          started := c.panel.started + 1 }
        reports := [] }
      ⟨verdict .upload (status = Msd.Panel.httpOk) status body, requests ++ requests', network''⟩
      (if status = Msd.Panel.httpOk then [] else [Msd.Panel.uploadFailedMessage body]) := by
  -- The reports of the progress are passed over until the end comes.
  obtain ⟨effects, hnotices, hwait⟩ :=
    awaitUpload_eq (c := c.uploading s file) rfl (hc.uploading_passesOver s file chunks) status body
  rw [List.append_assoc] at hwait
  rw [← hnotices]
  exact upload_of_fits hc h hs hsize hreports hwait

/-- An upload that has no end until the user interrupts it. -/
theorem upload_of_noEnd (hc : c.AtRest)
    (h : c.client.status network = ⟨.ok s, requests, network'⟩) (hs : s.AllowsUpload)
    (hsize : file.size ≤ s.info.size) {chunks : List (List UInt8)}
    (hreports : c.client.upload ⟨c.panel.started + 1⟩ file files limits network' =
      ⟨Daemon.Client.progressEvents ⟨c.panel.started + 1⟩ file.size chunks, requests',
        network''⟩) :
    (c.upload file files limits network).ComesTo
      { c with
        panel := { c.panel with
          status := some s
          selected := some file
          upload := none
          progress := .waiting
          started := c.panel.started + 1 }
        reports := [] }
      ⟨.error .aborted, requests ++ requests', network''⟩ [] := by
  -- All reports are passed over, and then the wait is broken off.
  obtain ⟨effects, hnotices, hwait⟩ :=
    awaitUpload_eq_aborted (c := c.uploading s file) rfl (hc.uploading_passesOver s file chunks)
  rw [← hnotices]
  exact upload_of_fits hc h hs hsize hreports hwait

end Stages

end Console

end KvmConsole
