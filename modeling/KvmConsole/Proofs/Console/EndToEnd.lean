import KvmConsole.Proofs.Console.Between

/-!
# Operations from beginning to end

What a command and an upload come to, read off the daemon's replies alone. A console that is between
two operations asks for the status, and what it learns from the reply decides whether it sends the
second request at all; the reply to that one decides the rest. What has happened before plays no
part in it, with one exception: the file of an upload that the user has interrupted stays selected
until another file takes its place.

Key results:
* `command_end_to_end`: a command.
* `upload_of_silence`: an upload that the user has to interrupt.
* `upload_end_to_end`: an upload that is not interrupted.
-/

namespace KvmConsole.Console

open Daemon (Reply)

variable {i : Bool} {c : Console}

/-! ## A daemon to run against -/

/-- A device that works, attached to the machine that runs the daemon, with 4096 bytes and no
    image. -/
def readyDevice : Msd.Status := ⟨.kvm, false, true, ⟨4096, none⟩⟩

/-- The daemon tells of such a device. -/
def readyReply : Reply :=
  .response 200
    ("\x7b\"ok\":true,\"result\":\x7b\"connected_to\":\"kvm\",\"busy\":false," ++
      "\"in_operate\":true,\"info\":\x7b\"size\":4096,\"image\":null\x7d\x7d\x7d")

/-- The reply is written as the daemon writes it. -/
private theorem readyReply_eq :
    readyReply = .response 200 (Wire.Envelope.okText readyDevice.text) := by
  decide +kernel

/-- From the reply any client learns the status. -/
theorem learns_readyReply (client : Daemon.Client) :
    client.Learns readyReply (.ok readyDevice) := by
  rw [readyReply_eq]
  exact client.learns_okText readyDevice

/-- The default settings make a console. -/
theorem exists_ofSettings_default : ∃ c, ofSettings {} = .ok c := by
  have hmade : (ofSettings {}).toOption.isSome := rfl
  cases h : ofSettings {} with
  | error reason =>
    rw [h] at hmade
    cases hmade
  | ok c => exact ⟨c, rfl⟩

/-! ## How far an operation comes -/

namespace Operation.ComesTo

variable {operation : Operation Unit} {network : Daemon.Network}
  {request request' : Daemon.Request} {shown : List String} {sent answered : Prop}

/-- An operation that stops before its second request does not succeed. -/
private theorem of_unsent {fault : Fault}
    (h : operation.ComesTo c ⟨.error fault, [request], network⟩ shown) (hnot : ¬ sent) :
    (sent ∧ operation.result.requests = [request, request'] ∨
      ¬ sent ∧ operation.result.requests = [request]) ∧
    (operation.result.result = .ok () ↔ sent ∧ answered) := by
  rw [h.result]
  refine ⟨.inr ⟨hnot, rfl⟩, nofun, ?_⟩
  intro hsent
  exact absurd hsent.1 hnot

/-- An operation that makes its second request succeeds if the end of that request says so. -/
private theorem of_sent {action : Action} {status : UInt16} {body : String}
    (h : operation.ComesTo c
      ⟨verdict action (status = Msd.Panel.httpOk) status body, [request] ++ [request'], network⟩
      shown)
    (hsent : sent) (hanswered : status = Msd.Panel.httpOk ↔ answered) :
    (sent ∧ operation.result.requests = [request, request'] ∨
      ¬ sent ∧ operation.result.requests = [request]) ∧
    (operation.result.result = .ok () ↔ sent ∧ answered) := by
  rw [h.result]
  refine ⟨.inl ⟨hsent, rfl⟩, ?_⟩
  rw [verdict_eq_ok_iff, hanswered, and_iff_right hsent]

end Operation.ComesTo

/-! ## A command -/

/-- A command from beginning to end, for any replies of the daemon to the two requests, from any
    console between two operations.

    * A reply that carries a status tells that status.
    * The status is asked for first. The command is sent, once, if the status in the reply allows
      it, and not otherwise.
    * The operation succeeds if the command was sent and got a response with status 200, and under
      no other circumstances.
    * If the reply tells no status, the fault is what is wrong with it. If the status does not allow
      the command, its button is disabled. A command that was sent and has not succeeded has been
      rejected, with the status and the body of the response.
    * One error is shown if the command has been rejected, and none otherwise. -/
theorem command_end_to_end (hc : Between i c) (command : Msd.Command) (get post : Reply)
    (later : List Reply) :
    let operation := c.command command (.daemon (get :: post :: later))
    let sent := ∃ s, c.client.Learns get (.ok s) ∧ s.Allows command
    (∀ s : Msd.Status,
      c.client.Learns (.response 200 (Wire.Envelope.okText s.text)) (.ok s)) ∧
    (sent ∧ operation.result.requests =
        [c.client.statusRequest, c.client.commandRequest command] ∨
      ¬ sent ∧ operation.result.requests = [c.client.statusRequest]) ∧
    (operation.result.result = .ok () ↔ sent ∧ ∃ body, post = .response 200 body) ∧
    (∀ reason, c.client.Learns get (.error reason) →
      operation.result.result = .error (.daemon reason)) ∧
    (∀ s, c.client.Learns get (.ok s) → ¬ s.Allows command →
      operation.result.result = .error (.disabled (.command command))) ∧
    (sent → ∀ fault, operation.result.result = .error fault →
      fault = .rejected (.command command) (c.client.commandEnd command post).1
        (c.client.commandEnd command post).2) ∧
    notices operation.effects =
      match operation.result.result with
      | .error (.rejected _ _ body) => [Msd.Panel.commandFailedMessage command body]
      | _ => [] := by
  intro operation sent
  refine ⟨c.client.learns_okText, ?_⟩
  have hrested := hc.rested
  have hstatus : ∀ {outcome}, c.client.Learns get outcome →
      c.client.status (.daemon (get :: post :: later)) =
        ⟨outcome, [c.client.statusRequest], .daemon (post :: later)⟩ :=
    fun h => Daemon.Client.status_eq hrested.grounded h (post :: later)
  -- The three stages at which the operation may end.
  have huntold : ∀ reason, c.client.Learns get (.error reason) → operation.ComesTo c
      ⟨.error (.daemon reason), [c.client.statusRequest], .daemon (post :: later)⟩ [] :=
    fun reason h => command_of_error (hstatus h) command
  have hdisabled : ∀ s, c.client.Learns get (.ok s) → ¬ s.Allows command →
      operation.ComesTo (c.seen s)
        ⟨.error (.disabled (.command command)), [c.client.statusRequest],
          .daemon (post :: later)⟩ [] :=
    fun s h hs => command_of_disabled hrested.toAtRest (hstatus h) hs
  have hend := Daemon.Client.command_eq hrested.grounded command post later
  have hallowed := fun s (h : c.client.Learns get (.ok s)) (hs : s.Allows command) =>
    command_of_allowed hrested.toAtRest (hstatus h) hs hend
  -- The fault at each of them.
  have hreason : ∀ reason, c.client.Learns get (.error reason) →
      operation.result.result = .error (.daemon reason) :=
    fun reason h => congrArg (·.result) (huntold reason h).result
  have hbutton : ∀ s, c.client.Learns get (.ok s) → ¬ s.Allows command →
      operation.result.result = .error (.disabled (.command command)) :=
    fun s h hs => congrArg (·.result) (hdisabled s h hs).result
  have hrejected : sent → ∀ fault, operation.result.result = .error fault →
      fault = .rejected (.command command) (c.client.commandEnd command post).1
        (c.client.commandEnd command post).2 := by
    rintro ⟨s, hs, hallows⟩ fault hfault
    rw [(hallowed s hs hallows).result] at hfault
    exact eq_of_verdict_eq_error hfault
  -- The reply decides which of them it is.
  obtain ⟨outcome, hlearns⟩ := c.client.exists_learns get
  cases outcome with
  -- No status is learned, and nothing is sent.
  | error reason =>
    have hnot : ¬ sent := fun ⟨s, hs, _⟩ => nomatch hs.unique hlearns
    have h := huntold reason hlearns
    obtain ⟨hrequests, hsuccess⟩ := h.of_unsent hnot
    refine ⟨hrequests, hsuccess, hreason, hbutton, hrejected, ?_⟩
    rw [h.notices, h.result]
  | ok s =>
    by_cases hallows : s.Allows command
    · have hsent : sent := ⟨s, hlearns, hallows⟩
      have h := hallowed s hlearns hallows
      obtain ⟨hrequests, hsuccess⟩ := h.of_sent hsent Daemon.Client.endOf_fst_eq_iff
      refine ⟨hrequests, hsuccess, hreason, hbutton, hrejected, ?_⟩
      rw [h.notices, h.result]
      by_cases hhttp : (c.client.commandEnd command post).1 = Msd.Panel.httpOk
      · rw [if_pos hhttp, verdict_eq_ok_iff.mpr hhttp]
      · rw [if_neg hhttp, verdict, decide_eq_false hhttp]
        rfl
    · have hnot : ¬ sent := by
        rintro ⟨s', hs', hallows'⟩
        rw [Except.ok.inj (hs'.unique hlearns)] at hallows'
        exact hallows hallows'
      have h := hdisabled s hlearns hallows
      obtain ⟨hrequests, hsuccess⟩ := h.of_unsent hnot
      refine ⟨hrequests, hsuccess, hreason, hbutton, hrejected, ?_⟩
      rw [h.notices, h.result]

/-- A reset that the daemon turns down, and after it a command that the daemon carries out. -/
theorem reset_rejected_then_connected :
    ∃ c, ofSettings {} = .ok c ∧
      let first := c.command .reset (.daemon [readyReply, .response 500 "no medium"])
      let second :=
        first.state.command (.connect .server) (.daemon [readyReply, .response 200 ""])
      first.result.requests = [c.client.statusRequest, c.client.commandRequest .reset] ∧
      first.result.result = .error (.rejected (.command .reset) 500 "no medium") ∧
      notices first.effects = ["Mass Storage Device reset failed: no medium"] ∧
      second.result.requests = [first.state.client.statusRequest,
        first.state.client.commandRequest (.connect .server)] ∧
      second.result.result = .ok () ∧
      notices second.effects = [] := by
  obtain ⟨c, hc⟩ := exists_ofSettings_default
  have hmade : Between false c := .made hc
  have hleft := hmade.command .reset (.daemon [readyReply, .response 500 "no medium"])
  refine ⟨c, hc, ?_⟩
  intro first second
  obtain ⟨-, hrequests, hsuccess, -, -, hrejected, hshown⟩ :=
    command_end_to_end hmade .reset readyReply (.response 500 "no medium") []
  obtain ⟨-, hrequests', hsuccess', -, -, -, hshown'⟩ :=
    command_end_to_end hleft (.connect .server) readyReply (.response 200 "") []
  -- The status allows both commands, so both are sent.
  have hsent : ∃ s, c.client.Learns readyReply (.ok s) ∧ s.Allows .reset :=
    ⟨readyDevice, learns_readyReply _, by decide⟩
  have hsent' : ∃ s, first.state.client.Learns readyReply (.ok s) ∧ s.Allows (.connect .server) :=
    ⟨readyDevice, learns_readyReply _, by decide⟩
  -- The first is turned down, and the second is carried out.
  have hfirst : first.result.result = .error (.rejected (.command .reset) 500 "no medium") := by
    cases hresult : first.result.result with
    | ok _ =>
      obtain ⟨-, body, hbody⟩ := hsuccess.mp hresult
      cases hbody
    | error fault =>
      rw [hrejected hsent fault hresult, Daemon.Client.commandEnd, Daemon.Client.endOf]
  have hsecond : second.result.result = .ok () := hsuccess'.mpr ⟨hsent', "", rfl⟩
  rw [hfirst] at hshown
  rw [hsecond] at hshown'
  exact ⟨(hrequests.resolve_right fun h => h.1 hsent).2, hfirst, hshown,
    (hrequests'.resolve_right fun h => h.1 hsent').2, hsecond, hshown'⟩

/-! ## An upload -/

/-- A file that can be read, and has as many bytes as it is said to have. -/
structure IsReadable (files : Files) (file : Msd.ImageFile) (bytes : ByteArray) : Prop where
  entry : files file.path = some (.file bytes)
  size : bytes.size = file.size.toNat

/-- A readable file is read as a whole. -/
private theorem IsReadable.read_eq {files : Files} {file : Msd.ImageFile} {bytes : ByteArray}
    (h : IsReadable files file bytes) : files.read file.path = .ok bytes := by
  rw [Files.read, h.entry]

/-- An upload that gets no answer has to be interrupted, and leaves its file selected. -/
theorem upload_of_silence (hc : Between i c) {file : Msd.ImageFile} {files : Files}
    {bytes : ByteArray} (hfile : IsReadable files file bytes) (limits : List Nat) {get : Reply}
    {s : Msd.Status} (hlearns : c.client.Learns get (.ok s)) (hallows : s.AllowsUpload)
    (hfits : file.size ≤ s.info.size) (later : List Reply) :
    let operation := c.upload file files limits (.daemon (get :: .silence :: later))
    operation.result.result = .error .aborted ∧ Between true operation.state ∧
      operation.state.panel.selected = some file := by
  intro operation
  have hrested := hc.rested
  have hstatus := Daemon.Client.status_eq hrested.grounded hlearns (.silence :: later)
  have hreports := Daemon.Client.upload_eq_of_silence hrested.grounded hfile.read_eq
    ⟨c.panel.started + 1⟩ limits later
  have h := upload_of_noEnd hrested.toAtRest hstatus hallows hfits hreports
  have hresult : operation.result.result = .error .aborted := congrArg (·.result) h.result
  -- The reports have no end, so that the user has interrupted.
  have hinterrupted : operation.isInterrupted = true := by rw [Operation.isInterrupted, hresult]
  have hleft := hc.upload file files limits (.daemon (get :: .silence :: later))
  rw [hinterrupted, Bool.or_true] at hleft
  exact ⟨hresult, hleft, by rw [h.state]⟩

/-- An upload from beginning to end, for any readable file and any replies of the daemon to the two
    requests, from any console between two operations. The second reply does come, so that there is
    nothing to interrupt.

    * A reply that carries a status tells that status.
    * The status is asked for first. The file is sent, once, if the status in the reply allows it
      and the file fits, and not otherwise.
    * The operation succeeds if the file was sent and got a response with status 200, and under no
      other circumstances.
    * If the reply tells no status, the fault is what is wrong with it. If the status does not allow
      an upload, the button is disabled. If it does and the file does not fit, the file is refused.
      An upload that was sent and has not succeeded has been rejected, with the status and the body
      of the response.
    * One error is shown if the file is too big or the upload has been rejected, and none otherwise.
    * Afterwards no upload is in flight. No file is selected either if the status in the reply
      allows an upload, whatever becomes of it. Otherwise the operation has not come to its own
      file, and the selection is what it was: none, unless the user has interrupted an upload
      before. -/
theorem upload_end_to_end (hc : Between i c) {file : Msd.ImageFile} {files : Files}
    {bytes : ByteArray} (hfile : IsReadable files file bytes) (limits : List Nat) (get : Reply)
    {post : Reply} (hpost : post ≠ .silence) (later : List Reply) :
    let operation := c.upload file files limits (.daemon (get :: post :: later))
    let sent := ∃ s, c.client.Learns get (.ok s) ∧ s.AllowsUpload ∧ file.size ≤ s.info.size
    (∀ s : Msd.Status,
      c.client.Learns (.response 200 (Wire.Envelope.okText s.text)) (.ok s)) ∧
    (sent ∧ operation.result.requests =
        [c.client.statusRequest, c.client.writeRequest file.name (c.client.sentData bytes limits)] ∨
      ¬ sent ∧ operation.result.requests = [c.client.statusRequest]) ∧
    (operation.result.result = .ok () ↔ sent ∧ ∃ body, post = .response 200 body) ∧
    (∀ reason, c.client.Learns get (.error reason) →
      operation.result.result = .error (.daemon reason)) ∧
    (∀ s, c.client.Learns get (.ok s) → ¬ s.AllowsUpload →
      operation.result.result = .error (.disabled .upload)) ∧
    (∀ s, c.client.Learns get (.ok s) → s.AllowsUpload → s.info.size < file.size →
      operation.result.result = .error (.msd (.imageTooBig file.size s.info.size))) ∧
    (sent → ∀ fault, operation.result.result = .error fault →
      fault = .rejected .upload (c.client.uploadEnd post).1 (c.client.uploadEnd post).2) ∧
    (notices operation.effects =
      match operation.result.result with
      | .error (.msd (.imageTooBig _ max)) => [Msd.Panel.tooBigMessage max]
      | .error (.rejected _ _ body) => [Msd.Panel.uploadFailedMessage body]
      | _ => []) ∧
    operation.state.panel.upload = none ∧
    ((∃ s, c.client.Learns get (.ok s) ∧ s.AllowsUpload) →
      operation.state.panel.selected = none) ∧
    ((¬ ∃ s, c.client.Learns get (.ok s) ∧ s.AllowsUpload) →
      operation.state.panel.selected = c.panel.selected) ∧
    (i = false → operation.state.panel.selected = none) := by
  intro operation sent
  refine ⟨c.client.learns_okText, ?_⟩
  have hrested := hc.rested
  have hstatus : ∀ {outcome}, c.client.Learns get outcome →
      c.client.status (.daemon (get :: post :: later)) =
        ⟨outcome, [c.client.statusRequest], .daemon (post :: later)⟩ :=
    fun h => Daemon.Client.status_eq hrested.grounded h (post :: later)
  -- The four stages at which the operation may end.
  have huntold : ∀ reason, c.client.Learns get (.error reason) → operation.ComesTo c
      ⟨.error (.daemon reason), [c.client.statusRequest], .daemon (post :: later)⟩ [] :=
    fun reason h => upload_of_error (hstatus h) file files limits
  have hdisabled : ∀ s, c.client.Learns get (.ok s) → ¬ s.AllowsUpload →
      operation.ComesTo (c.seen s)
        ⟨.error (.disabled .upload), [c.client.statusRequest], .daemon (post :: later)⟩ [] :=
    fun s h hs => upload_of_disabled hrested.toAtRest (hstatus h) hs file files limits
  have htooBig := fun s (h : c.client.Learns get (.ok s)) (hs : s.AllowsUpload)
      (hsize : s.info.size < file.size) =>
    upload_of_tooBig hrested.toAtRest (hstatus h) hs hsize files limits
  have hend := Daemon.Client.upload_eq hrested.grounded hfile.read_eq ⟨c.panel.started + 1⟩ limits
    hpost later
  have hallowed := fun s (h : c.client.Learns get (.ok s)) (hs : s.AllowsUpload)
      (hsize : file.size ≤ s.info.size) =>
    upload_of_end hrested.toAtRest (hstatus h) hs hsize hend
  -- The fault at each of them.
  have hreason : ∀ reason, c.client.Learns get (.error reason) →
      operation.result.result = .error (.daemon reason) :=
    fun reason h => congrArg (·.result) (huntold reason h).result
  have hbutton : ∀ s, c.client.Learns get (.ok s) → ¬ s.AllowsUpload →
      operation.result.result = .error (.disabled .upload) :=
    fun s h hs => congrArg (·.result) (hdisabled s h hs).result
  have hrefused : ∀ s, c.client.Learns get (.ok s) → s.AllowsUpload → s.info.size < file.size →
      operation.result.result = .error (.msd (.imageTooBig file.size s.info.size)) :=
    fun s h hs hsize => congrArg (·.result) (htooBig s h hs hsize).result
  have hrejected : sent → ∀ fault, operation.result.result = .error fault →
      fault = .rejected .upload (c.client.uploadEnd post).1 (c.client.uploadEnd post).2 := by
    rintro ⟨s, hs, hallows, hsize⟩ fault hfault
    rw [(hallowed s hs hallows hsize).result] at hfault
    exact eq_of_verdict_eq_error hfault
  -- The reply and the size decide which of the stages it is.
  obtain ⟨outcome, hlearns⟩ := c.client.exists_learns get
  cases outcome with
  -- No status is learned, and nothing is sent.
  | error reason =>
    have hnot : ¬ sent := fun ⟨s, hs, _⟩ => nomatch hs.unique hlearns
    have h := huntold reason hlearns
    obtain ⟨hrequests, hsuccess⟩ := h.of_unsent hnot
    refine ⟨hrequests, hsuccess, hreason, hbutton, hrefused, hrejected, ?_, ?_⟩
    · rw [h.notices, h.result]
    · rw [h.state]
      refine ⟨hrested.upload, ?_, fun _ => rfl, hrested.unselected⟩
      rintro ⟨s, hs, -⟩
      exact nomatch hs.unique hlearns
  | ok s =>
    have hunique : ∀ s', c.client.Learns get (.ok s') → s' = s := fun s' hs' =>
      Except.ok.inj (hs'.unique hlearns)
    by_cases hallows : s.AllowsUpload
    · by_cases hsize : s.info.size < file.size
      · have hnot : ¬ sent := by
          rintro ⟨s', hs', -, hfits⟩
          rw [hunique s' hs'] at hfits
          exact absurd hsize (UInt64.not_lt.mpr hfits)
        have h := htooBig s hlearns hallows hsize
        obtain ⟨hrequests, hsuccess⟩ := h.of_unsent hnot
        refine ⟨hrequests, hsuccess, hreason, hbutton, hrefused, hrejected, ?_, ?_⟩
        · rw [h.notices, h.result]
        · rw [h.state]
          exact ⟨hrested.upload, fun _ => rfl, fun hno => absurd ⟨s, hlearns, hallows⟩ hno,
            fun _ => rfl⟩
      · have hfits := UInt64.not_lt.mp hsize
        have hsent : sent := ⟨s, hlearns, hallows, hfits⟩
        have h := hallowed s hlearns hallows hfits
        obtain ⟨hrequests, hsuccess⟩ := h.of_sent hsent Daemon.Client.endOf_fst_eq_iff
        refine ⟨hrequests, hsuccess, hreason, hbutton, hrefused, hrejected, ?_, ?_⟩
        · rw [h.notices, h.result]
          by_cases hhttp : (c.client.uploadEnd post).1 = Msd.Panel.httpOk
          · rw [if_pos hhttp, verdict_eq_ok_iff.mpr hhttp]
          · rw [if_neg hhttp, verdict, decide_eq_false hhttp]
            rfl
        · rw [h.state]
          exact ⟨rfl, fun _ => rfl, fun hno => absurd ⟨s, hlearns, hallows⟩ hno, fun _ => rfl⟩
    · have hnot : ¬ sent := by
        rintro ⟨s', hs', hallows', -⟩
        rw [hunique s' hs'] at hallows'
        exact hallows hallows'
      have h := hdisabled s hlearns hallows
      obtain ⟨hrequests, hsuccess⟩ := h.of_unsent hnot
      refine ⟨hrequests, hsuccess, hreason, hbutton, hrefused, hrejected, ?_, ?_⟩
      · rw [h.notices, h.result]
      · rw [h.state]
        refine ⟨hrested.upload, ?_, fun _ => rfl, hrested.unselected⟩
        rintro ⟨s', hs', hallows'⟩
        rw [hunique s' hs'] at hallows'
        exact absurd hallows' hallows

/-- The user interrupts an upload, and the next one does not learn the status. The file of the first
    is still selected. -/
theorem interrupted_file_stays_selected :
    ∃ c, ofSettings {} = .ok c ∧
      let files : Files := fun _ => some (.file .empty)
      let first := c.upload ⟨"first.img", 0, "first.img"⟩ files [] (.daemon [readyReply, .silence])
      let second := first.state.upload ⟨"second.img", 0, "second.img"⟩ files []
        (.daemon [.response 503 "starting", .response 200 ""])
      first.result.result = .error .aborted ∧
      Between true first.state ∧
      IsReadable files ⟨"second.img", 0, "second.img"⟩ .empty ∧
      second.result.result = .error (.daemon (.badStatus 503 "starting")) ∧
      second.state.panel.selected = some ⟨"first.img", 0, "first.img"⟩ := by
  obtain ⟨c, hc⟩ := exists_ofSettings_default
  refine ⟨c, hc, ?_⟩
  intro files first second
  have hfile : IsReadable files ⟨"first.img", 0, "first.img"⟩ .empty := ⟨rfl, rfl⟩
  obtain ⟨haborted, hleft, hselected⟩ :=
    upload_of_silence (.made hc) hfile [] (learns_readyReply _) (by decide) (by decide) []
  -- The second upload does not get past its check of the status.
  have hlearns : first.state.client.Learns (.response 503 "starting")
      (.error (.badStatus 503 "starting")) := .refused 503 "starting" (by decide)
  have hstatus := Daemon.Client.status_eq hleft.rested.grounded hlearns [.response 200 ""]
  have hsecond := upload_of_error hstatus ⟨"second.img", 0, "second.img"⟩ files []
  refine ⟨haborted, hleft, ⟨rfl, rfl⟩, congrArg (·.result) hsecond.result, ?_⟩
  rw [hsecond.state]
  exact hselected

/-- After an upload that was interrupted, one that the daemon turns down, and then one that it
    takes. -/
theorem upload_rejected_then_accepted :
    ∃ c, ofSettings {} = .ok c ∧
      let file : Msd.ImageFile := ⟨"disk.img", 3, "disk.img"⟩
      let files : Files := fun _ => some (.file ⟨#[3, 10, 17]⟩)
      let interrupted := (c.upload file files [] (.daemon [readyReply, .silence])).state
      let first := interrupted.upload file files [2] (.daemon [readyReply, .response 507 "full"])
      let second := first.state.upload file files [] (.daemon [readyReply, .response 200 ""])
      interrupted.panel.selected = some file ∧
      first.result.requests = [interrupted.client.statusRequest,
        interrupted.client.writeRequest "disk.img"
          (interrupted.client.sentData ⟨#[3, 10, 17]⟩ [2])] ∧
      first.result.result = .error (.rejected .upload 507 "full") ∧
      notices first.effects = ["Can't upload image to the Mass Storage Device: full"] ∧
      first.state.panel.selected = none ∧
      second.result.result = .ok () ∧
      notices second.effects = [] ∧
      second.state.panel.selected = none := by
  obtain ⟨c, hc⟩ := exists_ofSettings_default
  refine ⟨c, hc, ?_⟩
  intro file files interrupted first second
  have hfile : IsReadable files file ⟨#[3, 10, 17]⟩ := ⟨rfl, rfl⟩
  have hallows : readyDevice.AllowsUpload := by decide
  have hfits : file.size ≤ readyDevice.info.size := by decide
  obtain ⟨-, hinterrupted, hselected⟩ :=
    upload_of_silence (.made hc) hfile [] (learns_readyReply _) hallows hfits []
  have hpost : Reply.response 507 "full" ≠ .silence := nofun
  have hpost' : Reply.response 200 "" ≠ .silence := nofun
  obtain ⟨-, hrequests, hsuccess, -, -, -, hrejected, hshown, -, hnone, -⟩ :=
    upload_end_to_end hinterrupted hfile [2] readyReply hpost []
  obtain ⟨-, -, hsuccess', -, -, -, -, hshown', -, hnone', -⟩ :=
    upload_end_to_end
      (hinterrupted.upload file files [2] (.daemon [readyReply, .response 507 "full"]))
      hfile [] readyReply hpost' []
  -- The status allows both uploads and the file fits, so both are sent.
  have hsent : ∀ client : Daemon.Client, ∃ s, client.Learns readyReply (.ok s) ∧
      s.AllowsUpload ∧ file.size ≤ s.info.size := fun client =>
    ⟨readyDevice, learns_readyReply client, hallows, hfits⟩
  have henabled : ∀ client : Daemon.Client, ∃ s, client.Learns readyReply (.ok s) ∧
      s.AllowsUpload := fun client => ⟨readyDevice, learns_readyReply client, hallows⟩
  -- The first is turned down, and the second is carried out.
  have hfirst : first.result.result = .error (.rejected .upload 507 "full") := by
    cases hresult : first.result.result with
    | ok _ =>
      obtain ⟨-, body, hbody⟩ := hsuccess.mp hresult
      cases hbody
    | error fault =>
      rw [hrejected (hsent _) fault hresult, Daemon.Client.uploadEnd, Daemon.Client.endOf]
  have hsecond : second.result.result = .ok () := hsuccess'.mpr ⟨hsent _, "", rfl⟩
  rw [hfirst] at hshown
  rw [hsecond] at hshown'
  exact ⟨hselected, (hrequests.resolve_right fun h => h.1 (hsent _)).2, hfirst, hshown,
    hnone (henabled _), hsecond, hshown', hnone' (henabled _)⟩

end KvmConsole.Console
