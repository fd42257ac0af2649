import KvmConsole.Proofs.Console.Between

/-!
# When an operation succeeds

A command or an upload can fail on any network: there may be no way to the daemon, or the daemon may
run out of replies at any request, which is as if it hung up there. It succeeds in one way only. The
daemon got the request for the status and the one with the operation, and its reply to the second
has status 200.

Key results:
* `status_daemon`, `command_daemon`, `upload_daemon`: the requests to a daemon with any replies.
* `command_eq_ok_iff`: when a command succeeds.
* `upload_eq_ok_iff`: when an upload succeeds.
-/

namespace KvmConsole

namespace Daemon

/-! ## Daemons with any replies -/

/-- What a daemon does with the next request. Without a reply it hangs up. -/
def nextReply (replies : List Reply) : Reply := replies.headD .hangUp

/-- The reply after the first one is the second of the list. -/
private theorem nextReply_tail_eq_iff {replies : List Reply} {status : UInt16} {body : String} :
    nextReply replies.tail = .response status body ↔
      ∃ first later, replies = first :: .response status body :: later := by
  constructor
  · intro h
    match replies with
    | [] | [_] => cases h
    | first :: second :: later => exact ⟨first, later, congrArg (first :: · :: later) h⟩
  · rintro ⟨first, later, rfl⟩
    rfl

namespace Client

variable {c : Client}

/-- A daemon without replies behaves as one that hangs up. -/
private theorem sendTo_nil (hc : c.IsGrounded) {path : String} {segments : List String}
    (h : Url.IsPlain path segments) (method : Method) (query : Option String) (payload : Payload) :
    c.sendTo method path query payload (.daemon []) =
      c.sendTo method path query payload (.daemon [.hangUp]) := by
  obtain ⟨url, hurl, -, -⟩ := exists_endpoint_eq hc h
  simp only [sendTo, hurl]
  rfl

/-- A status is one request, which uses up one reply. -/
theorem status_daemon (hc : c.IsGrounded) (replies : List Reply) :
    ∃ outcome, c.status (.daemon replies) = ⟨outcome, [c.statusRequest], .daemon replies.tail⟩ := by
  cases replies with
  | nil =>
    obtain ⟨outcome, h⟩ := c.exists_learns .hangUp
    refine ⟨outcome, ?_⟩
    have hsend := status_eq hc h []
    rwa [status, ← sendTo_nil hc isPlain_statusPath] at hsend
  | cons reply later =>
    obtain ⟨outcome, h⟩ := c.exists_learns reply
    exact ⟨outcome, status_eq hc h later⟩

/-- A command is one request, and its end is made of the reply. -/
theorem command_daemon (hc : c.IsGrounded) (command : Msd.Command) (replies : List Reply) :
    c.command command (.daemon replies) =
      ⟨[.commandFinished command (c.commandEnd command (nextReply replies)).1
          (c.commandEnd command (nextReply replies)).2],
        [c.commandRequest command], .daemon replies.tail⟩ := by
  cases replies with
  | nil =>
    obtain ⟨segments, hplain⟩ := exists_isPlain_commandPath command
    have hsend := command_eq hc command .hangUp []
    rwa [Client.command, ← sendTo_nil hc hplain] at hsend
  | cons reply later => exact command_eq hc command reply later

variable {file : Msd.ImageFile} {files : Files}

/-- A file that cannot be read is not sent, and the upload ends without progress or a response. -/
private theorem upload_of_unreadable (hc : c.IsGrounded) {reason : ReadFailure}
    (hread : files.read file.path = .error reason) (id : Msd.UploadId) (limits : List Nat)
    (network : Network) :
    ∃ body, c.upload id file files limits network =
      ⟨progressEvents id file.size [] ++ [.uploadFinished id 0 body], [], network⟩ := by
  obtain ⟨url, hurl, -, -⟩ := exists_endpoint_eq hc isPlain_writePath
  refine ⟨(Failure.unreadable file.path reason).message, ?_⟩
  simp only [Client.upload, hurl, hread]
  rfl

/-- A file that can be read is sent. The upload has no end if the daemon never answers. -/
theorem upload_daemon (hc : c.IsGrounded) {bytes : ByteArray}
    (hread : files.read file.path = .ok bytes) (id : Msd.UploadId) (limits : List Nat)
    (replies : List Reply) :
    nextReply replies = .silence ∧
      c.upload id file files limits (.daemon replies) =
        ⟨c.interimReports id file.size bytes limits,
          [c.writeRequest file.name (c.sentData bytes limits)], .daemon replies.tail⟩ ∨
    c.upload id file files limits (.daemon replies) =
      ⟨c.interimReports id file.size bytes limits ++
          [.uploadFinished id (c.uploadEnd (nextReply replies)).1
            (c.uploadEnd (nextReply replies)).2],
        [c.writeRequest file.name (c.sentData bytes limits)], .daemon replies.tail⟩ := by
  cases replies with
  | nil =>
    right
    obtain ⟨url, hurl, -, -⟩ := exists_endpoint_eq hc isPlain_writePath
    have hhangUp : Reply.hangUp ≠ .silence := nofun
    have hsend := upload_eq hc hread id limits hhangUp []
    simp only [Client.upload, hurl, hread] at hsend ⊢
    exact hsend
  | cons reply later =>
    -- Silence has no end, and everything else has one.
    by_cases hreply : reply = .silence
    · rw [hreply]
      exact .inl ⟨rfl, upload_eq_of_silence hc hread id limits later⟩
    · exact .inr (upload_eq hc hread id limits hreply later)

/-! ## The request that counts -/

/-- The daemon got the request for the status and then another one, to which it replied with
    status 200. -/
def Accepted (c : Client) (network : Network) (requests : List Request) (post : Request) : Prop :=
  ∃ first body later, network = .daemon (first :: .response 200 body :: later) ∧
    requests = [c.statusRequest, post]

variable {network : Network} {requests : List Request} {post : Request}

/-- With fewer than two requests, no request of a change has been accepted. -/
private theorem not_accepted_of_length (h : requests.length < 2) :
    ¬ c.Accepted network requests post := by
  rintro ⟨first, body, later, -, hrequests⟩
  rw [hrequests] at h
  exact Nat.lt_irrefl 2 h

/-- Without a request nothing has been accepted. -/
theorem not_accepted_nil : ¬ c.Accepted network [] post :=
  not_accepted_of_length Nat.zero_lt_two

/-- A request is accepted if the second reply is a response with the status 200. -/
private theorem accepted_daemon_iff {replies : List Reply} :
    c.Accepted (.daemon replies) [c.statusRequest, post] post ↔
      ∃ body, nextReply replies.tail = .response 200 body := by
  simp only [nextReply_tail_eq_iff]
  constructor
  · rintro ⟨first, body, later, hnetwork, -⟩
    exact ⟨body, first, later, Network.daemon.inj hnetwork⟩
  · rintro ⟨body, first, later, hreplies⟩
    exact ⟨first, body, later, congrArg Network.daemon hreplies, rfl⟩

end Client

end Daemon

namespace Console

open Daemon (nextReply)

variable {i : Bool} {c : Console}

/-! ## Success -/

/-- Without a way to the daemon, no status comes back. -/
private theorem status_unreachable (hc : c.client.IsGrounded) :
    ∃ reason, c.client.status .unreachable = ⟨.error reason, [], .unreachable⟩ := by
  obtain ⟨url, hurl, -, -⟩ := Daemon.Client.exists_endpoint_eq hc Daemon.Client.isPlain_statusPath
  refine ⟨.http url.withoutUserinfo.text .unreachable, ?_⟩
  simp only [Daemon.Client.status, Daemon.Client.sendTo, hurl]
  rfl

/-- An operation that makes one request at most does not succeed, and has nothing accepted. -/
private theorem Operation.ComesTo.eq_ok_iff_of_early {operation : Operation Unit}
    {client : Daemon.Client}
    {network network' : Daemon.Network} {requests : List Daemon.Request} {shown : List String}
    {fault : Fault} (h : operation.ComesTo c ⟨.error fault, requests, network'⟩ shown)
    (hlength : requests.length < 2) {accepted : Prop}
    (haccepted : accepted → ∃ post, client.Accepted network operation.result.requests post) :
    operation.result.result = .ok () ↔ accepted := by
  rw [h.result] at haccepted ⊢
  refine iff_of_false nofun fun hyes => ?_
  obtain ⟨post, hpost⟩ := haccepted hyes
  exact Daemon.Client.not_accepted_of_length hlength hpost

/-- A command succeeds if its request is accepted, and under no other circumstances. -/
theorem command_eq_ok_iff (hc : c.Rested i) (command : Msd.Command) (network : Daemon.Network) :
    (c.command command network).result.result = .ok () ↔
      c.client.Accepted network (c.command command network).result.requests
        (c.client.commandRequest command) := by
  -- By how far the operation gets: no daemon, no status, no permission, or an answer to the
  -- command.
  cases network with
  | unreachable =>
    obtain ⟨reason, hstatus⟩ := status_unreachable hc.grounded
    have h := command_of_error hstatus command
    exact h.eq_ok_iff_of_early Nat.zero_lt_two fun haccepted => ⟨_, haccepted⟩
  | daemon replies =>
    obtain ⟨outcome, hstatus⟩ := Daemon.Client.status_daemon hc.grounded replies
    cases outcome with
    | error reason =>
      have h := command_of_error hstatus command
      exact h.eq_ok_iff_of_early Nat.one_lt_two fun haccepted => ⟨_, haccepted⟩
    | ok s =>
      by_cases hs : s.Allows command
      · have hend := Daemon.Client.command_daemon hc.grounded command replies.tail
        have h := command_of_allowed hc.toAtRest hstatus hs hend
        rw [h.result, List.singleton_append, Daemon.Client.accepted_daemon_iff, verdict_eq_ok_iff]
        exact Daemon.Client.endOf_fst_eq_iff
      · have h := command_of_disabled hc.toAtRest hstatus hs
        exact h.eq_ok_iff_of_early Nat.one_lt_two fun haccepted => ⟨_, haccepted⟩

/-- An image that fits is sent unless it cannot be read. -/
private theorem upload_eq_ok_iff_of_fits (hc : c.Rested i) {replies : List Daemon.Reply}
    {s : Msd.Status}
    (hstatus : c.client.status (.daemon replies) =
      ⟨.ok s, [c.client.statusRequest], .daemon replies.tail⟩)
    (hs : s.AllowsUpload) {file : Msd.ImageFile} (hfits : file.size ≤ s.info.size) {files : Files}
    (limits : List Nat) :
    (c.upload file files limits (.daemon replies)).result.result = .ok () ↔
      ∃ bytes, files.read file.path = .ok bytes ∧
        c.client.Accepted (.daemon replies)
          (c.upload file files limits (.daemon replies)).result.requests
          (c.client.writeRequest file.name (c.client.sentData bytes limits)) := by
  cases hread : files.read file.path with
  | error reason =>
    -- A file that cannot be read ends the upload before the daemon does.
    obtain ⟨body, hend⟩ := Daemon.Client.upload_of_unreadable hc.grounded hread
      ⟨c.panel.started + 1⟩ limits (.daemon replies.tail)
    have h := upload_of_end hc.toAtRest hstatus hs hfits hend
    rw [h.result]
    refine iff_of_false nofun ?_
    rintro ⟨bytes, hbytes, -⟩
    cases hbytes
  | ok bytes =>
    simp only [Except.ok.injEq, exists_eq_left']
    rcases Daemon.Client.upload_daemon hc.grounded hread ⟨c.panel.started + 1⟩ limits replies.tail
      with ⟨hsilence, hwaits⟩ | hend
    · -- A daemon that never answers has not accepted anything.
      have h := upload_of_noEnd hc.toAtRest hstatus hs hfits hwaits
      rw [h.result, List.singleton_append, Daemon.Client.accepted_daemon_iff, hsilence]
      refine iff_of_false nofun ?_
      rintro ⟨body, hresponse⟩
      cases hresponse
    · have h := upload_of_end hc.toAtRest hstatus hs hfits hend
      rw [h.result, List.singleton_append, Daemon.Client.accepted_daemon_iff, verdict_eq_ok_iff]
      exact Daemon.Client.endOf_fst_eq_iff

/-- An upload succeeds if its request is accepted, which carries all that can be read of the file,
    and under no other circumstances. -/
theorem upload_eq_ok_iff (hc : c.Rested i) (file : Msd.ImageFile) (files : Files)
    (limits : List Nat) (network : Daemon.Network) :
    (c.upload file files limits network).result.result = .ok () ↔
      ∃ bytes, files.read file.path = .ok bytes ∧
        c.client.Accepted network (c.upload file files limits network).result.requests
          (c.client.writeRequest file.name (c.client.sentData bytes limits)) := by
  cases network with
  | unreachable =>
    obtain ⟨reason, hstatus⟩ := status_unreachable hc.grounded
    have h := upload_of_error hstatus file files limits
    exact h.eq_ok_iff_of_early Nat.zero_lt_two fun ⟨_, _, haccepted⟩ => ⟨_, haccepted⟩
  -- Up to the size check, the operation ends early and without a second request.
  | daemon replies =>
    obtain ⟨outcome, hstatus⟩ := Daemon.Client.status_daemon hc.grounded replies
    cases outcome with
    | error reason =>
      have h := upload_of_error hstatus file files limits
      exact h.eq_ok_iff_of_early Nat.one_lt_two fun ⟨_, _, haccepted⟩ => ⟨_, haccepted⟩
    | ok s =>
      by_cases hs : s.AllowsUpload
      · by_cases hsize : s.info.size < file.size
        · have h := upload_of_tooBig hc.toAtRest hstatus hs hsize files limits
          exact h.eq_ok_iff_of_early Nat.one_lt_two fun ⟨_, _, haccepted⟩ => ⟨_, haccepted⟩
        · exact upload_eq_ok_iff_of_fits hc hstatus hs (UInt64.not_lt.mp hsize) limits
      · have h := upload_of_disabled hc.toAtRest hstatus hs file files limits
        exact h.eq_ok_iff_of_early Nat.one_lt_two fun ⟨_, _, haccepted⟩ => ⟨_, haccepted⟩

end Console

end KvmConsole
