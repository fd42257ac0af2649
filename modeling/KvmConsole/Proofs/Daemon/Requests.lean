import KvmConsole.Daemon.Client
import KvmConsole.Proofs.Url.Below
import KvmConsole.Proofs.Wire.StatusRoundTrip

/-!
# Requests and replies

The requests of a client that was made from settings always reach the daemon: every path that it
asks for is an address below its base. What comes back depends on the daemon's reply alone.

Key results:
* `isGrounded_of_ofSettings`: the base of such a client ends in a slash.
* `sendTo_eq`: the request that the daemon gets, and the answer that its reply makes.
* `status_eq`: what a reply tells about the status, read off by `Tells`.
* `learns_okText`: a status is told by the text that the daemon writes for it.
* `command_eq`, `upload_eq`, `upload_eq_of_silence`: the request for a command or an upload, and
  what is reported about it.
-/

namespace KvmConsole.Daemon.Client

/-! ## Addresses below the base -/

/-- Paths of the daemon lead below the base of its client. -/
structure IsGrounded (c : Client) : Prop where
  special : Url.isSpecial c.base.scheme
  path : ∃ before, c.base.path = .segments (before ++ [""])

/-- A closed path ends in an empty segment. -/
theorem closePath_segments (list : List String) :
    ∃ before, closePath (.segments list) = .segments (before ++ [""]) := by
  by_cases h : list.getLast? = some ""
  · obtain ⟨before, rfl⟩ := List.getLast?_eq_some_iff.mp h
    exact ⟨before, by simp [closePath]⟩
  · exact ⟨list, by simp [closePath, h]⟩

/-- A base is an address of the web, with its path closed. -/
theorem exists_parse_of_readBase {text : String} {base : Url} (h : readBase text = .ok base) :
    ∃ url, Url.parse text = .ok url ∧ (url.scheme = "http" ∨ url.scheme = "https") ∧
      base = { url with path := closePath url.path } := by
  unfold readBase at h
  cases hparse : Url.parse text with
  | error e => simp [hparse] at h
  | ok url =>
    simp only [hparse] at h
    split at h
    · exact ⟨url, rfl, ‹_›, (Except.ok.inj h).symm⟩
    · cases h

/-- A client is made of settings with a base that can be read and a login that can be sent, if
    there is one. -/
theorem ofSettings_eq_ok_iff {s : Settings} {c : Client} :
    ofSettings s = .ok c ↔
      readBase s.daemonUrl = .ok c.base ∧ loginHeaders s.credentials = .ok c.headers ∧
        c.credentials = s.credentials ∧ c.chunkSize = s.uploadChunkSize.toNat := by
  obtain ⟨base, headers, credentials, chunkSize⟩ := c
  unfold ofSettings
  cases readBase s.daemonUrl with
  | error e => simp
  | ok base' =>
    cases loginHeaders s.credentials with
    | error e => simp [Except.map]
    | ok headers' => simp [Except.map, eq_comm]

/-- A client made of settings has a base that paths can be joined to. -/
theorem isGrounded_of_ofSettings {s : Settings} {c : Client} (h : ofSettings s = .ok c) :
    c.IsGrounded := by
  obtain ⟨hbase, -⟩ := ofSettings_eq_ok_iff.mp h
  obtain ⟨url, hparse, hscheme, hc⟩ := exists_parse_of_readBase hbase
  have hspecial : Url.isSpecial url.scheme := by
    rcases hscheme with h | h <;> rw [h] <;> decide
  -- An address of such a scheme has a path of segments, and that has been closed.
  obtain ⟨list, hlist⟩ := Url.path_of_parse hparse hspecial
  rw [hlist] at hc
  obtain ⟨before, hbefore⟩ := closePath_segments list
  rw [hbefore] at hc
  exact ⟨by rw [hc]; exact hspecial, before, by rw [hc]⟩

/-- The path of the status needs no encoding. -/
theorem isPlain_statusPath : Url.IsPlain statusPath ["kvmd", "msd"] := by
  constructor <;> decide

/-- The path of the uploads needs no encoding. -/
theorem isPlain_writePath : Url.IsPlain writePath ["kvmd", "msd", "write"] := by
  constructor <;> decide

/-- The path of the connections needs no encoding. -/
theorem isPlain_connectPath : Url.IsPlain "kvmd/msd/connect" ["kvmd", "msd", "connect"] := by
  constructor <;> decide

/-- The path of the resets needs no encoding. -/
theorem isPlain_resetPath : Url.IsPlain "kvmd/msd/reset" ["kvmd", "msd", "reset"] := by
  constructor <;> decide

/-- No path of a command needs encoding. -/
theorem exists_isPlain_commandPath (command : Msd.Command) :
    ∃ segments, Url.IsPlain (commandPath command) segments := by
  cases command with
  | connect => exact ⟨_, isPlain_connectPath⟩
  | reset => exact ⟨_, isPlain_resetPath⟩

/-- The address of a plain path is below the base. -/
theorem exists_endpoint_eq {c : Client} (hc : c.IsGrounded) {path : String}
    {segments : List String} (h : Url.IsPlain path segments) :
    ∃ url, c.endpoint path = .ok url ∧ url.path.text = c.base.path.text ++ path ∧
      url.query = none := by
  obtain ⟨before, hpath⟩ := hc.path
  refine ⟨{ c.base with path := .segments (before ++ segments), query := none, fragment := none },
    ?_, ?_, rfl⟩
  · simp only [endpoint, Url.join_of_isPlain hc.special hpath h]
  · rw [hpath]
    exact Url.text_segments_append before h

/-! ## What the daemon gets, and what comes back -/

/-- The target of a request to a path below the base, with a query if there is one. -/
def targetOf (c : Client) (path : String) (query : Option String) : String :=
  c.base.path.text ++ path ++ (query.map ("?" ++ ·)).getD ""

/-- The answer that a reply of the daemon makes to a request for an address. -/
def answerOf (address : String) : Reply → Answer
  | .response status body => .response ⟨status, body⟩
  | .silence => .never
  | .hangUp | .channel _ _ => .failed (.http address .hangUp)

/-- A request uses up one reply and is answered with it. -/
private theorem send_eq (c : Client) (method : Method) (url : Url) (payload : Payload)
    (reply : Reply)
    (later : List Reply) :
    c.send method url payload (.daemon (reply :: later)) =
      ⟨answerOf url.withoutUserinfo.text reply, [c.request method url payload],
        .daemon later⟩ := by
  cases reply <;> rfl

/-- A request to a plain path reaches the daemon, and its reply makes the answer. -/
theorem sendTo_eq {c : Client} (hc : c.IsGrounded) {path : String} {segments : List String}
    (h : Url.IsPlain path segments) (method : Method) (query : Option String) (payload : Payload)
    (reply : Reply) (later : List Reply) :
    c.sendTo method path query payload (.daemon (reply :: later)) =
      ⟨answerOf (c.urlText path query) reply,
        [⟨method, c.targetOf path query, c.headers, payload⟩], .daemon later⟩ := by
  obtain ⟨url, hurl, hpath, hquery⟩ := exists_endpoint_eq hc h
  simp only [sendTo, hurl, urlText, send_eq]
  -- A query comes behind the path; the address itself has none.
  cases query with
  | none =>
    simp [request, targetOf, Url.target, hpath, hquery]
  | some q =>
    simp [request, targetOf, Url.target, hpath]

/-! ## The status -/

/-- What a reply to a request for the status tells, in the order in which it is looked at: whether
    there is a response, its status, the envelope around the result, the word of the daemon on how
    it went, and the result. -/
inductive Tells (address : String) : Reply → Except Failure Msd.Status → Prop where
  | hungUp : Tells address .hangUp (.error (.http address .hangUp))
  | channel (frames : List Frame) (stays : Bool) :
    Tells address (.channel frames stays) (.error (.http address .hangUp))
  | silence : Tells address .silence (.error (.http address .timeout))
  | refused (status : UInt16) (body : String) (hstatus : status ≠ 200) :
    Tells address (.response status body) (.error (.badStatus status body))
  | garbled (body : String) (fault : Json.Fault)
      (hbody : Wire.Envelope.anyOfText body = .error fault) :
    Tells address (.response 200 body) (.error (.undecodable fault))
  /-- The daemon has not carried out the request. What it says of the result does not matter. -/
  | notOk (body : String) (result : Json)
      (hbody : Wire.Envelope.anyOfText body = .ok ⟨false, result⟩) :
    Tells address (.response 200 body) (.error (.badStatus 200 body))
  | misshapen (body : String) (result : Json) (mismatch : Json.Mismatch)
      (hbody : Wire.Envelope.anyOfText body = .ok ⟨true, result⟩)
      (hresult : Msd.Status.ofJson result = .error mismatch) :
    Tells address (.response 200 body) (.error (.undecodable (.mismatch mismatch)))
  | status (body : String) (result : Json) (s : Msd.Status)
      (hbody : Wire.Envelope.anyOfText body = .ok ⟨true, result⟩)
      (hresult : Msd.Status.ofJson result = .ok s) :
    Tells address (.response 200 body) (.ok s)

/-- What a reply tells is what the client reads. -/
private theorem Tells.eq_statusOf {address : String} {reply : Reply}
    {outcome : Except Failure Msd.Status}
    (h : Tells address reply outcome) :
    outcome = ((answerOf address reply).inTime address).bind statusOf := by
  cases h with
  | hungUp | channel | silence => rfl
  | refused status body hstatus =>
    simp [answerOf, Answer.inTime, Except.bind, statusOf, hstatus]
  | garbled body fault hbody | notOk body result hbody =>
    simp [answerOf, Answer.inTime, Except.bind, statusOf, hbody]
  | misshapen body result _ hbody hresult | status body result _ hbody hresult =>
    simp only [answerOf, Answer.inTime, Except.bind, statusOf, ne_eq, not_true_eq_false, if_false,
      hbody, Bool.not_true, Bool.false_eq_true, hresult]
    rfl

/-- A reply tells one thing only. -/
theorem Tells.unique {address : String} {reply : Reply} {first second : Except Failure Msd.Status}
    (h : Tells address reply first) (h' : Tells address reply second) : first = second :=
  h.eq_statusOf.trans h'.eq_statusOf.symm

/-- The request for the status. -/
def statusRequest (c : Client) : Request :=
  ⟨.get, c.base.path.text ++ "kvmd/msd", c.headers, .nothing⟩

/-- What the client reads of a response is what it tells. -/
private theorem tells_statusOf (address body : String) (status : UInt16) :
    Tells address (.response status body) (statusOf ⟨status, body⟩) := by
  unfold statusOf
  by_cases hstatus : status = 200
  · subst hstatus
    simp only [ne_eq, not_true_eq_false, if_false]
    -- The body must be an envelope that is marked as good, with a status in it.
    cases hbody : Wire.Envelope.anyOfText body with
    | error fault => exact .garbled body fault hbody
    | ok envelope =>
      obtain ⟨ok, result⟩ := envelope
      cases ok with
      | false => exact .notOk body result hbody
      | true =>
        simp only [Bool.not_true, Bool.false_eq_true, if_false]
        cases hresult : Msd.Status.ofJson result with
        | error mismatch => exact .misshapen body result mismatch hbody hresult
        | ok s => exact .status body result s hbody hresult
  · rw [if_pos hstatus]
    exact .refused status body hstatus

/-- What a client learns of the status from a reply. -/
abbrev Learns (c : Client) (reply : Reply) (outcome : Except Failure Msd.Status) : Prop :=
  Tells (c.urlText statusPath none) reply outcome

/-- Every reply tells something. -/
theorem exists_learns (c : Client) (reply : Reply) : ∃ outcome, c.Learns reply outcome := by
  cases reply with
  | response status body => exact ⟨_, tells_statusOf _ body status⟩
  | silence => exact ⟨_, .silence⟩
  | hangUp => exact ⟨_, .hungUp⟩
  | channel frames stays => exact ⟨_, .channel frames stays⟩

/-- A status is learned as the daemon has written it. -/
theorem learns_okText (c : Client) (s : Msd.Status) :
    c.Learns (.response 200 (Wire.Envelope.okText s.text)) (.ok s) := by
  rw [← s.statusOf_okText]
  exact tells_statusOf _ _ _

/-- A request for the status reaches the daemon. The outcome is what the reply tells. -/
theorem status_eq {c : Client} (hc : c.IsGrounded) {reply : Reply}
    {outcome : Except Failure Msd.Status} (h : c.Learns reply outcome) (later : List Reply) :
    c.status (.daemon (reply :: later)) = ⟨outcome, [c.statusRequest], .daemon later⟩ := by
  have hsend := sendTo_eq hc isPlain_statusPath .get none .nothing reply later
  have htarget : c.targetOf statusPath none = c.base.path.text ++ "kvmd/msd" := by
    simp [targetOf, statusPath]
  simp only [status, hsend, Exchange.map, htarget, statusRequest]
  rw [← h.eq_statusOf]

/-! ## Commands -/

/-- How a request that waits for a reply ended: with the status and the body of the response, or
    with status 0 and the reason why there was none. -/
def endOf (address : String) : Reply → UInt16 × String
  | .response status body => (status, body)
  | .silence => (0, (Failure.http address .timeout).message)
  | .hangUp | .channel _ _ => (0, (Failure.http address .hangUp).message)

/-- A request ends with status 200 if that is what the response has. -/
theorem endOf_fst_eq_iff {address : String} {reply : Reply} :
    (endOf address reply).1 = 200 ↔ ∃ body, reply = .response 200 body := by
  cases reply with
  | response status body =>
    constructor
    · intro h
      exact ⟨body, congrArg (Reply.response · body) h⟩
    · rintro ⟨body', h⟩
      exact (Reply.response.inj h).1
  | silence | hangUp | channel =>
    -- Without a response, the end has status 0.
    constructor
    · intro h
      exact absurd (show (0 : UInt16) = 200 from h) (by decide)
    · rintro ⟨body, h⟩
      cases h

/-- The end of an exchange is made of the reply. -/
private theorem outcome_answerOf (address : String) (reply : Reply) :
    outcome ((answerOf address reply).inTime address) = endOf address reply := by
  cases reply <;> rfl

/-- Where a command goes, below the base. -/
def commandTarget : Msd.Command → String
  | .connect .kvm => "kvmd/msd/connect?to=kvm"
  | .connect .server => "kvmd/msd/connect?to=server"
  | .reset => "kvmd/msd/reset"

/-- A command has its own place below the base. -/
private theorem targetOf_command (c : Client) (command : Msd.Command) :
    c.targetOf (commandPath command) (commandQuery command) =
      c.base.path.text ++ commandTarget command := by
  have htext : commandPath command ++ ((commandQuery command).map ("?" ++ ·)).getD "" =
      commandTarget command := by
    rcases command with (_ | _) | _ <;> decide
  rw [targetOf, String.append_assoc, htext]

/-- The request for a command. -/
def commandRequest (c : Client) (command : Msd.Command) : Request :=
  ⟨.post, c.base.path.text ++ commandTarget command, c.headers, .nothing⟩

/-- The end of a command as it is reported. -/
def commandEnd (c : Client) (command : Msd.Command) (reply : Reply) : UInt16 × String :=
  endOf (c.urlText (commandPath command) (commandQuery command)) reply

/-- Whatever the network does, one report is made about a command, and it is its end. -/
theorem exists_command_result (c : Client) (command : Msd.Command) (network : Network) :
    ∃ status body, (c.command command network).result = [.commandFinished command status body] :=
  ⟨_, _, rfl⟩

/-- A command reaches the daemon, and its end is made from the reply. -/
theorem command_eq {c : Client} (hc : c.IsGrounded) (command : Msd.Command) (reply : Reply)
    (later : List Reply) :
    c.command command (.daemon (reply :: later)) =
      ⟨[.commandFinished command (c.commandEnd command reply).1 (c.commandEnd command reply).2],
        [c.commandRequest command], .daemon later⟩ := by
  obtain ⟨segments, hplain⟩ := exists_isPlain_commandPath command
  have hsend := sendTo_eq hc hplain .post (commandQuery command) .nothing reply later
  simp only [Client.command, hsend, Exchange.map, outcome_answerOf, targetOf_command,
    commandRequest, commandEnd]

/-! ## Uploads -/

/-- The bytes of a file as they are handed over. -/
def sentData (c : Client) (bytes : ByteArray) (limits : List Nat) : List UInt8 :=
  (Source.chunks ⟨bytes.toList, limits⟩ c.chunkSize).flatten

/-- The request for an upload. -/
def writeRequest (c : Client) (name : String) (data : List UInt8) : Request :=
  ⟨.post, c.base.path.text ++ "kvmd/msd/write", c.headers, .form ⟨name, data⟩⟩

/-- What is reported about an upload while it lasts. -/
def interimReports (c : Client) (id : Msd.UploadId) (size : UInt64) (bytes : ByteArray)
    (limits : List Nat) : List Msd.Event :=
  progressEvents id size (Source.chunks ⟨bytes.toList, limits⟩ c.chunkSize)

/-- The end of an upload as it is reported. -/
def uploadEnd (c : Client) (reply : Reply) : UInt16 × String :=
  endOf (c.urlText writePath none) reply

/-- Whatever the network and the file do, the reports about an upload are progress, and then its
    end if there is one. -/
theorem exists_upload_result (c : Client) (id : Msd.UploadId) (file : Msd.ImageFile)
    (files : Files) (limits : List Nat) (network : Network) :
    ∃ chunks, ∃ last : Option (UInt16 × String),
      (c.upload id file files limits network).result =
        progressEvents id file.size chunks ++
          (last.map fun l => .uploadFinished id l.1 l.2).toList := by
  unfold Client.upload
  split
  · exact ⟨[], some (0, _), rfl⟩
  · exact ⟨[], some (0, _), rfl⟩
  · -- The file has been read: an answer, an interruption, or a failure of the exchange.
    rename_i url bytes _ _
    simp only [Exchange.map]
    split
    · rename_i r _
      exact ⟨_, some (r.status, r.body), rfl⟩
    · exact ⟨_, none, (List.append_nil _).symm⟩
    · rename_i e _
      split
      · exact ⟨[], some (0, _), rfl⟩
      · exact ⟨_, some (0, _), rfl⟩

/-- The request for an upload goes to an address below the base. -/
private theorem exists_endpoint_writePath {c : Client} (hc : c.IsGrounded) :
    ∃ url, c.endpoint writePath = .ok url ∧ c.urlText writePath none = url.withoutUserinfo.text ∧
      ∀ name data, c.request .post url (.form ⟨name, data⟩) = c.writeRequest name data := by
  obtain ⟨url, hurl, hpath, hquery⟩ := exists_endpoint_eq hc isPlain_writePath
  refine ⟨url, hurl, ?_, fun name data => ?_⟩
  · simp only [urlText, hurl, Option.isSome_none, Bool.false_eq_true, if_false]
  · simp [request, writeRequest, Url.target, hpath, hquery, writePath]

/-- An upload of a readable file reaches the daemon, and ends as the reply says. -/
theorem upload_eq {c : Client} (hc : c.IsGrounded) {file : Msd.ImageFile} {files : Files}
    {bytes : ByteArray} (hread : files.read file.path = .ok bytes) (id : Msd.UploadId)
    (limits : List Nat) {reply : Reply} (hreply : reply ≠ .silence) (later : List Reply) :
    c.upload id file files limits (.daemon (reply :: later)) =
      ⟨c.interimReports id file.size bytes limits ++
          [.uploadFinished id (c.uploadEnd reply).1 (c.uploadEnd reply).2],
        [c.writeRequest file.name (c.sentData bytes limits)], .daemon later⟩ := by
  obtain ⟨url, hurl, haddress, hwrite⟩ := exists_endpoint_writePath hc
  have hrequest := hwrite file.name (c.sentData bytes limits)
  unfold sentData at hrequest
  simp only [Client.upload, hurl, hread, send_eq, Exchange.map, hrequest, uploadEnd, haddress]
  -- Whatever the daemon does with the request, except nothing, ends the upload.
  cases reply with
  | silence => exact absurd rfl hreply
  | response status body => rfl
  | hangUp => rfl
  | channel frames stays => rfl

/-- Without a reply, the progress is all that is ever reported about an upload. -/
theorem upload_eq_of_silence {c : Client} (hc : c.IsGrounded) {file : Msd.ImageFile}
    {files : Files} {bytes : ByteArray} (hread : files.read file.path = .ok bytes)
    (id : Msd.UploadId) (limits : List Nat) (later : List Reply) :
    c.upload id file files limits (.daemon (.silence :: later)) =
      ⟨c.interimReports id file.size bytes limits,
        [c.writeRequest file.name (c.sentData bytes limits)], .daemon later⟩ := by
  obtain ⟨url, hurl, -, hwrite⟩ := exists_endpoint_writePath hc
  have hrequest := hwrite file.name (c.sentData bytes limits)
  unfold sentData at hrequest
  simp only [Client.upload, hurl, hread, send_eq, Exchange.map, hrequest]
  rfl

end KvmConsole.Daemon.Client
