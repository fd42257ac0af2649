import KvmConsole.Daemon.Failure
import KvmConsole.Daemon.Network
import KvmConsole.Daemon.Upload
import KvmConsole.Msd.Panel
import KvmConsole.Url.Parse
import KvmConsole.Wire.DaemonEvent
import KvmConsole.Wire.Envelope

/-!
# The daemon's client

A client knows the base of the daemon's addresses and the login. It asks for the status of the
device, sends commands and images, and opens the control channel. The headers with the login are
made once, when the client is, and go with every request but the one for the control channel, for
which they are made again. Commands and uploads have a response whatever its status; what a refusal
means is not decided here.
-/

namespace KvmConsole.Daemon

structure Client where
  /-- The base of all addresses. Its path ends in a slash. -/
  base : Url
  /-- The headers that go with every request, save the one for the control channel. -/
  headers : List (String × String)
  credentials : Option Credentials
  chunkSize : Nat
  deriving DecidableEq, Repr

namespace Client

/-! ## Making a client -/

/-- Adds a slash to a path that does not end in one. -/
def closePath : Url.Path → Url.Path
  | .segments list => .segments (if list.getLast? = some "" then list else list ++ [""])
  | .opaquePath text => .opaquePath text

/-- Reads the base of the daemon's addresses, so that relative ones lead below it. -/
def readBase (text : String) : Except Failure Url :=
  match Url.parse text with
  | .error e => .error (.invalidUrl (text ++ ": " ++ e.message))
  | .ok url =>
    if url.scheme = "http" ∨ url.scheme = "https" then .ok { url with path := closePath url.path }
    else .error (.invalidUrl (text ++ ": scheme must be http or https"))

/-- Whether a character may stand in a header: a tab, or no control. -/
def isHeaderChar (c : Char) : Bool := c = '\t' || 0x20 ≤ c.toNat && c.toNat ≠ 0x7f

/-- The value of a header, if the text can be one. -/
def headerValue (name text : String) : Except Failure String :=
  if text.toList.all isHeaderChar then .ok text else .error (.invalidHeader name)

/-- The headers of a login, the user first. Without a login there are none. -/
def loginHeaders : Option Credentials → Except Failure (List (String × String))
  | none => .ok []
  | some login =>
    (headerValue userHeader login.user).bind fun user =>
      (headerValue passwdHeader login.passwd).map fun passwd =>
        [(userHeader, user), (passwdHeader, passwd)]

/-- The client of some settings. -/
def ofSettings (s : Settings) : Except Failure Client :=
  match readBase s.daemonUrl with
  | .error e => .error e
  | .ok base =>
    (loginHeaders s.credentials).map fun headers =>
      ⟨base, headers, s.credentials, s.uploadChunkSize.toNat⟩

/-! ## Addresses -/

/-- The address of a path of the daemon. -/
def endpoint (c : Client) (path : String) : Except Failure Url :=
  match c.base.join path with
  | .ok url => .ok url
  | .error e => .error (.invalidUrl (path ++ ": " ++ e.message))

/-- The scheme of a control channel to an address of a scheme. -/
def channelScheme (scheme : String) : String := if scheme = "https" then "wss" else "ws"

def channelPath : String := "kvmd/ws"

/-- The address of the control channel. -/
def channelUrl (c : Client) : Except Failure Url :=
  match c.endpoint channelPath with
  | .error e => .error e
  | .ok url =>
    let scheme := channelScheme url.scheme
    match url.setScheme? scheme with
    | some url => .ok url
    | none => .error (.invalidUrl ("cannot use " ++ scheme ++ " with " ++ url.text))

def statusPath : String := "kvmd/msd"

def writePath : String := "kvmd/msd/write"

def commandPath : Msd.Command → String
  | .connect _ => "kvmd/msd/connect"
  | .reset => "kvmd/msd/reset"

/-- The query that goes with a command. -/
def commandQuery : Msd.Command → Option String
  | .connect target => some ("to=" ++ target.name)
  | .reset => none

/-! ## Requests -/

/-- A response of the daemon. -/
structure Response where
  status : UInt16
  body : String
  deriving DecidableEq, Repr

/-- What becomes of a request. -/
inductive Answer where
  | response (response : Response)
  | failed (reason : Failure)
  | never
  deriving DecidableEq, Repr

def request (c : Client) (method : Method) (url : Url) (payload : Payload) : Request :=
  ⟨method, url.target, c.headers, payload⟩

/-- Sends a request and waits for the answer. -/
def send (c : Client) (method : Method) (url : Url) (payload : Payload) (network : Network) :
    Exchange Answer :=
  let failed (reason : Breakdown) : Answer := .failed (.http url.withoutUserinfo.text reason)
  let requests := [c.request method url payload]
  match network.connect with
  | (none, network) => ⟨failed .unreachable, [], network⟩
  | (some (.response status body), network) => ⟨.response ⟨status, body⟩, requests, network⟩
  | (some .silence, network) => ⟨.never, requests, network⟩
  | (some .hangUp, network) => ⟨failed .hangUp, requests, network⟩
  | (some (.channel _ _), network) => ⟨failed .hangUp, requests, network⟩

/-- Sends a request to a path, with a query if there is one. -/
def sendTo (c : Client) (method : Method) (path : String) (query : Option String)
    (payload : Payload) (network : Network) : Exchange Answer :=
  match c.endpoint path with
  | .error e => ⟨.failed e, [], network⟩
  | .ok url => c.send method (if query.isSome then { url with query } else url) payload network

/-- The answer of a request that does not wait for ever. -/
def Answer.inTime (url : String) : Answer → Except Failure Response
  | .response r => .ok r
  | .failed e => .error e
  | .never => .error (.http url .timeout)

/-- The address of a path as failures name it. -/
def urlText (c : Client) (path : String) (query : Option String) : String :=
  match c.endpoint path with
  | .error _ => path
  | .ok url => (if query.isSome then { url with query } else url).withoutUserinfo.text

/-! ## The status -/

/-- The status in a response: the response has to be 200 and an envelope that is in order, around a
    status. -/
def statusOf (r : Response) : Except Failure Msd.Status :=
  if r.status ≠ 200 then .error (.badStatus r.status r.body)
  else
    match Wire.Envelope.anyOfText r.body with
    | .error e => .error (.undecodable e)
    | .ok envelope =>
      if !envelope.ok then .error (.badStatus r.status r.body)
      else (Msd.Status.ofJson envelope.result).mapError fun e => .undecodable (.mismatch e)

/-- Asks for the status of the device. -/
def status (c : Client) (network : Network) : Exchange (Except Failure Msd.Status) :=
  (c.sendTo .get statusPath none .nothing network).map fun answer =>
    (answer.inTime (c.urlText statusPath none)).bind statusOf

/-! ## Commands and uploads

Their ends are reported to the panel as events. A request without a response ends with status 0. -/

/-- The status and the body with which the panel hears of a response or a failure. -/
def outcome : Except Failure Response → UInt16 × String
  | .ok r => (r.status, r.body)
  | .error e => (0, e.message)

/-- Sends a command, and returns what is reported. -/
def command (c : Client) (command : Msd.Command) (network : Network) : Exchange (List Msd.Event) :=
  let path := commandPath command
  let query := commandQuery command
  (c.sendTo .post path query .nothing network).map fun answer =>
    let (status, body) := outcome (answer.inTime (c.urlText path query))
    [.commandFinished command status body]

/-- The events of the chunks of an image, one each. -/
def progressEvents (id : Msd.UploadId) (total : UInt64) (chunks : List (List UInt8)) :
    List Msd.Event :=
  (loadedAfter 0 chunks).map fun loaded =>
    .uploadProgress id (UInt64.ofNat loaded) (some total)

/-- Uploads an image, and returns what is reported. Without an end in it, the upload never ends. An
    image that cannot be opened makes no request. `limits` says how its reads come up short. -/
def upload (c : Client) (id : Msd.UploadId) (file : Msd.ImageFile) (files : Files)
    (limits : List Nat) (network : Network) : Exchange (List Msd.Event) :=
  match c.endpoint writePath, files.read file.path with
  | .error e, _ => ⟨[.uploadFinished id 0 e.message], [], network⟩
  | .ok _, .error reason =>
    ⟨[.uploadFinished id 0 (Failure.unreadable file.path reason).message], [], network⟩
  | .ok url, .ok bytes =>
    let chunks := Source.chunks ⟨bytes.toList, limits⟩ c.chunkSize
    let exchange := c.send .post url (.form ⟨file.name, chunks.flatten⟩) network
    let progress := progressEvents id file.size chunks
    exchange.map fun answer =>
      match answer with
      | .response r => progress ++ [.uploadFinished id r.status r.body]
      | .never => progress
      | .failed e =>
        match e with
        | .http _ .unreachable => [.uploadFinished id 0 e.message]
        | e => progress ++ [.uploadFinished id 0 e.message]

/-! ## The control channel -/

/-- The request for a control channel. The client's own headers do not go with it: those of the
    login are made once more, and each is added when its value has been checked. -/
def channelRequest (c : Client) : Except Failure Request :=
  match c.channelUrl with
  | .error e => .error e
  | .ok url =>
    let request : Request := ⟨.get, url.target, [], .channel []⟩
    match c.credentials with
    | none => .ok request
    | some login =>
      (headerValue userHeader login.user).bind fun user =>
        let request := request.withHeader userHeader user
        (headerValue passwdHeader login.passwd).map fun passwd =>
          request.withHeader passwdHeader passwd

/-- Opens the control channel: what the daemon does on it. Which frames it took of the console is
    added to its request when the channel has been closed. -/
def openChannel (c : Client) (network : Network) : Exchange (Except Failure (List Frame)) :=
  match c.channelRequest with
  | .error e => ⟨.error e, [], network⟩
  | .ok request =>
    let requests := [request]
    match network.connect with
    | (none, network) => ⟨.error (.channel .unreachable), [], network⟩
    | (some (.channel frames _), network) => ⟨.ok frames, requests, network⟩
    | (some (.response status _), network) =>
      ⟨.error (.channel (.refused status)), requests, network⟩
    | (some .hangUp, network) => ⟨.error (.channel .hangUp), requests, network⟩
    | (some .silence, network) => ⟨.error (.channel .hangUp), requests, network⟩

end Client

end KvmConsole.Daemon
