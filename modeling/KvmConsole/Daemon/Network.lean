import KvmConsole.Settings

/-!
# The network

The network as the console meets it: a daemon behind it that answers each connection in turn, or no
route at all. `Network.connect` makes one connection and says what comes of it.
-/

namespace KvmConsole.Daemon

/-- What the daemon does on a control channel. -/
inductive Frame where
  | text (text : String)
  | binary (text : String)
  | ping (text : String)
  | pong (text : String)
  /-- It closes the channel. -/
  | close
  /-- It waits for one frame of the console. -/
  | receive
  /-- The connection is lost, or what comes on it cannot be read. -/
  | hangUp
  deriving DecidableEq, Repr

/-- Nothing that comes after the frame is read. -/
def Frame.isEnd : Frame → Bool
  | close | hangUp => true
  | _ => false

/-- What the daemon does with a connection. -/
inductive Reply where
  | response (status : UInt16) (body : String)
  /-- It reads the request and then closes the connection. -/
  | hangUp
  /-- It never answers. -/
  | silence
  /-- It opens a control channel. After the last frame the channel is closed by the daemon, unless
      it `stays` open until the console closes it. -/
  | channel (frames : List Frame) (stays : Bool)
  deriving DecidableEq, Repr

/-- The network. A daemon that has run out of replies hangs up. -/
inductive Network where
  | unreachable
  | daemon (replies : List Reply)
  deriving DecidableEq, Repr

/-- Makes a connection: what the daemon does with it, or nothing if there is no way to it. -/
def Network.connect : Network → Option Reply × Network
  | unreachable => (none, unreachable)
  | daemon [] => (some .hangUp, daemon [])
  | daemon (reply :: rest) => (some reply, daemon rest)

inductive Method where
  | get
  | post
  deriving DecidableEq, Repr

def Method.name : Method → String
  | get => "GET"
  | post => "POST"

/-- The form in which an image is sent: its name and its bytes. -/
structure Form where
  name : String
  data : List UInt8
  deriving DecidableEq, Repr

/-- Puts a backslash before what must not stand in a quoted parameter. -/
def escapeParameter (s : String) : String :=
  String.ofList (s.toList.flatMap fun c =>
    if c = '\\' || c = '"' || c = '\r' || c = '\n' then ['\\', c] else [c])

/-- The disposition of the part with the name. -/
def Form.nameDisposition : String := "form-data; name=\"image_name\""

/-- The disposition of the part with the bytes. -/
def Form.dataDisposition (f : Form) : String :=
  "form-data; name=\"image_data\"; filename=\"" ++ escapeParameter f.name ++ "\""

/-- What a request carries. -/
inductive Payload where
  | nothing
  | form (form : Form)
  /-- It opened a control channel, on which the daemon took these frames. -/
  | channel (received : List String)
  deriving DecidableEq, Repr

/-- The header with the user of a login. -/
def userHeader : String := "x-kvmd-user"

/-- The header with the password of a login. -/
def passwdHeader : String := "x-kvmd-passwd"

/-- A request as the daemon got it. -/
structure Request where
  method : Method
  target : String
  /-- The headers that the console has added, in order. -/
  headers : List (String × String)
  payload : Payload
  deriving DecidableEq, Repr

namespace Request

/-- Adds a header. -/
def withHeader (r : Request) (name value : String) : Request :=
  { r with headers := r.headers ++ [(name, value)] }

/-- The login that a request bears in its headers. -/
def credentials (r : Request) : Option Credentials :=
  match r.headers.lookup userHeader, r.headers.lookup passwdHeader with
  | some user, some passwd => some ⟨user, passwd⟩
  | _, _ => none

end Request

/-- What dealing with the daemon comes to: a result, the requests that the daemon got, in order, and
    the network after it. -/
structure Exchange (α : Type) where
  result : α
  requests : List Request
  network : Network
  deriving DecidableEq, Repr

def Exchange.map {α β : Type} (f : α → β) (e : Exchange α) : Exchange β :=
  ⟨f e.result, e.requests, e.network⟩

end KvmConsole.Daemon
