import KvmConsole.Daemon.StatusReason
import KvmConsole.Files
import KvmConsole.Json.Fault

/-!
# Failures of dealing with the daemon

What may go wrong between the console and the daemon, how it is put into words, and the chain of
causes behind it.
-/

namespace KvmConsole.Daemon

/-- Why a request got no response. -/
inductive Breakdown where
  | unreachable
  /-- The connection was closed before the response. -/
  | hangUp
  | timeout
  deriving DecidableEq, Repr

def unreachableMessage : String := "Network is unreachable (os error 101)"

/-- The causes of a request without a response, from the outside in. -/
def Breakdown.causes : Breakdown → List String
  | unreachable => ["client error (Connect)", "tcp connect error", unreachableMessage]
  | hangUp => ["client error (SendRequest)", "connection closed before message completed"]
  | timeout => ["operation timed out"]

/-- Why a control channel could not be opened. -/
inductive ChannelFault where
  | unreachable
  | hangUp
  /-- The daemon answered with an ordinary response. -/
  | refused (status : UInt16)
  deriving DecidableEq, Repr

/-- The causes of a control channel that could not be opened, from the outside in. -/
def ChannelFault.causes : ChannelFault → List String
  | unreachable => ["IO error: " ++ unreachableMessage, unreachableMessage]
  | hangUp => ["WebSocket protocol error: Handshake not finished", "Handshake not finished"]
  | refused status => ["HTTP error: " ++ statusText status]

def ChannelFault.message : ChannelFault → String
  | unreachable => "IO error: " ++ unreachableMessage
  | hangUp => "WebSocket protocol error: Handshake not finished"
  | refused status => "HTTP error: " ++ statusText status

inductive Failure where
  /-- A request to an address got no response. -/
  | http (url : String) (reason : Breakdown)
  | unreadable (path : String) (reason : ReadFailure)
  /-- The daemon refused a request. -/
  | badStatus (status : UInt16) (body : String)
  | invalidUrl (description : String)
  | undecodable (fault : Json.Fault)
  | invalidHeader (name : String)
  | channel (reason : ChannelFault)
  deriving DecidableEq, Repr

namespace Failure

def requestMessage (url : String) : String := "error sending request for url (" ++ url ++ ")"

/-- What is said of a response that cannot be decoded, with a description of what is wrong with
    it. -/
def undecodableMessage (description : String) : String :=
  "cannot decode daemon response: " ++ description

/-- The description of a fault in a text. The grammar is not described further. -/
def describe : Json.Fault → String
  | .truncated => "EOF"
  | .ungrammatical => "syntax error"
  | .mismatch reason => reason.message

def message : Failure → String
  | http url _ => "http error: " ++ requestMessage url
  | unreadable path reason => "cannot read " ++ path ++ ": " ++ reason.message
  | badStatus status body =>
    "daemon request failed: status=" ++ toString status.toNat ++ " body=" ++ body
  | invalidUrl description => "invalid daemon url: " ++ description
  | undecodable fault => undecodableMessage (describe fault)
  | invalidHeader name => name ++ " contains characters not allowed in a header"
  | channel reason => "websocket error: " ++ reason.message

/-- What lies behind the message, from the outside in. -/
def causes : Failure → List String
  | http url reason => requestMessage url :: reason.causes
  | unreadable _ reason => [reason.message]
  | undecodable fault => [describe fault]
  | channel reason => reason.causes
  | badStatus _ _ | invalidUrl _ | invalidHeader _ => []

end Failure

end KvmConsole.Daemon
