import KvmConsole.Files
import KvmConsole.Toml.Document

/-!
# Settings

How the console reaches the daemon, and at which pace it works. Settings come from a TOML document
in which every field may be left out; unknown keys do no harm, a known one with a value of another
kind does.
-/

namespace KvmConsole

/-- The login that is sent with every request. -/
structure Credentials where
  user : String
  passwd : String
  deriving DecidableEq, Repr

structure Settings where
  /-- The base of all addresses of the daemon. -/
  daemonUrl : String := "http://127.0.0.1"
  user : Option String := none
  passwd : Option String := none
  /-- The period in which pointer moves are sent. -/
  moveIntervalMs : UInt64 := 100
  /-- The timeout of requests. Uploads have none. -/
  httpTimeoutSecs : UInt64 := 30
  /-- The size of the pieces in which an image is read. -/
  uploadChunkSize : UInt64 := 65536
  /-- The pointer counts as captured at all times. -/
  touchCapture : Bool := false
  /-- The log filter that is used unless the environment has one. -/
  logLevel : String := "info"
  deriving DecidableEq, Repr

namespace Settings

/-- The login, if a user is set. A password that is not set is empty. -/
def credentials (s : Settings) : Option Credentials :=
  s.user.map fun user => ⟨user, s.passwd.getD ""⟩

/-! ## Validity -/

/-- The smallest piece that the daemon takes. -/
def minChunkSize : UInt64 := 1024

/-- A value that cannot be used. -/
inductive Invalid where
  | chunkTooSmall (size : UInt64)
  | zeroMoveInterval
  deriving DecidableEq, Repr

def Invalid.message : Invalid → String
  | chunkTooSmall size =>
    "upload_chunk_size must be at least " ++ toString minChunkSize.toNat ++ " bytes, got " ++
      toString size.toNat
  | zeroMoveInterval => "move_interval_ms must be greater than zero"

/-- Looks for a value that cannot be used. The chunk size comes first. -/
def validate (s : Settings) : Except Invalid Unit :=
  if s.uploadChunkSize < minChunkSize then .error (.chunkTooSmall s.uploadChunkSize)
  else if s.moveIntervalMs = 0 then .error .zeroMoveInterval
  else .ok ()

/-! ## Reading -/

/-- Why a document gives no settings. -/
inductive Fault where
  | unreadable (path : String) (reason : ReadFailure)
  /-- It is no TOML, or a field has a value of the wrong kind. -/
  | malformed
  | invalid (reason : Invalid)
  deriving DecidableEq, Repr

def Fault.message : Fault → String
  | unreadable path reason => "I/O error accessing config at " ++ path ++ ": " ++ reason.message
  | malformed => "failed to parse config TOML"
  | invalid reason => reason.message

/-- What lies behind the message. -/
def Fault.causes : Fault → List String
  | unreadable _ reason => [reason.message]
  | malformed | invalid _ => []

def text? : Toml.Node → Option String
  | .string s => some s
  | _ => none

def flag? : Toml.Node → Option Bool
  | .boolean b => some b
  | _ => none

/-- A number that is not negative. -/
def natural? : Toml.Node → Option UInt64
  | .integer n => if 0 ≤ n then some (UInt64.ofNat n.toNat) else none
  | _ => none

/-- The value of a field, or its default if it has been left out. -/
def field {α : Type} (table : Toml.Entries) (read : Toml.Node → Option α) (name : String)
    (default : α) : Option α :=
  match table.lookup name with
  | none => some default
  | some node => read node

def ofTable (table : Toml.Entries) : Option Settings := do
  let d : Settings := {}
  return {
    daemonUrl := ← field table text? "daemon_url" d.daemonUrl
    user := ← field table (fun n => (text? n).map some) "user" d.user
    passwd := ← field table (fun n => (text? n).map some) "passwd" d.passwd
    moveIntervalMs := ← field table natural? "move_interval_ms" d.moveIntervalMs
    httpTimeoutSecs := ← field table natural? "http_timeout_secs" d.httpTimeoutSecs
    uploadChunkSize := ← field table natural? "upload_chunk_size" d.uploadChunkSize
    touchCapture := ← field table flag? "touch_capture" d.touchCapture
    logLevel := ← field table text? "log_level" d.logLevel }

/-- Reads the text of a document. -/
def ofText (text : String) : Except Fault Settings :=
  match (Toml.parse text).bind ofTable with
  | none => .error .malformed
  | some s =>
    match s.validate with
    | .error reason => .error (.invalid reason)
    | .ok () => .ok s

/-- Reads the document at a path. -/
def load (files : Files) (path : String) : Except Fault Settings :=
  match files.readText path with
  | .error reason => .error (.unreadable path reason)
  | .ok text => ofText text

end Settings

end KvmConsole
