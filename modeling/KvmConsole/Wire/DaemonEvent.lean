import KvmConsole.Wire.Status

/-!
# Events of the daemon

The daemon pushes each change of state as an object with the name of the event and a body. Two
events are understood here; of all others only the name is kept, whatever their body.
-/

namespace KvmConsole.Wire

open Json (Shape Fields)

/-- A change of state that the daemon reports. -/
inductive DaemonEvent where
  | msdState (status : Msd.Status)
  /-- The health of the remote input device. -/
  | hidState (ok : Bool)
  | other (name : String)
  deriving DecidableEq, Repr

namespace DaemonEvent

/-- Any event: its name, and a body that may be left out. -/
def shape : Shape :=
  .record "RawEvent" <|
    .cons "event_type" .string false <|
    .cons "event" .anything true .nil

def hidShape : Shape := .record "HidState" (.cons "ok" .bool false .nil)

def hidOfValue (v : hidShape.Value) : Bool :=
  match (v : Bool × Unit) with
  | (ok, ()) => ok

/-- The text of the health of the input device. -/
def hidText (ok : Bool) : String := (Json.object [("ok", .bool ok)]).write

/-- The event of a name and a body. -/
def ofBody (name : String) (body : Json) : Except Json.Mismatch DaemonEvent :=
  if name = "msd_state" then (Msd.Status.ofJson body).map msdState
  else if name = "hid_state" then
    (hidShape.ofJson .collapsed body).map fun v => hidState (hidOfValue v)
  else .ok (other name)

/-- Reads the text of an event: first the whole text, then the body. -/
def ofText (text : String) : Except Json.Fault DaemonEvent := do
  let raw ← Json.readText (shape.read Json.depthLimit) text
  match (raw : String × Json × Unit) with
  | (name, body, ()) => (ofBody name body).mapError .mismatch

/-- What is said of a text that is no event, with a description of what is wrong with it. -/
def malformedMessage (description : String) : String :=
  "malformed daemon event: " ++ description

end DaemonEvent

end KvmConsole.Wire
