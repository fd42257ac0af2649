import KvmConsole.Console.Fault
import KvmConsole.Daemon.Client
import KvmConsole.Pointer.Forwarder

/-!
# The console

The console holds both panels and the daemon's client, and is the only one to touch them. Whatever
happens comes to it as an `Input`; `Console.react` passes it to the panel that it is about. Inputs
of different origins arrive in any order, and the panels share nothing. What the network reports
waits in a queue until the console takes it in.
-/

namespace KvmConsole

structure Console where
  client : Daemon.Client
  panel : Msd.Panel := {}
  forwarder : Pointer.Forwarder
  /-- The reports of the network that wait to be taken in, the first one first. -/
  reports : List Msd.Event := []
  deriving DecidableEq, Repr

namespace Console

/-- What the console does: what its panels do, and records of its own. -/
inductive Effect where
  | msd (effect : Msd.Effect)
  | pointer (effect : Pointer.Effect)
  | log (record : Log.Record)
  deriving DecidableEq, Repr

/-- What happens to the console while it follows the control channel. -/
inductive Input where
  /-- The daemon has pushed an event. -/
  | daemon (event : Wire.DaemonEvent)
  /-- The network reports about an operation. -/
  | network (event : Msd.Event)
  /-- It is time to send the position of the pointer. -/
  | tick
  deriving DecidableEq, Repr

/-- The console with some settings. -/
def ofSettings (s : Settings) : Except Daemon.Failure Console :=
  (Daemon.Client.ofSettings s).map fun client =>
    { client, forwarder := { touchCapture := s.touchCapture } }

/-- A record of the console's own work. -/
def note (level : Log.Level) (message : String) (fields : List (String × Log.Value)) : Effect :=
  .log ⟨level, "kvmd_web_console::infrastructure::shell", message, fields⟩

/-- Lets the mass storage panel take its turn. -/
def onPanel {α : Type} (c : Console) (turn : Msd.Panel → Turn Msd.Panel Msd.Effect α) :
    Turn Console Effect α :=
  let t := turn c.panel
  ⟨{ c with panel := t.state }, t.effects.map .msd, t.result⟩

/-- Lets the pointer forwarder take its turn. -/
def onPointer {α : Type} (c : Console)
    (turn : Pointer.Forwarder → Turn Pointer.Forwarder Pointer.Effect α) : Turn Console Effect α :=
  let t := turn c.forwarder
  ⟨{ c with forwarder := t.state }, t.effects.map .pointer, t.result⟩

/-- Takes in what the daemon has pushed. An event that is not known changes nothing. -/
def receive (c : Console) : Wire.DaemonEvent → Turn Console Effect Unit
  | .msdState status => c.onPanel (·.setStatus (some status))
  | .hidState ok => (c.onPointer (·.setDevice ok)).map fun _ => ()
  | .other name => ⟨c, [note .trace "ignoring daemon event" [("name", .plain name)]], ()⟩

/-- Takes in one input. Reports of the network have an outcome. -/
def react (c : Console) : Input → Turn Console Effect (Option Msd.Outcome)
  | .daemon event => (c.receive event).map fun _ => none
  | .network event => (c.onPanel (·.handle event)).map some
  | .tick => (c.onPointer (·.tick)).map fun _ => none

/-- Takes in a list of inputs, in order. The answers are the outcomes of what the network
    reported. -/
def follow (c : Console) : List Input → Turn Console Effect (List Msd.Outcome)
  | [] => .idle c []
  | input :: rest =>
    let turn := c.react input
    turn.andThen fun next => (next.follow rest).map (turn.result.toList ++ ·)

end Console

end KvmConsole
