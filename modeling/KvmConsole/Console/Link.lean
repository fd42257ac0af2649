import KvmConsole.Console.Basic

/-!
# The control channel while it is followed

A reader takes in the frames that the daemon sends, and puts the events in them into a queue. The
console takes the events from there, one at a time and in turn with reports of the network and with
ticks. Nothing says which of them goes first: at any time the reader may go on, or the console may
take in whatever is there. So what happens is given by a list of choices. The console stops when it
finds the queue empty and the reader gone.
-/

namespace KvmConsole.Console

/-- The event in a frame: that of a text that can be read. -/
def frameEvent? : Daemon.Frame → Option Wire.DaemonEvent
  | .text text => (Wire.DaemonEvent.ofText text).toOption
  | _ => none

/-- A control channel as seen from the console. -/
structure Link where
  /-- What the daemon sends that has not been read. -/
  frames : List Daemon.Frame
  /-- The reader goes on reading. -/
  reading : Bool := true
  /-- The events that have not been taken in, the first one first. -/
  queue : List Wire.DaemonEvent := []
  deriving DecidableEq, Repr

/-- What may happen next. -/
inductive Choice where
  /-- The reader reads a frame, or finds that there are no more. -/
  | read
  /-- The console takes an event from the queue. -/
  | take
  /-- The network reports about an operation. -/
  | report (event : Msd.Event)
  | tick
  deriving DecidableEq, Repr

namespace Link

/-- Reads a frame. At the end of the channel the reader stops. -/
def readFrame (l : Link) : Link :=
  match l.frames with
  | [] => { l with reading := false }
  | frame :: rest =>
    if frame.isEnd then { l with frames := rest, reading := false }
    else { l with frames := rest, queue := l.queue ++ (frameEvent? frame).toList }

/-- One choice, and the inputs that it brings to the console. -/
def step (l : Link) : Choice → Turn Link Input Unit
  | .read => .idle (if l.reading then l.readFrame else l) ()
  | .take =>
    match l.queue with
    | [] => .idle l ()
    | event :: rest => ⟨{ l with queue := rest }, [.daemon event], ()⟩
  | .report event => ⟨l, [.network event], ()⟩
  | .tick => ⟨l, [.tick], ()⟩

/-- The reader has stopped, and all that it has read has been taken in. -/
def isOver (l : Link) : Bool := !l.reading && l.queue.isEmpty

end Link

end KvmConsole.Console
