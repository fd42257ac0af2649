import KvmConsole.Log.Record
import KvmConsole.Pointer.Indicator
import KvmConsole.Pointer.Tracker
import KvmConsole.Turn

/-!
# Forwarding pointer input

Moves are not sent as they happen: the forwarder takes note of the position, and a periodic tick
sends it if it has changed. Buttons and touches send it first, so that a click lands where the
pointer is. What happens while there is no channel is not sent later.
-/

namespace KvmConsole.Pointer

/-- The state of the control channel that events are sent on. -/
inductive Channel where
  | accepting
  /-- Refuses every event. -/
  | closed
  deriving DecidableEq, Repr

/-- What the pointer panel shows. -/
structure View where
  /-- The capture region takes input: there is a channel. -/
  captureActive : Bool
  indicator : Indicator
  deriving DecidableEq, Repr

inductive Effect where
  | render (view : View)
  /-- The channel has taken the event. -/
  | sent (event : HidEvent)
  | refused (event : HidEvent)
  | log (record : Log.Record)
  deriving DecidableEq, Repr

/-- What a page is to do with the event that it has passed on. -/
inductive Response where
  | none
  /-- Suppresses scrolling, menus and the selection of text. -/
  | preventDefault
  deriving DecidableEq, Repr

structure Forwarder where
  channel : Option Channel := .none
  deviceOk : Bool := true
  hovered : Bool := false
  /-- The pointer counts as captured even when it does not hover, as on touch devices. -/
  touchCapture : Bool
  tracker : Tracker := {}
  deriving DecidableEq, Repr

namespace Forwarder

/-- A record of the forwarder's own work. -/
def note (level : Log.Level) (message : String) (fields : List (String × Log.Value)) : Effect :=
  .log ⟨level, "kvmd_web_console::application::pointer_controller", message, fields⟩

def captured (f : Forwarder) : Bool := f.hovered || f.touchCapture

/-- The panel as it would be rendered now. -/
def view (f : Forwarder) : View :=
  ⟨f.channel.isSome, .derive f.channel.isSome f.deviceOk f.captured⟩

/-- Goes over to `f` and shows it, after some other effects. -/
def shown (f : Forwarder) (first : List Effect) : Turn Forwarder Effect Response :=
  ⟨f, first ++ [.render f.view], .none⟩

/-- Takes over a channel, or loses it. -/
def setChannel (f : Forwarder) (channel : Option Channel) : Turn Forwarder Effect Response :=
  { f with channel }.shown
    [note .debug "pointer channel changed" [("present", .flag channel.isSome)]]

/-- Takes note of the health of the remote device. -/
def setDevice (f : Forwarder) (ok : Bool) : Turn Forwarder Effect Response :=
  { f with deviceOk := ok }.shown []

/-- The pointer has entered or left the region. -/
def hover (f : Forwarder) (on : Bool) : Turn Forwarder Effect Response :=
  { f with hovered := on }.shown []

/-- What becomes of an event on a channel. -/
def sending (channel : Option Channel) (event : HidEvent) : List Effect :=
  match channel with
  | none => []
  | some .accepting => [.sent event]
  | some .closed =>
    [.refused event,
      note .warn ("dropping " ++ event.constructorText ++ ": control channel is closed") []]

/-- Goes over to a tracker and sends the event that it gave out, if any. -/
def send (f : Forwarder) : Option HidEvent × Tracker → Turn Forwarder Effect Response
  | (event, tracker) => ⟨{ f with tracker }, event.toList.flatMap (sending f.channel), .none⟩

/-- Takes note of a position. Nothing is sent before the next tick. -/
def move (f : Forwarder) (x y : Binary64) (region : Region) : Turn Forwarder Effect Response :=
  .idle { f with tracker := f.tracker.observe (region.localPosition x y) region.viewport } .none

/-- Sends the position if it has changed. -/
def tick (f : Forwarder) : Turn Forwarder Effect Response := f.send f.tracker.takeMove

/-- Takes note of the first point of a touch and sends it at once. -/
def touch (f : Forwarder) (x y : Binary64) (region : Region) : Turn Forwarder Effect Response :=
  (f.move x y region).andThen tick

/-- Sends the position if it has changed, and then the button. -/
def sendButton (f : Forwarder) (button : Button) (pressed : Bool) :
    Turn Forwarder Effect Response :=
  f.tick.andThen fun f => ⟨f, sending f.channel (.mouseButton button pressed), .none⟩

/-- A button of the page was pressed or released. -/
def button (f : Forwarder) (code : Int16) (pressed : Bool) : Turn Forwarder Effect Response :=
  match Button.ofCode? code with
  | some button => (f.sendButton button pressed).map fun _ => .preventDefault
  | none =>
    ⟨f, [note .trace "ignoring unmapped mouse button" [("code", .integer code.toInt)]],
      .preventDefault⟩

def contextMenu (f : Forwarder) : Turn Forwarder Effect Response := .idle f .preventDefault

/-- The wheel was turned. Only the vertical movement is forwarded. -/
def wheel (f : Forwarder) (_dx dy : Binary64) : Turn Forwarder Effect Response :=
  (f.send (f.tracker.accumulateWheel dy)).map fun _ => .preventDefault

end Forwarder

/-! ## Sessions -/

/-- Anything that can happen to a forwarder. -/
inductive Step where
  | setChannel (channel : Option Channel)
  | setDevice (ok : Bool)
  | hover (on : Bool)
  | button (code : Int16) (pressed : Bool)
  | contextMenu
  | move (x y : Binary64) (region : Region)
  | touch (x y : Binary64) (region : Region)
  | tick
  | sendButton (button : Button) (pressed : Bool)
  | wheel (dx dy : Binary64)
  deriving DecidableEq, Repr

namespace Forwarder

def step (f : Forwarder) : Step → Turn Forwarder Effect Response
  | .setChannel channel => f.setChannel channel
  | .setDevice ok => f.setDevice ok
  | .hover on => f.hover on
  | .button code pressed => f.button code pressed
  | .contextMenu => f.contextMenu
  | .move x y region => f.move x y region
  | .touch x y region => f.touch x y region
  | .tick => f.tick
  | .sendButton button pressed => f.sendButton button pressed
  | .wheel dx dy => f.wheel dx dy

/-- The turns of a session that begins with a fresh forwarder. -/
def session (touchCapture : Bool) (steps : List Step) : List (Turn Forwarder Effect Response) :=
  Turn.run step { touchCapture } steps

end Forwarder

end KvmConsole.Pointer
