import KvmConsole.Pointer.Geometry
import KvmConsole.Pointer.HidEvent

/-!
# Coalescing moves and wheel steps

The tracker keeps the last position it was told of and the one it last gave out, so that any number
of moves becomes at most one event, and it adds up small wheel movements until they make a step. It
never sends anything itself.
-/

namespace KvmConsole.Pointer

/-- The sum of wheel movements at which a step is made. -/
def wheelThreshold : Binary64 := 100

structure Tracker where
  current : Position := ⟨0, 0⟩
  /-- The position that was last given out to be sent. -/
  lastSent : Position := ⟨0, 0⟩
  viewport : Viewport := ⟨0, 0⟩
  /-- Wheel movements that have not made a step yet. -/
  wheel : Binary64 := 0
  deriving DecidableEq, Repr

namespace Tracker

/-- Takes note of a position and of the size of the region it was measured in. -/
def observe (t : Tracker) (position : Position) (viewport : Viewport) : Tracker :=
  { t with current := position, viewport }

/-- The move to the current position. -/
def moveEvent (t : Tracker) : HidEvent :=
  .mouseMove (rescale t.current.x t.viewport.width) (rescale t.current.y t.viewport.height)

/-- The move to send, if the position is another one than last time. It counts as sent from then on,
    whether or not there is a channel for it. -/
def takeMove (t : Tracker) : Option HidEvent × Tracker :=
  if t.current = t.lastSent then (none, t)
  else (some t.moveEvent, { t with lastSent := t.current })

/-- Adds a vertical wheel movement. When the sum reaches the threshold there is a step in the
    opposite direction, and the sum starts anew. -/
def accumulateWheel (t : Tracker) (delta : Binary64) : Option HidEvent × Tracker :=
  let wheel := t.wheel + delta
  if wheel.abs.lt wheelThreshold then (none, { t with wheel })
  else (some (.mouseWheel 0 (if Binary64.lt 0 wheel then -5 else 5)), { t with wheel := 0 })

end Tracker

end KvmConsole.Pointer
