import KvmConsole.Binary64.Arithmetic

/-!
# Positions in the capture region

Pointer positions come in page coordinates, together with the box of the capture region on the page.
They are kept as whole pixels relative to the region, and are put on the daemon's signed 16-bit
scale when they are sent.
-/

namespace KvmConsole.Pointer

/-- Whole pixels from the corner of the capture region. -/
structure Position where
  x : Int32
  y : Int32
  deriving DecidableEq, Repr, Inhabited

/-- The size of the capture region in pixels. -/
structure Viewport where
  width : Binary64
  height : Binary64
  deriving DecidableEq, Repr

/-- The box of the capture region in page coordinates. -/
structure Region where
  left : Binary64
  top : Binary64
  width : Binary64
  height : Binary64
  deriving DecidableEq, Repr

/-- A binary64 half. -/
def half : Binary64 := .finite false (1 / 2)

/-- Rounds halves up: the floor of the number plus a half. -/
def roundHalfUp (x : Binary64) : Binary64 := (x + half).floor

/-- The distance of a coordinate from an edge in whole pixels, as far as 32 bits reach. -/
def pixels (coordinate edge : Binary64) : Int32 :=
  Int32.ofInt ((roundHalfUp (coordinate - edge)).truncateInto (-2147483648) 2147483647)

namespace Region

/-- The place of a point of the page in the region. -/
def localPosition (r : Region) (x y : Binary64) : Position := ⟨pixels x r.left, pixels y r.top⟩

def viewport (r : Region) : Viewport := ⟨r.width, r.height⟩

end Region

/-- The lowest value of the daemon's scale. -/
def scaleMin : Int := -32768

/-- The highest value of the daemon's scale. -/
def scaleMax : Int := 32767

/-- Maps `[0, extent]` linearly onto the daemon's scale. What lies outside is moved to the nearer
    end, and an extent that is no positive number maps everything to the lower end. -/
def rescale (value : Int32) (extent : Binary64) : Int16 :=
  if extent.le 0 || !extent.isFinite then Int16.ofInt scaleMin
  else
    let low := Binary64.ofInt scaleMin
    let high := Binary64.ofInt scaleMax
    let share := Binary64.ofInt value.toInt / extent
    let scaled := roundHalfUp (share * (high - low) + low)
    Int16.ofInt ((scaled.clamp low high).truncateInto scaleMin scaleMax)

end KvmConsole.Pointer
