/-!
# Indicator colours

The lights of the mass storage and pointer panels, and the class names by which a page styles them.
-/

namespace KvmConsole

inductive Led where
  | gray
  | green
  | yellow
  /-- Blinks fast while an image is being written. -/
  | fastBlink
  deriving DecidableEq, Repr

namespace Led

def className : Led → String
  | gray => "led-gray"
  | green => "led-green"
  | yellow => "led-yellow"
  | fastBlink => "led-msd-writing"

/-- Every light with its name. -/
def all : List (String × Led) :=
  [("Gray", gray), ("Green", green), ("Yellow", yellow), ("FastBlink", fastBlink)]

end Led

end KvmConsole
