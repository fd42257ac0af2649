/-!
# Input events

What the console sends to the daemon's input device.
-/

namespace KvmConsole.Pointer

inductive Button where
  | left
  | right
  deriving DecidableEq, Repr

namespace Button

def name : Button → String
  | left => "left"
  | right => "right"

def ofName? (name : String) : Option Button :=
  if name = "left" then some left else if name = "right" then some right else none

/-- The name of the constructor, as a log shows it. -/
def constructorText : Button → String
  | left => "Left"
  | right => "Right"

/-- The button that a page's button code stands for. The middle one and all others are not
    forwarded. -/
def ofCode? (code : Int16) : Option Button :=
  if code = 0 then some left else if code = 2 then some right else none

end Button

/-- An event of the daemon's input device. -/
inductive HidEvent where
  | mouseButton (button : Button) (pressed : Bool)
  /-- A position on the 16-bit scale. -/
  | mouseMove (x y : Int16)
  | mouseWheel (x y : Int8)
  deriving DecidableEq, Repr

namespace HidEvent

/-- The name of each kind of event. -/
def kindName : HidEvent → String
  | mouseButton _ _ => "mouse_button"
  | mouseMove _ _ => "mouse_move"
  | mouseWheel _ _ => "mouse_wheel"

def isMove : HidEvent → Bool
  | mouseMove _ _ => true
  | _ => false

/-- An event as a log shows it. -/
def constructorText : HidEvent → String
  | mouseButton button pressed =>
    "MouseButton \x7b button: " ++ button.constructorText ++ ", state: " ++
      (if pressed then "true" else "false") ++ " \x7d"
  | mouseMove x y =>
    "MouseMove \x7b to: Point16 \x7b x: " ++ toString x.toInt ++ ", y: " ++ toString y.toInt ++
      " \x7d \x7d"
  | mouseWheel x y =>
    "MouseWheel \x7b delta: WheelDelta \x7b x: " ++ toString x.toInt ++ ", y: " ++
      toString y.toInt ++ " \x7d \x7d"

end HidEvent

end KvmConsole.Pointer
