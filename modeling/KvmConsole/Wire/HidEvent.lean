import KvmConsole.Json.Shape
import KvmConsole.Json.Writer
import KvmConsole.Pointer.HidEvent

/-!
# Input events on the wire

An input event is an object that names its kind in the member `event_type`. Reading one back puts
everything else aside until the kind is known: the tag may come after the fields. In an array the
tag comes first, and the fields follow in order.
-/

namespace KvmConsole.Pointer

open Json (Draft Items Members Shape Fields Fault Mismatch)

namespace Button

/-- The buttons in the order in which messages list them. -/
def names : List String := [left.name, right.name]

def ofIndex (i : Fin names.length) : Button := if i.val = 0 then left else right

end Button

namespace HidEvent

/-- The name of the member that holds the kind of the event. -/
def tagName : String := "event_type"

/-- The kinds in the order in which messages list them. -/
def kindNames : List String := ["mouse_button", "mouse_move", "mouse_wheel"]

def pointShape : Shape :=
  .record "Point16" <|
    .cons "x" (.integer .signed16) false <|
    .cons "y" (.integer .signed16) false .nil

def deltaShape : Shape :=
  .record "WheelDelta" <|
    .cons "x" (.integer .signed8) false <|
    .cons "y" (.integer .signed8) false .nil

def buttonFields : Fields :=
  .cons "button" (.choice Button.names) false <|
  .cons "state" .bool false .nil

def moveFields : Fields := .cons "to" pointShape false .nil

def wheelFields : Fields := .cons "delta" deltaShape false .nil

/-! ## Writing -/

def coordinate (n : Int) : Json :=
  if 0 ≤ n then .number (.natural (UInt64.ofNat n.toNat)) else .number (.negative (Int64.ofInt n))

def pair (x y : Int) : Json := .object [("x", coordinate x), ("y", coordinate y)]

/-- The members of an event after its tag. -/
def body : HidEvent → List (String × Json)
  | mouseButton button pressed => [("button", .string button.name), ("state", .bool pressed)]
  | mouseMove x y => [("to", pair x.toInt y.toInt)]
  | mouseWheel x y => [("delta", pair x.toInt y.toInt)]

def toJson (e : HidEvent) : Json := .object ((tagName, .string e.kindName) :: e.body)

/-- The text frame of an event. -/
def text (e : HidEvent) : String := e.toJson.write

/-! ## Reading -/

/-- Reads the fields of an event of a kind, given by its place in `kindNames`. -/
def ofBody (kind : Fin kindNames.length) (fields : Json) : Except Mismatch HidEvent :=
  if kind.val = 0 then do
    let v ← buttonFields.ofRecord .buffered "struct variant HidEvent::MouseButton" fields
    match (v : Fin Button.names.length × Bool × Unit) with
    | (button, pressed, ()) => return mouseButton (.ofIndex button) pressed
  else if kind.val = 1 then do
    let v ← moveFields.ofRecord .buffered "struct variant HidEvent::MouseMove" fields
    match (v : (Int16 × Int16 × Unit) × Unit) with
    | ((x, y, ()), ()) => return mouseMove x y
  else do
    let v ← wheelFields.ofRecord .buffered "struct variant HidEvent::MouseWheel" fields
    match (v : (Int8 × Int8 × Unit) × Unit) with
    | ((x, y, ()), ()) => return mouseWheel x y

/-- Takes in a member: the tag, once, or a field to put aside. Fields are kept last first. -/
def collectMember (room : Nat) (name : String) (value : Draft) :
    Option (Fin kindNames.length) × List (String × Json) →
      Except Fault (Option (Fin kindNames.length) × List (String × Json))
  | (tag, fields) =>
    if name = tagName then
      if tag.isSome then .error (.mismatch (.duplicateField tagName))
      else (value.readVariant kindNames).map fun kind => (some kind, fields)
    else (value.toJson room).map fun value => (tag, (name, value) :: fields)

/-- What an input event is called in messages. -/
def expectation : String := "internally tagged enum HidEvent"

/-- Reads a draft: its tag, and all else put aside. -/
def collect (room : Nat) : Draft → Except Fault (Fin kindNames.length × Json)
  | .object members =>
    match room with
    | 0 => .error .ungrammatical
    | room + 1 => do
      let (tag, fields) ← members.fold (collectMember room) (none, [])
      match tag with
      | some kind => return (kind, .object fields.reverse)
      | none => .error (.mismatch (.missingField tagName))
  | .array items =>
    match room, items with
    | 0, _ => .error .ungrammatical
    | _ + 1, .close => .error (.mismatch (.missingField tagName))
    | _ + 1, .broken _ f => .error f
    | room + 1, .item tag rest => do
      let kind ← tag.readVariant kindNames
      return (kind, .array (← rest.toJson room))
  | d => .error (d.unexpected expectation)

/-- Reads the text of an input event. -/
def ofText (text : String) : Except Fault HidEvent :=
  Json.readText
    (fun draft => do
      let (kind, fields) ← collect Json.depthLimit draft
      (ofBody kind fields).mapError .mismatch)
    text

end HidEvent

end KvmConsole.Pointer
