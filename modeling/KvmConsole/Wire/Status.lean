import KvmConsole.Json.Shape
import KvmConsole.Json.Writer
import KvmConsole.Msd.Status

/-!
# Status messages

The JSON form of a mass storage status. The image may be left out or null where there is none; it is
always written.
-/

namespace KvmConsole.Msd

open Json (Shape Fields)

namespace Target

/-- The targets in the order in which messages list them. -/
def names : List String := [kvm.name, server.name]

def ofIndex (i : Fin names.length) : Target := if i.val = 0 then kvm else server

end Target

def Image.shape : Shape :=
  .record "MsdImage" <|
    .cons "name" .string false <|
    .cons "size" (.integer .unsigned64) false <|
    .cons "complete" .bool false .nil

def Image.ofValue (v : Image.shape.Value) : Image :=
  match (v : String × UInt64 × Bool × Unit) with
  | (name, size, complete, ()) => ⟨name, size, complete⟩

def Image.toJson (i : Image) : Json :=
  .object [("name", .string i.name), ("size", .number (.natural i.size)),
    ("complete", .bool i.complete)]

def Storage.shape : Shape :=
  .record "MsdInfo" <|
    .cons "size" (.integer .unsigned64) false <|
    .cons "image" (.optional Image.shape) true .nil

def Storage.ofValue (v : Storage.shape.Value) : Storage :=
  match (v : UInt64 × Option Image.shape.Value × Unit) with
  | (size, image, ()) => ⟨size, image.map Image.ofValue⟩

def Storage.toJson (s : Storage) : Json :=
  .object [("size", .number (.natural s.size)),
    ("image", match s.image with
      | some image => image.toJson
      | none => .null)]

namespace Status

def shape : Shape :=
  .record "MsdStatus" <|
    .cons "connected_to" (.choice Target.names) false <|
    .cons "busy" .bool false <|
    .cons "in_operate" .bool false <|
    .cons "info" Storage.shape false .nil

def ofValue (v : shape.Value) : Status :=
  match (v : Fin Target.names.length × Bool × Bool × Storage.shape.Value × Unit) with
  | (target, busy, inOperate, info, ()) => ⟨.ofIndex target, busy, inOperate, .ofValue info⟩

def toJson (s : Status) : Json :=
  .object [("connected_to", .string s.connectedTo.name), ("busy", .bool s.busy),
    ("in_operate", .bool s.inOperate), ("info", s.info.toJson)]

/-- The text of a status. -/
def text (s : Status) : String := s.toJson.write

/-- Reads a text as a status. -/
def ofText (text : String) : Except Json.Fault Status :=
  Json.readText (fun draft => (shape.read Json.depthLimit draft).map ofValue) text

/-- Reads a tree as a status. -/
def ofJson (json : Json) : Except Json.Mismatch Status :=
  (shape.ofJson .collapsed json).map ofValue

end Status

end KvmConsole.Msd
