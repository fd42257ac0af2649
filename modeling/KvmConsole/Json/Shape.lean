import KvmConsole.Json.Draft

/-!
# Shapes of messages

A `Shape` says what a message looks like: its fields, in the order of declaration, and what each of
them holds. Two readers share the shapes:

* `Shape.read` reads a draft, front to back;
* `Shape.ofJson` reads a tree, which has been read before.

A record is read from an object, whose members may come in any order and among unknown ones, or from
an array of the fields in order. A name is read from a string, or from an object with that name
alone and the value null. The two readers differ in what they say about wrong shapes.
-/

namespace KvmConsole.Json

/-- The integers of a field. -/
inductive IntegerKind where
  | unsigned64
  | signed16
  | signed8
  deriving DecidableEq, Repr

namespace IntegerKind

abbrev Value : IntegerKind → Type
  | unsigned64 => UInt64
  | signed16 => Int16
  | signed8 => Int8

def name : IntegerKind → String
  | unsigned64 => "u64"
  | signed16 => "i16"
  | signed8 => "i8"

def ofInt? : (kind : IntegerKind) → Int → Option kind.Value
  | unsigned64, n => if 0 ≤ n ∧ n < 18446744073709551616 then some (UInt64.ofNat n.toNat) else none
  | signed16, n => if -32768 ≤ n ∧ n < 32768 then some (Int16.ofInt n) else none
  | signed8, n => if -128 ≤ n ∧ n < 128 then some (Int8.ofInt n) else none

/-- The integer that a number stands for, if it is one of this kind. -/
def ofNumber (kind : IntegerKind) (n : Number) : Except Mismatch kind.Value :=
  let integer : Option Int :=
    match n with
    | .natural n => some n.toNat
    | .negative n => some n.toInt
    | .float _ => none
  match integer with
  | none => .error (.invalidType n.found kind.name)
  | some i =>
    match kind.ofInt? i with
    | some v => .ok v
    | none => .error (.invalidValue n.found kind.name)

end IntegerKind

mutual

/-- What a value looks like. -/
inductive Shape where
  | bool
  | string
  | integer (kind : IntegerKind)
  /-- One of some names. -/
  | choice (names : List String)
  /-- A value or null. -/
  | optional (shape : Shape)
  | record (title : String) (fields : Fields)
  | anything

/-- The fields of a record. A field that may be left out is then null. -/
inductive Fields where
  | nil
  | cons (name : String) (shape : Shape) (mayBeLeftOut : Bool) (rest : Fields)

end

mutual

/-- The values of a shape. -/
def Shape.Value : Shape → Type
  | .bool => Bool
  | .string => String
  | .integer kind => kind.Value
  | .choice names => Fin names.length
  | .optional shape => Option shape.Value
  | .record _ fields => fields.Values
  | .anything => Json

/-- The values of some fields. -/
def Fields.Values : Fields → Type
  | .nil => Unit
  | .cons _ shape _ rest => shape.Value × rest.Values

end

/-- The values of the fields that have been read so far. -/
def Fields.Slots : Fields → Type
  | .nil => Unit
  | .cons _ shape _ rest => Option shape.Value × rest.Slots

def Fields.noSlots : (fields : Fields) → fields.Slots
  | .nil => ()
  | .cons _ _ _ rest => (none, rest.noSlots)

def Fields.length : Fields → Nat
  | .nil => 0
  | .cons _ _ _ rest => rest.length + 1

/-- What a shape reads null as. -/
def Shape.null? : (shape : Shape) → Option shape.Value
  | .optional _ => some none
  | .anything => some Json.null
  | .bool | .string | .integer _ | .choice _ | .record _ _ => none

/-- The value of a field that has been left out. -/
def Shape.leftOut? (shape : Shape) (mayBeLeftOut : Bool) : Option shape.Value :=
  if mayBeLeftOut then shape.null? else none

/-- The values of all fields, once the object has been read; the first one missing is reported. -/
def Fields.finish : (fields : Fields) → fields.Slots → Except Mismatch fields.Values
  | .nil, () => .ok ()
  | .cons name shape mayBeLeftOut rest, (slot, slots) =>
    match slot <|> shape.leftOut? mayBeLeftOut with
    | none => .error (.missingField name)
    | some v =>
      match rest.finish slots with
      | .error e => .error e
      | .ok vs => .ok (v, vs)

/-- A number of elements in words. -/
def elements (n : Nat) : String := toString n ++ if n = 1 then " element" else " elements"

/-- The position of a name in a choice. -/
def choose (names : List String) (name : String) : Except Mismatch (Fin names.length) :=
  match names.finIdxOf? name with
  | some i => .ok i
  | none => .error (.unknownVariant name names)

/-! ## Reading drafts -/

/-- The fault of a draft that is not of the expected kind: that of its text, if it has one. -/
def Draft.unexpected (expected : String) : Draft → Fault
  | .broken f => f
  | .scalar (.error f) _ => f
  | .scalar (.ok s) _ => .mismatch (.invalidType s.toJson.found expected)
  | .string (.error f) _ => f
  | .string (.ok s) _ => .mismatch (.invalidType (.string s) expected)
  | .array _ => .mismatch (.invalidType .sequence expected)
  | .object _ => .mismatch (.invalidType .map expected)

def Draft.readNull : Draft → Except Fault Unit
  | .scalar (.ok .null) _ => .ok ()
  | d => .error (d.unexpected "unit")

/-- The name of a variant. -/
def Draft.readVariant (names : List String) : Draft → Except Fault (Fin names.length)
  | .string (.ok s) _ => (choose names s).mapError .mismatch
  | d => .error (d.unexpected "variant identifier")

/-- One of some names. Anything but a string or an object with a single member is refused as if it
    were not grammatical. -/
def Draft.readChoice (names : List String) (room : Nat) : Draft → Except Fault (Fin names.length)
  | .broken f => .error f
  | .string strict lax => (Draft.string strict lax).readVariant names
  | .object members =>
    if room = 0 then .error .ungrammatical
    else
      match members with
      | .close => .error .ungrammatical
      | .broken _ f => .error f
      | .member name value rest => do
        let variant ← name.readVariant names
        value.readNull
        match rest with
        | .close => return variant
        | .broken false f => .error f
        | .broken true _ => .error .ungrammatical
        | .member _ _ _ => .error .ungrammatical
  | .scalar _ _ | .array _ => .error .ungrammatical

/-- The end of an array all of whose values have been taken. -/
def Items.finish : Items → Except Fault Unit
  | .close => .ok ()
  | .broken false f => .error f
  | .broken true _ => .error .ungrammatical
  | .item _ _ => .error .ungrammatical

/-- Hands the members of an object to `step`, one after the other. -/
def Members.fold {σ : Type} (step : String → Draft → σ → Except Fault σ) :
    Members → σ → Except Fault σ
  | .close, state => .ok state
  | .broken _ f, _ => .error f
  | .member name value rest, state =>
    match name with
    | .string (.ok name) _ =>
      match step name value state with
      | .error f => .error f
      | .ok state => rest.fold step state
    | .string (.error f) _ => .error f
    | _ => .error .ungrammatical

mutual

/-- Reads a value of a shape off a draft, with `room` for that many nested arrays and objects. -/
def Shape.read (room : Nat) : (shape : Shape) → Draft → Except Fault shape.Value
  | .bool, d =>
    match d with
    | .scalar (.ok (.bool b)) _ => .ok b
    | d => .error (d.unexpected "a boolean")
  | .string, d =>
    match d with
    | .string (.ok s) _ => .ok s
    | d => .error (d.unexpected "a string")
  | .integer kind, d =>
    match d with
    | .scalar (.ok (.number n)) _ => (kind.ofNumber n).mapError .mismatch
    | d => .error (d.unexpected kind.name)
  | .choice names, d => d.readChoice names room
  | .optional shape, d =>
    match d with
    | .scalar (.ok .null) _ => .ok none
    | d => (shape.read room d).map some
  | .record title fields, d =>
    match d, room with
    | .array _, 0 | .object _, 0 => .error .ungrammatical
    | .array items, room + 1 => fields.readItems title fields.length room 0 items
    | .object members, room + 1 =>
      match members.fold (fun name value slots => fields.readMember room name value slots)
        fields.noSlots with
      | .error f => .error f
      | .ok slots => (fields.finish slots).mapError .mismatch
    | d, _ => .error (d.unexpected ("struct " ++ title))
  | .anything, d => (d.toJson room).map Json.collapse

/-- Reads the fields of the record `title`, which has `total` of them, off an array of which `count`
    values have been taken. -/
def Fields.readItems (title : String) (total room count : Nat) :
    (fields : Fields) → Items → Except Fault fields.Values
  | .nil, items => items.finish
  | .cons _ shape mayBeLeftOut rest, items =>
    match items with
    | .item d items =>
      match shape.read room d with
      | .error f => .error f
      | .ok v => (rest.readItems title total room (count + 1) items).map fun vs => (v, vs)
    | .broken _ f => .error f
    | .close =>
      match shape.leftOut? mayBeLeftOut with
      | some v => (rest.readItems title total room (count + 1) .close).map fun vs => (v, vs)
      | none =>
        .error (.mismatch
          (.invalidLength count ("struct " ++ title ++ " with " ++ elements total)))

/-- Reads a member into the slot of its name. A name that came before is refused, and a member of an
    unknown name is skipped. -/
def Fields.readMember (room : Nat) (name : String) (value : Draft) :
    (fields : Fields) → fields.Slots → Except Fault fields.Slots
  | .nil, () =>
    match value.skip with
    | .error f => .error f
    | .ok () => .ok ()
  | .cons n shape _ rest, (slot, slots) =>
    if name = n then
      if slot.isSome then .error (.mismatch (.duplicateField name))
      else (shape.read room value).map fun v => (some v, slots)
    else (rest.readMember room name value slots).map fun slots => (slot, slots)

end

/-! ## Reading trees -/

/-- Where a tree comes from. -/
inductive TreeKind where
  /-- A tree of its own, with the members of each object collapsed. -/
  | collapsed
  /-- A part of a message that was put aside as it stands until its tag was known. -/
  | buffered
  deriving DecidableEq, Repr

namespace TreeKind

/-- What is said of an array of `length` values when `taken` of them were wanted. -/
def tooLong (kind : TreeKind) (length taken : Nat) : Mismatch :=
  match kind with
  | collapsed => .invalidLength length "fewer elements in array"
  | buffered => .invalidLength length (elements taken ++ " in sequence")

/-- The value null after a name. In a buffered message an empty object stands for it too. -/
def readNull (kind : TreeKind) : Json → Except Mismatch Unit
  | .null => .ok ()
  | .object [] =>
    match kind with
    | collapsed => .error (.invalidType .map "unit")
    | buffered => .ok ()
  | j => .error (.invalidType j.found "unit")

def readChoice (kind : TreeKind) (names : List String) : Json → Except Mismatch (Fin names.length)
  | .string s => choose names s
  | .object [(name, value)] => do
    let variant ← choose names name
    kind.readNull value
    return variant
  | .object _ => .error (.invalidValue .map "map with a single key")
  | j => .error (.invalidType j.found "string or map")

end TreeKind

/-- Reads a record off a tree. `title` is what a message calls the record and `total` the number of
    its fields; `ofItems` reads an array of the given length, `ofMember` one member of an object,
    from the state `start` on, and `finish` what the members have led to. -/
def readRecord {α σ : Type} (title : String) (total : Nat)
    (ofItems : String → Nat → List Json → Except Mismatch α)
    (start : σ) (ofMember : String → Json → σ → Except Mismatch σ)
    (finish : σ → Except Mismatch α) : Json → Except Mismatch α
  | .array items => ofItems (title ++ " with " ++ elements total) items.length items
  | .object members =>
    match members.foldlM (fun state m => ofMember m.1 m.2 state) start with
    | .error e => .error e
    | .ok state => finish state
  | j => .error (.invalidType j.found title)

mutual

/-- Reads a value of a shape off a tree. -/
def Shape.ofJson (kind : TreeKind) : (shape : Shape) → Json → Except Mismatch shape.Value
  | .bool, j =>
    match j with
    | .bool b => .ok b
    | j => .error (.invalidType j.found "a boolean")
  | .string, j =>
    match j with
    | .string s => .ok s
    | j => .error (.invalidType j.found "a string")
  | .integer integers, j =>
    match j with
    | .number n => integers.ofNumber n
    | j => .error (.invalidType j.found integers.name)
  | .choice names, j => kind.readChoice names j
  | .optional shape, j =>
    match j with
    | .null => .ok none
    | j => (shape.ofJson kind j).map some
  | .record title fields, j =>
    readRecord ("struct " ++ title) fields.length
      (fun expected length items => fields.ofItems kind expected length 0 items)
      fields.noSlots (fun name value slots => fields.ofMember kind name value slots)
      fields.finish j
  | .anything, j => .ok j

/-- Reads fields off the values of an array of `length`, of which `count` have been taken. -/
def Fields.ofItems (kind : TreeKind) (expected : String) (length count : Nat) :
    (fields : Fields) → List Json → Except Mismatch fields.Values
  | .nil, items => if items.isEmpty then .ok () else .error (kind.tooLong length count)
  | .cons _ shape mayBeLeftOut rest, items =>
    match items with
    | j :: items =>
      match shape.ofJson kind j with
      | .error e => .error e
      | .ok v => (rest.ofItems kind expected length (count + 1) items).map fun vs => (v, vs)
    | [] =>
      match shape.leftOut? mayBeLeftOut with
      | some v => (rest.ofItems kind expected length (count + 1) []).map fun vs => (v, vs)
      | none => .error (.invalidLength count expected)

/-- Reads a member into the slot of its name. -/
def Fields.ofMember (kind : TreeKind) (name : String) (value : Json) :
    (fields : Fields) → fields.Slots → Except Mismatch fields.Slots
  | .nil, () => .ok ()
  | .cons n shape _ rest, (slot, slots) =>
    if name = n then
      if slot.isSome then .error (.duplicateField name)
      else (shape.ofJson kind value).map fun v => (some v, slots)
    else (rest.ofMember kind name value slots).map fun slots => (slot, slots)

end

/-- Reads the fields of a record that a message calls `title` off a tree. -/
def Fields.ofRecord (kind : TreeKind) (title : String) (fields : Fields) :
    Json → Except Mismatch fields.Values :=
  readRecord title fields.length
    (fun expected length items => fields.ofItems kind expected length 0 items)
    fields.noSlots (fun name value slots => fields.ofMember kind name value slots)
    fields.finish

end KvmConsole.Json
