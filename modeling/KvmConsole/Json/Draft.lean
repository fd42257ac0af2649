import KvmConsole.Json.Numeral
import KvmConsole.Json.Text

/-!
# Drafts of JSON texts

A draft is the tree of a text as far as the text can be read. Where reading stops, because the text
ends or breaks the grammar, the draft holds the fault instead of a value, and nothing follows it. A
reader that walks a draft from front to back therefore meets the first problem of the text first, be
it a fault of the text or a value of the wrong shape.

A leaf is kept in two readings. The strict one decodes it. The lax one only asks where it ends, for
values that are skipped: there a number may exceed every range and a string may spell a lone
surrogate.

`Draft.read` reads the draft at the front of a text. It returns the text after it, unless the draft
is incomplete.
-/

namespace KvmConsole.Json

/-- A value without parts, strings apart. -/
inductive Scalar where
  | null
  | bool (value : Bool)
  | number (value : Number)
  deriving DecidableEq, Repr

mutual

/-- A JSON value as far as its text can be read. -/
inductive Draft where
  /-- No value starts here, or the text before it is at fault. -/
  | broken (fault : Fault)
  | scalar (strict : Except Fault Scalar) (lax : Except Fault Unit)
  | string (strict : Except Fault String) (lax : Except Fault Unit)
  | array (items : Items)
  | object (members : Members)

/-- The values of an array. -/
inductive Items where
  | close
  /-- The array is not closed. It matters to some readers whether a comma came last. -/
  | broken (afterComma : Bool) (fault : Fault)
  | item (value : Draft) (rest : Items)

/-- The members of an object. A name that is not a string is the last thing in an object. -/
inductive Members where
  | close
  | broken (afterComma : Bool) (fault : Fault)
  | member (name : Draft) (value : Draft) (rest : Members)

end

/-- The letters of a word, and the text after them. -/
def readLetters : List Char → List Char → Except Fault (List Char)
  | [], s => .ok s
  | _ :: _, [] => .error .truncated
  | w :: word, c :: s => if w = c then readLetters word s else .error .ungrammatical

theorem length_of_readLetters {word s rest : List Char} (h : readLetters word s = .ok rest) :
    rest.length ≤ s.length := by
  fun_induction readLetters word s with
  | case1 =>
    simp only [Except.ok.injEq] at h
    subst h
    exact Nat.le_refl _
  | case2 => exact nomatch h
  | case3 w word s ih =>
    have := ih h
    simp only [List.length_cons]; omega
  | case4 => exact nomatch h

theorem length_lt_of_readLetters {word s rest : List Char} (c : Char)
    (h : readLetters word s = .ok rest) : rest.length < (c :: s).length :=
  Nat.lt_succ_of_le (length_of_readLetters h)

/-- A piece of a text that is shorter than `s`. -/
abbrev Shorter (s : List Char) := {rest : List Char // rest.length < s.length}

/-- The word `value` at the front of a text, of which the first letter has been seen. -/
def Draft.readWord (value : Scalar) (letters : List Char) (c : Char) (s : List Char) :
    Draft × Option (Shorter (c :: s)) :=
  match h : readLetters letters s with
  | .error f => (.scalar (.error f) (.error f), none)
  | .ok rest =>
    (.scalar (.ok value) (.ok ()),
      some ⟨rest, length_lt_of_readLetters c h⟩)

/-- The number at the front of a text. Skipping takes every incomplete number for a breach of the
    grammar, also at the end of the text. -/
def Draft.readNumber (s : List Char) : Draft × Option (Shorter s) :=
  match h : readNumeral s with
  | .error f => (.scalar (.error f) (.error .ungrammatical), none)
  | .ok (n, rest) =>
    (.scalar (n.value.map .number) (.ok ()), some ⟨rest, length_of_readNumeral h⟩)

/-- The string at the front of a text, after its opening quotation mark. -/
def Draft.readQuoted (s : List Char) : Draft × Option (Shorter s) :=
  let strict := (readString s).map (·.1)
  match h : skipString s with
  | .error f => (.string strict (.error f), none)
  | .ok rest => (.string strict (.ok ()), some ⟨rest, length_of_skipString h⟩)

/-- Passes a longer text on as the text it comes from. -/
def Shorter.weaken {s t : List Char} (h : s.length ≤ t.length) :
    Option (Shorter s) → Option (Shorter t)
  | none => none
  | some r => some ⟨r.1, Nat.lt_of_lt_of_le r.2 h⟩

theorem length_lt_of_skipBlanks {s t : List Char} {c : Char} (h : skipBlanks s = c :: t) :
    t.length < s.length := by
  have := length_skipBlanks_le s
  rw [h, List.length_cons] at this
  omega

mutual

/-- Reads the value at the front of a text, blanks before it included. -/
def Draft.read (s : List Char) : Draft × Option (Shorter s) :=
  match h : skipBlanks s with
  | [] => (.broken .truncated, none)
  | c :: t =>
    have hle : (c :: t).length ≤ s.length := by rw [← h]; exact length_skipBlanks_le s
    have hlt : t.length < s.length := length_lt_of_skipBlanks h
    if c = '"' then
      let (d, rest) := Draft.readQuoted t
      (d, Shorter.weaken (Nat.le_of_lt hlt) rest)
    else if c = '[' then
      let (items, rest) := Items.read true t
      (.array items, Shorter.weaken (Nat.le_of_lt hlt) rest)
    else if c = '\x7b' then
      let (members, rest) := Members.read true t
      (.object members, Shorter.weaken (Nat.le_of_lt hlt) rest)
    else if c = 'n' then
      let (d, rest) := Draft.readWord .null ['u', 'l', 'l'] c t
      (d, Shorter.weaken hle rest)
    else if c = 't' then
      let (d, rest) := Draft.readWord (.bool true) ['r', 'u', 'e'] c t
      (d, Shorter.weaken hle rest)
    else if c = 'f' then
      let (d, rest) := Draft.readWord (.bool false) ['a', 'l', 's', 'e'] c t
      (d, Shorter.weaken hle rest)
    else if c = '-' ∨ c.isDigit then
      let (d, rest) := Draft.readNumber (c :: t)
      (d, Shorter.weaken hle rest)
    else (.broken .ungrammatical, none)
termination_by (s.length, 0)

/-- Reads the items of an array: `first` right after the opening bracket, else after an item. -/
def Items.read (first : Bool) (s : List Char) : Items × Option (Shorter s) :=
  match h : skipBlanks s with
  | [] => (.broken false .truncated, none)
  | c :: t =>
    have hlt : t.length < s.length := length_lt_of_skipBlanks h
    if c = ']' then (.close, some ⟨t, hlt⟩)
    else if first then
      match Draft.read s with
      | (d, none) => (.item d (.broken false .ungrammatical), none)
      | (d, some r) =>
        let (items, rest) := Items.read false r.1
        (.item d items, Shorter.weaken (Nat.le_of_lt r.2) rest)
    else if c = ',' then
      match skipBlanks t with
      | [] => (.broken true .truncated, none)
      | b :: _ =>
        if b = ']' then (.broken true .ungrammatical, none)
        else
          match Draft.read t with
          | (d, none) => (.item d (.broken false .ungrammatical), none)
          | (d, some r) =>
            have := r.2
            let (items, rest) := Items.read false r.1
            (.item d items, Shorter.weaken (by omega) rest)
    else (.broken false .ungrammatical, none)
termination_by (s.length, 1)

/-- Reads the members of an object: `first` right after the opening brace, else after a member. -/
def Members.read (first : Bool) (s : List Char) : Members × Option (Shorter s) :=
  match h : skipBlanks s with
  | [] => (.broken false .truncated, none)
  | c :: t =>
    have hlt : t.length < s.length := length_lt_of_skipBlanks h
    if c = '\x7d' then (.close, some ⟨t, hlt⟩)
    else if first then
      if c = '"' then
        let (members, rest) := Members.readMember t
        (members, Shorter.weaken (Nat.le_of_lt hlt) rest)
      else
        (.member (Draft.read s).1 (.broken .ungrammatical) (.broken false .ungrammatical), none)
    else if c = ',' then
      match h' : skipBlanks t with
      | [] => (.broken true .truncated, none)
      | b :: u =>
        have hlt' : u.length < t.length := length_lt_of_skipBlanks h'
        if b = '"' then
          let (members, rest) := Members.readMember u
          (members, Shorter.weaken (by omega) rest)
        else (.broken true .ungrammatical, none)
    else (.broken false .ungrammatical, none)
termination_by (s.length, 1)

/-- Reads a member after the opening quotation mark of its name, and the members after it. -/
def Members.readMember (s : List Char) : Members × Option (Shorter s) :=
  match Draft.readQuoted s with
  | (name, none) => (.member name (.broken .ungrammatical) (.broken false .ungrammatical), none)
  | (name, some r) =>
    match h : skipBlanks r.1 with
    | [] => (.member name (.broken .truncated) (.broken false .ungrammatical), none)
    | c :: t =>
      have hlt : t.length < s.length := Nat.lt_trans (length_lt_of_skipBlanks h) r.2
      if c = ':' then
        match Draft.read t with
        | (d, none) => (.member name d (.broken false .ungrammatical), none)
        | (d, some v) =>
          have := v.2
          let (members, rest) := Members.read false v.1
          (.member name d members, Shorter.weaken (by omega) rest)
      else (.member name (.broken .ungrammatical) (.broken false .ungrammatical), none)
termination_by (s.length, 0)

end

/-! ## Reading a draft without a shape in mind -/

mutual

/-- Passes over a value. -/
def Draft.skip : Draft → Except Fault Unit
  | .broken f => .error f
  | .scalar _ lax => lax
  | .string _ lax => lax
  | .array items => items.skip
  | .object members => members.skip

def Items.skip : Items → Except Fault Unit
  | .close => .ok ()
  | .broken _ f => .error f
  | .item d rest => do d.skip; rest.skip

def Members.skip : Members → Except Fault Unit
  | .close => .ok ()
  | .broken _ f => .error f
  | .member name value rest => do
    match name with
    | .string _ lax => lax
    | _ => .error .ungrammatical
    value.skip
    rest.skip

end

def Scalar.toJson : Scalar → Json
  | .null => .null
  | .bool b => .bool b
  | .number n => .number n

/-- How deep arrays and objects may nest. -/
def depthLimit : Nat := 127

mutual

/-- Reads a value into a tree, with `room` for that many nested arrays and objects. -/
def Draft.toJson (room : Nat) : Draft → Except Fault Json
  | .broken f => .error f
  | .scalar strict _ => strict.map Scalar.toJson
  | .string strict _ => strict.map .string
  | .array items =>
    match room with
    | 0 => .error .ungrammatical
    | room + 1 => (items.toJson room).map .array
  | .object members =>
    match room with
    | 0 => .error .ungrammatical
    | room + 1 => (members.toJson room).map .object

def Items.toJson (room : Nat) : Items → Except Fault (List Json)
  | .close => .ok []
  | .broken _ f => .error f
  | .item d rest => do return (← d.toJson room) :: (← rest.toJson room)

def Members.toJson (room : Nat) : Members → Except Fault (List (String × Json))
  | .close => .ok []
  | .broken _ f => .error f
  | .member name value rest => do
    match name with
    | .string strict _ =>
      let name ← strict
      let value ← value.toJson room
      return (name, value) :: (← rest.toJson room)
    | _ => .error .ungrammatical

end

/-- Reads a whole text: `decode` takes what it wants from the draft, and only blanks may follow. -/
def readText {α : Type} (decode : Draft → Except Fault α) (text : String) : Except Fault α := do
  let (draft, rest) := Draft.read text.toList
  let value ← decode draft
  match rest with
  | some r => if (skipBlanks r.1).isEmpty then return value else .error .ungrammatical
  | none => return value

/-- Reads a whole text into a tree. -/
def parse (text : String) : Except Fault Json := readText (Draft.toJson depthLimit) text

end KvmConsole.Json
