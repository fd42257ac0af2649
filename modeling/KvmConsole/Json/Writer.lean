import KvmConsole.Json.Fault

/-!
# Writing JSON

A tree as compact text: no blanks, members in their order, and in strings only what the grammar
demands is escaped.
-/

namespace KvmConsole.Json

/-- A character of a string as it is written: quotation marks, backslashes and controls are escaped,
    five of the controls by a letter. -/
def writeChar (c : Char) : List Char :=
  if c = '"' then ['\\', '"']
  else if c = '\\' then ['\\', '\\']
  else if c = '\x08' then ['\\', 'b']
  else if c = '\x0c' then ['\\', 'f']
  else if c = '\n' then ['\\', 'n']
  else if c = '\r' then ['\\', 'r']
  else if c = '\t' then ['\\', 't']
  else if c.toNat < 0x20 then
    ['\\', 'u', '0', '0', Nat.digitChar (c.toNat / 16), Nat.digitChar (c.toNat % 16)]
  else [c]

/-- A string between quotation marks. -/
def writeString (s : String) : List Char := '"' :: s.toList.flatMap writeChar ++ ['"']

def writeNumber : Number → List Char
  | .natural n => Nat.toDigits 10 n.toNat
  | .negative n => (toString n.toInt).toList
  | .float x => (floatText x).toList

mutual

def writeValue : Json → List Char
  | .null => ['n', 'u', 'l', 'l']
  | .bool true => ['t', 'r', 'u', 'e']
  | .bool false => ['f', 'a', 'l', 's', 'e']
  | .number n => writeNumber n
  | .string s => writeString s
  | .array items => '[' :: writeItems true items
  | .object members => '\x7b' :: writeMembers true members

/-- The rest of an array, a comma before each item but the `first`. -/
def writeItems (first : Bool) : List Json → List Char
  | [] => [']']
  | item :: rest => (if first then [] else [',']) ++ writeValue item ++ writeItems false rest

/-- The rest of an object, a comma before each member but the `first`. -/
def writeMembers (first : Bool) : List (String × Json) → List Char
  | [] => ['\x7d']
  | (name, value) :: rest =>
    (if first then [] else [',']) ++ writeString name ++ ':' :: writeValue value ++
      writeMembers false rest

end

/-- The compact text of a tree. -/
def write (j : Json) : String := String.ofList j.writeValue

end KvmConsole.Json
