import KvmConsole.Binary64.Basic

/-!
# JSON trees

A JSON value as a tree. An object keeps its members in the order of the text, repeated names
included; `collapse` is the view of readers that look members up by name.
-/

namespace KvmConsole

/-- A JSON number. Integers that fit 64 bits are exact; every other number is a binary64 value. -/
inductive Json.Number where
  | natural (value : UInt64)
  | negative (value : Int64)
  | float (value : Binary64)
  deriving DecidableEq, Repr

/-- A JSON value. -/
inductive Json where
  | null
  | bool (value : Bool)
  | number (value : Json.Number)
  | string (value : String)
  | array (items : List Json)
  | object (members : List (String × Json))
  deriving Repr, Inhabited

namespace Json

/-- Puts a member into a list sorted by name; a name that is there already gets the new value. -/
def insertMember (name : String) (value : Json) : List (String × Json) → List (String × Json)
  | [] => [(name, value)]
  | (n, v) :: rest =>
    if name = n then (name, value) :: rest
    else if name < n then (name, value) :: (n, v) :: rest
    else (n, v) :: insertMember name value rest

mutual

/-- Every object with its members sorted by name and, of members that share a name, the last one. -/
def collapse : Json → Json
  | .array items => .array (collapseItems items)
  | .object members =>
    .object ((collapseMembers members).foldl (fun acc m => insertMember m.1 m.2 acc) [])
  | .null => .null
  | .bool b => .bool b
  | .number n => .number n
  | .string s => .string s

def collapseItems : List Json → List Json
  | [] => []
  | item :: rest => item.collapse :: collapseItems rest

def collapseMembers : List (String × Json) → List (String × Json)
  | [] => []
  | (name, value) :: rest => (name, value.collapse) :: collapseMembers rest

end

end Json

end KvmConsole
