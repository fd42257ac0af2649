import KvmConsole.Binary64.Basic

/-!
# TOML tables

A document is a table of tables and values. How a table came to be decides what may still be added
to it: a table is written once, either by a header of its own, or by dotted keys, or inline.

* `alongDots` and `alongHeader` follow a path of keys and make the tables that are missing;
* `insertPair`, `openTable` and `openElement` are what the lines of a document do.
-/

namespace KvmConsole.Toml

/-- How a table came to be. -/
inductive Origin where
  /-- It has a header of its own. -/
  | header
  /-- It stands on the way of a header. -/
  | implied
  /-- It stands on the way of a dotted key. -/
  | dotted
  /-- It was written between braces. -/
  | inlined
  deriving DecidableEq, Repr

/-- A value or a table. -/
inductive Node where
  | string (value : String)
  | integer (value : Int)
  | float (value : Binary64)
  | boolean (value : Bool)
  /-- A date, a time or both, as written. -/
  | dateTime (text : String)
  | array (items : List Node)
  | table (origin : Origin) (entries : List (String × Node))
  /-- An array of tables that are written with headers, last first. -/
  | tables (elements : List (List (String × Node)))
  deriving Repr

abbrev Entries := List (String × Node)

namespace Entries

/-- Gives a key a value; a key that is there keeps its place. -/
def put (key : String) (node : Node) : Entries → Entries
  | [] => [(key, node)]
  | (k, n) :: rest => if k = key then (k, node) :: rest else (k, n) :: put key node rest

/-- Changes the table at the end of a path of dotted keys. Tables with a header of their own and
    inline tables are closed to dotted keys, and the last table on the path has to be one of dotted
    keys. -/
def alongDots (change : Entries → Option Entries) : List String → Entries → Option Entries
  | [], entries => change entries
  | key :: path, entries =>
    match entries.lookup key with
    | none => do
      let inner ← alongDots change path []
      return entries.put key (.table .dotted inner)
    | some (.table origin inner) =>
      if origin = .dotted ∨ origin = .implied ∧ path ≠ [] then do
        let inner ← alongDots change path inner
        return entries.put key (.table origin inner)
      else none
    | some (.tables (last :: others)) =>
      if path ≠ [] then do
        let last ← alongDots change path last
        return entries.put key (.tables (last :: others))
      else none
    | some _ => none

/-- Changes the table at the end of the path of a header. In an array of tables the last one
    counts. -/
def alongHeader (change : Entries → Option Entries) : List String → Entries → Option Entries
  | [], entries => change entries
  | key :: path, entries =>
    match entries.lookup key with
    | none => do
      let inner ← alongHeader change path []
      return entries.put key (.table .implied inner)
    | some (.table origin inner) =>
      if origin = .inlined then none
      else do
        let inner ← alongHeader change path inner
        return entries.put key (.table origin inner)
    | some (.tables (last :: others)) => do
      let last ← alongHeader change path last
      return entries.put key (.tables (last :: others))
    | some _ => none

/-- Adds a pair of a dotted key, given in its two parts, and a value. No key is given twice. -/
def insertPair (path : List String) (key : String) (value : Node) (entries : Entries) :
    Option Entries :=
  entries.alongDots
    (fun inner => if (inner.lookup key).isSome then none else some (inner.put key value)) path

/-- Opens the table of a header. It may be there if it only stood on the way of other headers. -/
def openTable (path : List String) (key : String) (entries : Entries) : Option Entries :=
  entries.alongHeader
    (fun inner =>
      match inner.lookup key with
      | none => some (inner.put key (.table .header []))
      | some (.table .implied content) => some (inner.put key (.table .header content))
      | some _ => none)
    path

/-- Opens one more table of an array. -/
def openElement (path : List String) (key : String) (entries : Entries) : Option Entries :=
  entries.alongHeader
    (fun inner =>
      match inner.lookup key with
      | none => some (inner.put key (.tables [[]]))
      | some (.tables elements) => some (inner.put key (.tables ([] :: elements)))
      | some _ => none)
    path

end Entries

/-- A line of a document. The last part of each key stands apart. -/
inductive Line where
  | pair (path : List String) (key : String) (value : Node)
  | header (path : List String) (key : String)
  | elementHeader (path : List String) (key : String)

/-- The table that the lines of a document make up, read with the given header in force. -/
def Entries.ofLines (header : List String) (entries : Entries) : List Line → Option Entries
  | [] => some entries
  | .pair path key value :: rest => do
    let entries ← entries.alongHeader (insertPair path key value) header
    entries.ofLines header rest
  | .header path key :: rest => do
    let entries ← entries.openTable path key
    entries.ofLines (path ++ [key]) rest
  | .elementHeader path key :: rest => do
    let entries ← entries.openElement path key
    entries.ofLines (path ++ [key]) rest

end KvmConsole.Toml
