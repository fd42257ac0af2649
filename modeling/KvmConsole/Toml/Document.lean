import KvmConsole.Toml.Number

/-!
# TOML documents

`parse` reads the text of a document into its top table: line by line, each a pair, a header, or
nothing but blanks and a comment. Arrays and inline tables nest up to a limit, and so do the parts
of a dotted key.
-/

namespace KvmConsole.Toml

/-- What one round of a loop over a text comes to. -/
inductive Round (σ α : Type) where
  | more (state : σ) (rest : List Char)
  | done (result : α) (rest : List Char)
  | refused

/-- Repeats a round until one is the last. Every other round has to take something off the text. -/
def repeatRounds {σ α : Type} (round : σ → List Char → Round σ α) (state : σ) (s : List Char) :
    Option (α × List Char) :=
  match round state s with
  | .done result rest => some (result, rest)
  | .refused => none
  | .more state rest =>
    if rest.length < s.length then repeatRounds round state rest else none
termination_by s.length

/-- One more than the number of arrays and inline tables that may nest, and of the parts that a
    dotted key may have. -/
def nestingLimit : Nat := 80

/-! ## Keys -/

def isBareKeyChar (c : Char) : Bool :=
  c.isDigit || 'a' ≤ c && c ≤ 'z' || 'A' ≤ c && c ≤ 'Z' || c = '-' || c = '_'

/-- A part of a key: a quoted string, or letters, digits, hyphens and underscores. -/
def readKeyPart (s : List Char) : Option (String × List Char) :=
  match s with
  | '"' :: _ | '\'' :: _ => readLine s
  | _ =>
    let part := s.takeWhile isBareKeyChar
    if part.isEmpty then none else some (.ofList part, s.dropWhile isBareKeyChar)

/-- A key, its parts separated by points. The last part stands apart. -/
def readKey (s : List Char) : Option ((List String × String) × List Char) := do
  let (parts, rest) ← repeatRounds
    (fun parts s =>
      match readKeyPart (skipSpaces s) with
      | none => .refused
      | some (part, rest) =>
        match skipSpaces rest with
        | '.' :: rest => .more (parts ++ [part]) rest
        | rest => .done (parts ++ [part]) rest)
    [] s
  match parts.getLast? with
  | some key => if parts.length < nestingLimit then some ((parts.dropLast, key), rest) else none
  | none => none

/-! ## Values -/

/-- A key, an equals sign and a value. -/
def readPair (value : List Char → Option (Node × List Char)) (s : List Char) :
    Option ((List String × String × Node) × List Char) := do
  let ((path, key), rest) ← readKey s
  let rest ← expect '=' rest
  let (node, rest) ← value (skipSpaces rest)
  return ((path, key, node), rest)

/-- The rest of an array after its bracket. A comma may come last. -/
def readArray (value : List Char → Option (Node × List Char)) (s : List Char) :
    Option (Node × List Char) :=
  repeatRounds
    (fun items s =>
      match skipTrivia false s with
      | none => .refused
      | some (']' :: rest) => .done (.array items) rest
      | some s =>
        match value s with
        | none => .refused
        | some (node, rest) =>
          match skipTrivia false rest with
          | some (',' :: rest) => .more (items ++ [node]) rest
          | some (']' :: rest) => .done (.array (items ++ [node])) rest
          | _ => .refused)
    [] s

/-- The rest of an inline table after its brace. It stays on one line, and no comma comes last. -/
def readInlineTable (value : List Char → Option (Node × List Char)) (s : List Char) :
    Option (Node × List Char) :=
  match skipSpaces s with
  | '\x7d' :: rest => some (.table .inlined [], rest)
  | s =>
    repeatRounds
      (fun (entries : Entries) s =>
        match readPair value s with
        | none => .refused
        | some ((path, key, node), rest) =>
          match entries.insertPair path key node with
          | none => .refused
          | some entries =>
            match skipSpaces rest with
            | ',' :: rest => .more entries rest
            | '\x7d' :: rest => .done (.table .inlined entries) rest
            | _ => .refused)
      [] s

/-- A word that stands for a value. -/
def readWord : List Char → Option (Node × List Char)
  | 't' :: 'r' :: 'u' :: 'e' :: rest => some (.boolean true, rest)
  | 'f' :: 'a' :: 'l' :: 's' :: 'e' :: rest => some (.boolean false, rest)
  | s => readSpecial false s

/-- A value, with `room` for that many nested arrays and inline tables. -/
def readValue (room : Nat) (s : List Char) : Option (Node × List Char) :=
  match s with
  | [] => none
  | c :: rest =>
    if c = '"' ∨ c = '\'' then (readText s).map fun (text, rest) => (.string text, rest)
    else if c = '[' then
      match room with
      | 0 => none
      | room + 1 => readArray (readValue room) rest
    else if c = '\x7b' then
      match room with
      | 0 => none
      | room + 1 => readInlineTable (readValue room) rest
    else if c = '+' ∨ c = '-' ∨ c.isDigit then readScalar s
    else readWord s

/-! ## Lines -/

/-- A line with a pair. -/
def readPairLine (s : List Char) : Option (Line × List Char) := do
  let ((path, key, node), rest) ← readPair (readValue (nestingLimit - 1)) s
  return (.pair path key node, ← lineEnd rest)

/-- A line with a header, after its first bracket. -/
def readHeaderLine (s : List Char) : Option (Line × List Char) :=
  match s with
  | '[' :: s => do
    let ((path, key), rest) ← readKey s
    let rest ← expect ']' rest
    let rest ← expect ']' rest
    return (.elementHeader path key, ← lineEnd rest)
  | s => do
    let ((path, key), rest) ← readKey s
    let rest ← expect ']' rest
    return (.header path key, ← lineEnd rest)

/-- The lines of a document that hold something. -/
def readLines (s : List Char) : Option (List Line) := do
  let (lines, _) ← repeatRounds
    (fun lines s =>
      match skipSpaces s with
      | [] => .done lines []
      | '\n' :: rest => .more lines rest
      | '\r' :: '\n' :: rest => .more lines rest
      | '#' :: rest =>
        match lineEnd ('#' :: rest) with
        | some rest => .more lines rest
        | none => .refused
      | '[' :: rest =>
        match readHeaderLine rest with
        | some (line, rest) => .more (lines ++ [line]) rest
        | none => .refused
      | s =>
        match readPairLine s with
        | some (line, rest) => .more (lines ++ [line]) rest
        | none => .refused)
    [] s
  return lines

/-- The table of a document. A byte order mark at the front is dropped. -/
def parse (text : String) : Option Entries := do
  let s := match text.toList with
    | '\ufeff' :: rest => rest
    | s => s
  let lines ← readLines s
  Entries.ofLines [] [] lines

end KvmConsole.Toml
