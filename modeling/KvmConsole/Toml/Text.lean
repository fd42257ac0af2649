import KvmConsole.Text.Digits

/-!
# TOML strings, blanks and comments

The leaves of the grammar that are made of characters. A reader takes something off the front of a
text and returns the rest, or nothing if the text is refused.
-/

namespace KvmConsole.Toml

open Text (hexValue?)

/-- A space or a tab. -/
def isSpace (c : Char) : Bool := c = ' ' || c = '\t'

def skipSpaces (s : List Char) : List Char := s.dropWhile isSpace

/-- The characters of comments: tabs and everything that is no control, and the delete character. -/
def isCommentChar (c : Char) : Bool := c = '\t' || 0x20 ≤ c.toNat

/-- The characters of literal strings, apostrophes included. -/
def isLiteralChar (c : Char) : Bool := c = '\t' || 0x20 ≤ c.toNat && c.toNat ≠ 0x7f

/-- The end of a line, after blanks and a comment. -/
def lineEnd (s : List Char) : Option (List Char) :=
  let s := skipSpaces s
  let s := if s.head? = some '#' then s.dropWhile isCommentChar else s
  match s with
  | [] => some []
  | '\n' :: rest => some rest
  | '\r' :: '\n' :: rest => some rest
  | _ => none

/-- Drops blanks, line ends and comments between the items of an array. -/
def skipTrivia (inComment : Bool) : List Char → Option (List Char)
  | [] => if inComment then none else some []
  | '\n' :: rest => skipTrivia false rest
  | '\r' :: '\n' :: rest => skipTrivia false rest
  | c :: rest =>
    if inComment then
      if isCommentChar c then skipTrivia true rest else none
    else if isSpace c then skipTrivia false rest
    else if c = '#' then skipTrivia true rest
    else some (c :: rest)

/-- The character of a number in hexadecimal digits, if there is one. -/
def charOfHex (digits : List Char) : Option Char := do
  let values ← digits.mapM hexValue?
  let n := values.foldl (fun n d => n * 16 + d) 0
  if h : n.isValidChar then some (Char.ofNatAux n h) else none

/-- The character that a letter stands for after a backslash. -/
def escapeLetter? : Char → Option Char
  | 'b' => some '\x08'
  | 'f' => some '\x0c'
  | 'n' => some '\n'
  | 'r' => some '\r'
  | 't' => some '\t'
  | '"' => some '"'
  | '\\' => some '\\'
  | _ => none

/-- The rest of a string in quotation marks. -/
def readBasic : List Char → Option (List Char × List Char)
  | [] => none
  | '"' :: rest => some ([], rest)
  | '\\' :: 'u' :: a :: b :: c :: d :: rest => do
    let value ← charOfHex [a, b, c, d]
    let (tail, rest) ← readBasic rest
    return (value :: tail, rest)
  | '\\' :: 'U' :: a :: b :: c :: d :: e :: f :: g :: h :: rest => do
    let value ← charOfHex [a, b, c, d, e, f, g, h]
    let (tail, rest) ← readBasic rest
    return (value :: tail, rest)
  | '\\' :: c :: rest => do
    let value ← escapeLetter? c
    let (tail, rest) ← readBasic rest
    return (value :: tail, rest)
  | c :: rest =>
    if c ≠ '\\' ∧ isLiteralChar c then do
      let (tail, rest) ← readBasic rest
      return (c :: tail, rest)
    else none

/-- The rest of a string in apostrophes. -/
def readLiteral : List Char → Option (List Char × List Char)
  | [] => none
  | '\'' :: rest => some ([], rest)
  | c :: rest =>
    if isLiteralChar c then do
      let (tail, rest) ← readLiteral rest
      return (c :: tail, rest)
    else none

/-- Whether a text starts with a line end, after blanks. -/
def startsNewLine (s : List Char) : Bool :=
  match skipSpaces s with
  | '\n' :: _ => true
  | '\r' :: '\n' :: _ => true
  | _ => false

/-- Up to two quotes of a kind that stand before the three that close a string. -/
def closingQuotes (quote : Char) : List Char → List Char × List Char
  | a :: b :: rest =>
    if a = quote then
      if b = quote then ([quote, quote], rest) else ([quote], b :: rest)
    else ([], a :: b :: rest)
  | [a] => if a = quote then ([quote], []) else ([], [a])
  | [] => ([], [])

/-- The rest of a string in three quotation marks. A backslash at the end of a line drops all blanks
    and line ends that follow, which is what `trimming` does. -/
def readMultiBasic (trimming : Bool) : List Char → Option (List Char × List Char)
  | [] => none
  | '"' :: '"' :: '"' :: rest => some (closingQuotes '"' rest)
  | '\n' :: rest => do
    let (tail, rest) ← readMultiBasic trimming rest
    return (if trimming then tail else '\n' :: tail, rest)
  | '\r' :: '\n' :: rest => do
    let (tail, rest) ← readMultiBasic trimming rest
    return (if trimming then tail else '\n' :: tail, rest)
  | '\\' :: 'u' :: a :: b :: c :: d :: rest => do
    let value ← charOfHex [a, b, c, d]
    let (tail, rest) ← readMultiBasic false rest
    return (value :: tail, rest)
  | '\\' :: 'U' :: a :: b :: c :: d :: e :: f :: g :: h :: rest => do
    let value ← charOfHex [a, b, c, d, e, f, g, h]
    let (tail, rest) ← readMultiBasic false rest
    return (value :: tail, rest)
  | '\\' :: c :: rest =>
    if startsNewLine (c :: rest) then readMultiBasic true (c :: rest)
    else do
      let value ← escapeLetter? c
      let (tail, rest) ← readMultiBasic false rest
      return (value :: tail, rest)
  | c :: rest =>
    if trimming ∧ isSpace c then readMultiBasic true rest
    else if c ≠ '\\' ∧ isLiteralChar c then do
      let (tail, rest) ← readMultiBasic false rest
      return (c :: tail, rest)
    else none

/-- The rest of a string in three apostrophes. -/
def readMultiLiteral : List Char → Option (List Char × List Char)
  | [] => none
  | '\'' :: '\'' :: '\'' :: rest => some (closingQuotes '\'' rest)
  | '\r' :: '\n' :: rest => do
    let (tail, rest) ← readMultiLiteral rest
    return ('\n' :: tail, rest)
  | c :: rest =>
    if c = '\n' ∨ isLiteralChar c then do
      let (tail, rest) ← readMultiLiteral rest
      return (c :: tail, rest)
    else none

/-- Drops a line end right after the opening quotes. -/
def dropFirstLineEnd : List Char → List Char
  | '\n' :: rest => rest
  | '\r' :: '\n' :: rest => rest
  | s => s

/-- A string of one line, from its opening quote on. -/
def readLine : List Char → Option (String × List Char)
  | '"' :: rest => (readBasic rest).map fun (chars, rest) => (.ofList chars, rest)
  | '\'' :: rest => (readLiteral rest).map fun (chars, rest) => (.ofList chars, rest)
  | _ => none

/-- A string of any form, from its opening quotes on. -/
def readText : List Char → Option (String × List Char)
  | '"' :: '"' :: '"' :: rest =>
    (readMultiBasic false (dropFirstLineEnd rest)).map fun (chars, rest) => (.ofList chars, rest)
  | '\'' :: '\'' :: '\'' :: rest =>
    (readMultiLiteral (dropFirstLineEnd rest)).map fun (chars, rest) => (.ofList chars, rest)
  | s => readLine s

end KvmConsole.Toml
