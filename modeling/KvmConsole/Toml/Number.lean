import KvmConsole.Binary64.Arithmetic
import KvmConsole.Binary64.Decimal
import KvmConsole.Toml.Node
import KvmConsole.Toml.Text

/-!
# TOML numbers, dates and times

Which of them a text starts with shows in its first characters: four digits and a hyphen begin a
date, an hour and a colon a time, and a fraction or an exponent after an integer makes a floating
point number. Once that is settled, the rest has to follow.
-/

namespace KvmConsole.Toml

open Text (hexValue? natOfDigits)

/-- Digits of a kind with single underscores between them, after the first one. -/
def moreDigits (isOne : Char → Bool) : List Char → Option (List Char × List Char)
  | [] => some ([], [])
  | ['_'] => none
  | '_' :: c :: rest =>
    if isOne c then (moreDigits isOne rest).map fun (ds, rest) => (c :: ds, rest) else none
  | c :: rest =>
    if isOne c then (moreDigits isOne rest).map fun (ds, rest) => (c :: ds, rest)
    else some ([], c :: rest)

/-- At least one digit of a kind, with single underscores between digits. -/
def digits (isOne : Char → Bool) : List Char → Option (List Char × List Char)
  | [] => none
  | c :: rest =>
    if isOne c then (moreDigits isOne rest).map fun (ds, rest) => (c :: ds, rest) else none

/-! ## Dates and times -/

/-- A number of exactly `count` digits. -/
def fixedDigits (count : Nat) (s : List Char) : Option (Nat × List Char) :=
  let ds := s.take count
  if ds.length = count ∧ ds.all Char.isDigit then some (natOfDigits 10 ds, s.drop count) else none

/-- A number of two digits between two bounds. -/
def twoDigits (low high : Nat) (s : List Char) : Option (Nat × List Char) := do
  let (n, rest) ← fixedDigits 2 s
  if low ≤ n ∧ n ≤ high then some (n, rest) else none

/-- A certain character. -/
def expect (c : Char) : List Char → Option (List Char)
  | [] => none
  | d :: rest => if c = d then some rest else none

def daysInMonth (year month : Nat) : Nat :=
  if month = 2 then
    if year % 4 = 0 ∧ (year % 100 ≠ 0 ∨ year % 400 = 0) then 29 else 28
  else if month = 4 ∨ month = 6 ∨ month = 9 ∨ month = 11 then 30
  else 31

/-- The month and the day of a date, after its year and a hyphen. -/
def readMonthDay (year : Nat) (s : List Char) : Option (List Char) := do
  let (month, rest) ← twoDigits 1 12 s
  let rest ← expect '-' rest
  let (day, rest) ← twoDigits 1 31 rest
  if day ≤ daysInMonth year month then some rest else none

/-- An hour and a colon. -/
def hourColon? (s : List Char) : Option (List Char) := do
  let (_, rest) ← twoDigits 0 23 s
  expect ':' rest

/-- Minutes, seconds and their fraction, after an hour and a colon. A minute may have a leap
    second. -/
def readMinutes (s : List Char) : Option (List Char) := do
  let (_, rest) ← twoDigits 0 59 s
  let rest ← expect ':' rest
  let (_, rest) ← twoDigits 0 60 rest
  match rest with
  | '.' :: c :: fraction => some (if c.isDigit then fraction.dropWhile Char.isDigit else rest)
  | _ => some rest

/-- The offset of a time, if it has one. -/
def readOffset (s : List Char) : Option (List Char) :=
  match s with
  | c :: rest =>
    if c = 'Z' ∨ c = 'z' then some rest
    else if c = '+' ∨ c = '-' then do
      let (_, rest) ← twoDigits 0 23 rest
      let rest ← expect ':' rest
      let (_, rest) ← twoDigits 0 59 rest
      return rest
    else some s
  | [] => some []

/-- The time of day after a date, if there is one, with its offset. -/
def readTimeOfDay (s : List Char) : Option (List Char) :=
  match s with
  | c :: rest =>
    if c = 'T' ∨ c = 't' ∨ c = ' ' then
      match hourColon? rest with
      | some rest => do readOffset (← readMinutes rest)
      | none => some s
    else some s
  | [] => some []

/-- The year and the hyphen of a date. -/
def yearHyphen? (s : List Char) : Option (Nat × List Char) := do
  let (year, rest) ← fixedDigits 4 s
  return (year, ← expect '-' rest)

/-! ## Numbers -/

/-- Takes a sign off a text. -/
def readSign : List Char → Bool × List Char
  | '+' :: rest => (false, rest)
  | '-' :: rest => (true, rest)
  | s => (false, s)

/-- The digits of a decimal integer. None follow a leading zero. -/
def decimalDigits : List Char → Option (List Char × List Char)
  | '0' :: rest => some (['0'], rest)
  | s => digits Char.isDigit s

/-- An integer of 64 bits. -/
def ofInt? (n : Int) : Option Node :=
  if -9223372036854775808 ≤ n ∧ n < 9223372036854775808 then some (.integer n) else none

/-- An integer with a letter for its base, after that letter. -/
def readBased (base : Nat) (isOne : Char → Bool) (s : List Char) : Option (Node × List Char) := do
  let (ds, rest) ← digits isOne s
  return (← ofInt? (natOfDigits base ds), rest)

/-- The binary64 value of decimal digits times a power of ten. -/
def floatOf (negative : Bool) (significand : List Char) (power : Int) : Binary64 :=
  let n := natOfDigits 10 significand
  let size : Int := (Nat.toDigits 10 n).length + power
  let magnitude : Binary64 :=
    if n = 0 ∨ size < -400 then 0
    else if 400 < size then .infinity false
    else .ofRat (n * Binary64.powerOfTen power)
  if negative then -magnitude else magnitude

/-- The fraction of a number, if it has one. -/
def readFraction : List Char → Option (List Char × List Char)
  | '.' :: rest => digits Char.isDigit rest
  | s => some ([], s)

/-- The exponent of a number, if it has one. -/
def readExponent (s : List Char) : Option (Int × List Char) :=
  match s with
  | c :: rest =>
    if c = 'e' ∨ c = 'E' then do
      let (negative, rest) := readSign rest
      let (ds, rest) ← digits Char.isDigit rest
      let n : Int := natOfDigits 10 ds
      return (if negative then -n else n, rest)
    else some (0, s)
  | [] => some (0, [])

/-- The rest of a number after its sign and its integer digits. A number too great for binary64 is
    refused, unless it is negative. -/
def readAfterInteger (negative : Bool) (whole s : List Char) : Option (Node × List Char) :=
  match s with
  | [] => do
    return (← ofInt? (if negative then -natOfDigits 10 whole else natOfDigits 10 whole), [])
  | c :: _ =>
    if c = '.' ∨ c = 'e' ∨ c = 'E' then do
      let (fraction, rest) ← readFraction s
      let (exponent, rest) ← readExponent rest
      let x := floatOf negative (whole ++ fraction) (exponent - fraction.length)
      if x = .infinity false then none else some (.float x, rest)
    else do
      return (← ofInt? (if negative then -natOfDigits 10 whole else natOfDigits 10 whole), s)

/-- The words for infinity and for no number, after a sign. -/
def readSpecial (negative : Bool) : List Char → Option (Node × List Char)
  | 'i' :: 'n' :: 'f' :: rest => some (.float (.infinity negative), rest)
  | 'n' :: 'a' :: 'n' :: rest => some (.float .nan, rest)
  | _ => none

/-- A number. -/
def readNumber (s : List Char) : Option (Node × List Char) :=
  match s with
  | '0' :: 'x' :: rest => readBased 16 (fun c => (hexValue? c).isSome) rest
  | '0' :: 'o' :: rest => readBased 8 (fun c => '0' ≤ c && c ≤ '7') rest
  | '0' :: 'b' :: rest => readBased 2 (fun c => c = '0' || c = '1') rest
  | _ =>
    let (negative, s) := readSign s
    match s with
    | 'i' :: _ | 'n' :: _ => readSpecial negative s
    | _ => do
      let (whole, rest) ← decimalDigits s
      readAfterInteger negative whole rest

/-- A date or time, or a number. -/
def readScalar (s : List Char) : Option (Node × List Char) :=
  let taken (rest : List Char) : Node × List Char :=
    (.dateTime (.ofList (s.take (s.length - rest.length))), rest)
  match yearHyphen? s with
  | some (year, rest) => do return taken (← readTimeOfDay (← readMonthDay year rest))
  | none =>
    match hourColon? s with
    | some rest => do return taken (← readMinutes rest)
    | none => readNumber s

end KvmConsole.Toml
