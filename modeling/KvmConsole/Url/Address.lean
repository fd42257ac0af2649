import KvmConsole.Url.Percent

/-!
# Internet addresses

The numeric hosts of addresses. An IPv4 address has up to four numbers, each decimal, octal or
hexadecimal, of which the last one fills all the bytes that are left. An IPv6 address has eight
groups, of which one run of zeros may be left out and the last two may be written as an IPv4
address.
-/

namespace KvmConsole.Url

open Text (hexValue? natOfDigits)

/-- The parts of a text between the places of a character. -/
def splitAt (separator : Char) : List Char → List (List Char)
  | [] => [[]]
  | c :: rest =>
    match splitAt separator rest with
    | [] => [[c]]
    | part :: parts => if c = separator then [] :: part :: parts else (c :: part) :: parts

/-! ## IPv4 -/

/-- The base of a number and its digits. -/
def basedDigits : List Char → Nat × List Char
  | '0' :: 'x' :: ds => (16, ds)
  | '0' :: 'X' :: ds => (16, ds)
  | '0' :: d :: ds => (8, d :: ds)
  | ds => (10, ds)

/-- A number of an IPv4 address. No digits after a base stand for zero. -/
def ipv4Number? (s : List Char) : Option Nat :=
  if s.isEmpty then none
  else
    let (base, ds) := basedDigits s
    if ds.all fun c => (hexValue? c).any (· < base) then some (natOfDigits base ds) else none

/-- The parts of a host, without an empty one at its end. -/
def hostParts (host : List Char) : List (List Char) :=
  let parts := splitAt '.' host
  if 1 < parts.length ∧ parts.getLast? = some [] then parts.dropLast else parts

/-- Whether a host has to be an IPv4 address: its last part looks like a number. -/
def endsInNumber (host : List Char) : Bool :=
  match (hostParts host).getLast? with
  | none => false
  | some part => !part.isEmpty && part.all Char.isDigit || (ipv4Number? part).isSome

/-- The address of up to four numbers. -/
def ipv4OfNumbers? (numbers : List Nat) : Option UInt32 :=
  match numbers.reverse with
  | [] => none
  | last :: leading =>
    if 3 < leading.length then none
    else if leading.any (255 < ·) then none
    else if Nat.pow 256 (4 - leading.length) ≤ last then none
    else
      let high := leading.reverse.foldl (fun n b => n * 256 + b) 0
      some (UInt32.ofNat (high * Nat.pow 256 (4 - leading.length) + last))

/-- Reads an IPv4 address. -/
def ipv4? (host : List Char) : Option UInt32 := do
  ipv4OfNumbers? (← (hostParts host).mapM ipv4Number?)

/-- An IPv4 address as four decimal numbers. -/
def ipv4Text (address : UInt32) : String :=
  let n := address.toNat
  ".".intercalate
    ([n / 0x1000000 % 256, n / 0x10000 % 256, n / 256 % 256, n % 256].map
      fun (b : Nat) => toString b)

/-! ## IPv6 -/

/-- A group of one to four hexadecimal digits. -/
def group? (s : List Char) : Option Nat :=
  if 1 ≤ s.length ∧ s.length ≤ 4 ∧ s.all fun c => (hexValue? c).isSome then some (natOfDigits 16 s)
  else none

/-- A byte in decimal, without leading zeros. -/
def byte? (s : List Char) : Option Nat :=
  if s.all Char.isDigit ∧ (s.length = 1 ∨ 1 < s.length ∧ s.length ≤ 3 ∧ s.head? ≠ some '0') ∧
      natOfDigits 10 s < 256 then some (natOfDigits 10 s)
  else none

/-- The last two groups of an address, written as an IPv4 address. -/
def embedded? (s : List Char) : Option (List Nat) := do
  match ← (splitAt '.' s).mapM byte? with
  | [a, b, c, d] => some [a * 256 + b, c * 256 + d]
  | _ => none

/-- Groups between colons. Nothing at all is no group. `atEnd` tells whether an IPv4 address may
    come last. -/
def groups? (atEnd : Bool) (s : List Char) : Option (List Nat) :=
  if s.isEmpty then some []
  else
    let parts := splitAt ':' s
    match parts.getLast? with
    | none => some []
    | some last =>
      if atEnd && last.contains '.' then do
        return (← parts.dropLast.mapM group?) ++ (← embedded? last)
      else parts.mapM group?

/-- The text before and after the first two colons in a row. -/
def splitAtGap : List Char → Option (List Char × List Char)
  | ':' :: ':' :: rest => some ([], rest)
  | c :: rest => (splitAtGap rest).map fun (before, after) => (c :: before, after)
  | [] => none

/-- Reads the eight groups of an IPv6 address. A gap stands for at least one group. -/
def ipv6? (s : List Char) : Option (List Nat) :=
  match splitAtGap s with
  | none => do
    let groups ← groups? true s
    if groups.length = 8 then some groups else none
  | some (before, after) => do
    let left ← groups? false before
    let right ← groups? true after
    if left.length + right.length ≤ 7 then
      some (left ++ List.replicate (8 - left.length - right.length) 0 ++ right)
    else none

/-- The length of the run of zeros at the front of a list. -/
def leadingZeros (groups : List Nat) : Nat := (groups.takeWhile (· = 0)).length

/-- The place and the length of the longest run of zeros; of several the first. -/
def longestZeros : List Nat → Nat × Nat
  | [] => (0, 0)
  | g :: rest =>
    let (start, length) := longestZeros rest
    let here := leadingZeros (g :: rest)
    if length ≤ here then (0, here) else (start + 1, length)

def hexText (n : Nat) : String := String.ofList (Nat.toDigits 16 n)

/-- An IPv6 address. The longest run of zeros is left out if it has at least two. -/
def ipv6Text (groups : List Nat) : String :=
  let (start, length) := longestZeros groups
  if length < 2 then ":".intercalate (groups.map hexText)
  else
    ":".intercalate ((groups.take start).map hexText) ++ "::" ++
      ":".intercalate ((groups.drop (start + length)).map hexText)

end KvmConsole.Url
