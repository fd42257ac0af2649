import KvmConsole.Binary64.Arithmetic

/-!
# Size labels

Sizes are shown with two decimals in units of powers of 1024; the size zero is a bare `0`.
-/

namespace KvmConsole.Msd

/-- The units of sizes, by their power of 1024. -/
inductive SizeUnit where
  | byte
  | kilobyte
  | megabyte
  | gigabyte
  | terabyte
  deriving DecidableEq, Repr

namespace SizeUnit

def symbol : SizeUnit → String
  | byte => "B"
  | kilobyte => "kB"
  | megabyte => "MB"
  | gigabyte => "GB"
  | terabyte => "TB"

/-- The units above the byte, in order. -/
def aboveByte : List SizeUnit := [kilobyte, megabyte, gigabyte, terabyte]

end SizeUnit

/-- A unit and the number of bytes in it. -/
structure SizeScale where
  unit : SizeUnit
  divisor : UInt64
  deriving DecidableEq, Repr

namespace SizeScale

/-- The scale of single bytes. -/
def bytes : SizeScale := ⟨.byte, 1⟩

/-- Goes up through the greater units, for as long as there is one and the size has 1024 of the
    present unit. -/
def climb (size : UInt64) (scale : SizeScale) : List SizeUnit → SizeScale
  | [] => scale
  | next :: greater =>
    if 1024 ≤ size / scale.divisor then climb size ⟨next, scale.divisor * 1024⟩ greater else scale

/-- The scale in which a size is shown. -/
def ofSize (size : UInt64) : SizeScale := bytes.climb size SizeUnit.aboveByte

end SizeScale

/-- A size as it is shown. -/
inductive SizeLabel where
  | zero
  /-- A binary64 number of units. -/
  | scaled (value : Binary64) (unit : SizeUnit)
  deriving DecidableEq, Repr

namespace SizeLabel

def ofSize (size : UInt64) : SizeLabel :=
  if size = 0 then zero
  else
    let scale := SizeScale.ofSize size
    scaled (Binary64.ofNat size.toNat / Binary64.ofNat scale.divisor.toNat) scale.unit

/-- The hundredths of a number of units, a half going to the even neighbour. -/
def hundredths (value : Binary64) : Nat := (Binary64.roundHalfEven (value.toRat * 100)).toNat

/-- A number of hundredths with two decimals. -/
def decimals (n : Nat) : String :=
  let cents := n % 100
  toString (n / 100) ++ "." ++ (if cents < 10 then "0" else "") ++ toString cents

def text : SizeLabel → String
  | zero => "0"
  | scaled value unit => decimals (hundredths value) ++ " " ++ unit.symbol

end SizeLabel

/-- The label of a size. -/
def sizeText (size : UInt64) : String := (SizeLabel.ofSize size).text

end KvmConsole.Msd
