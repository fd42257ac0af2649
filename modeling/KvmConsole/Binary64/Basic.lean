/-!
# Binary64 numbers

Pointer coordinates, size labels and upload percentages are computed in IEEE 754 binary64. A number
is kept here as its exact rational value, so that an operation is what the standard says it is: the
exact result, rounded once.

* `roundHalfEven` rounds to an integer, halves going to the even neighbour;
* `nearest` rounds to the grid of binary64 values around a rational;
* `ofRat` adds overflow to the infinities and the sign of zero;
* `ofBits` and `toBits` are the interchange encoding.
-/

namespace KvmConsole

/-- A binary64 datum. A finite number is its exact value together with its sign bit, which carries
    information for the two zeros only. -/
inductive Binary64 where
  | nan
  | infinity (negative : Bool)
  | finite (negative : Bool) (value : Rat)
  deriving DecidableEq, Repr, Inhabited

namespace Binary64

/-- Two to an integer power. -/
def powerOfTwo : Int → Rat
  | .ofNat n => (Nat.pow 2 n : Nat)
  | .negSucc n => mkRat 1 (Nat.pow 2 (n + 1))

/-- The distance from zero. -/
def magnitude (q : Rat) : Rat := if q < 0 then -q else q

/-- The integer nearest to `q`; of two equally near ones, the even one. -/
def roundHalfEven (q : Rat) : Int :=
  let below := q.floor
  let excess := q - below
  if excess < 1 / 2 then below
  else if 1 / 2 < excess then below + 1
  else below + below % 2

/-- The integer `e` with `2 ^ e ≤ magnitude q < 2 ^ (e + 1)`, for `q ≠ 0`. The quotient of the
    leading bits of numerator and denominator is off by at most one. -/
def exponent (q : Rat) : Int :=
  let guess : Int := q.num.natAbs.log2 - (q.den.log2 : Int)
  if powerOfTwo guess ≤ magnitude q then guess else guess - 1

/-- The exponent of the spacing of binary64 values around `q`: 53 significant bits, and never finer
    than the subnormal numbers. -/
def quantum (q : Rat) : Int := max (-1074) (exponent q - 52)

/-- The binary64 value nearest to `q`, ties to the even significand, as if exponents were unbounded
    above. -/
def nearest (q : Rat) : Rat :=
  if q = 0 then 0
  else
    let spacing := powerOfTwo (quantum q)
    roundHalfEven (q / spacing) * spacing

/-- Rounds a rational to binary64. From `2 ^ 1024` on the result is infinite, and a negative number
    that vanishes leaves the negative zero. -/
def ofRat (q : Rat) : Binary64 :=
  let r := nearest q
  if powerOfTwo 1024 ≤ magnitude r then .infinity (q < 0) else .finite (q < 0) r

/-- Rounds an integer to binary64. -/
def ofInt (n : Int) : Binary64 := ofRat n

/-- Rounds a natural number to binary64. -/
def ofNat (n : Nat) : Binary64 := ofRat n

instance (n : Nat) : OfNat Binary64 n := ⟨ofNat n⟩

/-- The exact value of a finite number; the other data stand for no number and give 0. -/
def toRat : Binary64 → Rat
  | .finite _ v => v
  | _ => 0

def isNan : Binary64 → Bool
  | .nan => true
  | _ => false

def isFinite : Binary64 → Bool
  | .finite _ _ => true
  | _ => false

/-! ## The interchange encoding -/

/-- The number of fractions that share an exponent: the fraction has 52 bits. -/
def fractionCount : Nat := 0x10000000000000

/-- The number of exponents: the exponent has eleven bits. -/
def exponentCount : Nat := 0x800

/-- Reads the sign bit, the eleven exponent bits and the 52 fraction bits of a datum. -/
def ofBits (bits : UInt64) : Binary64 :=
  let n := bits.toNat
  let negative := n / (exponentCount * fractionCount) == 1
  let biased : Nat := n / fractionCount % exponentCount
  let fraction : Nat := n % fractionCount
  if biased = 2047 then
    if fraction = 0 then .infinity negative else .nan
  else
    let significand : Nat := if biased = 0 then fraction else fractionCount + fraction
    let power : Int := (max 1 biased : Nat) - 1075
    let v := (significand : Rat) * powerOfTwo power
    .finite negative (if negative then -v else v)

/-- The encoding of a datum; every NaN has the same one. -/
def toBits : Binary64 → UInt64
  | .nan => 0x7ff8000000000000
  | .infinity negative => if negative then 0xfff0000000000000 else 0x7ff0000000000000
  | .finite negative v =>
    let sign := if negative then exponentCount * fractionCount else 0
    if v = 0 then UInt64.ofNat sign
    else
      let power := quantum v
      let significand := (magnitude v / powerOfTwo power).num.natAbs
      let biased := if significand < fractionCount then 0 else (power + 1075).toNat
      UInt64.ofNat (sign + biased * fractionCount + significand % fractionCount)

end Binary64

end KvmConsole
