import KvmConsole.Binary64.Basic

/-!
# Decimal digits of binary64 values

`shortest` gives the fewest digits that read back as a given value, and of those the nearest to it.
Reading back is `nearest` itself, so the search needs no error analysis: on the decimal grid of each
length it tries the value's two neighbours.
-/

namespace KvmConsole.Binary64

/-- Ten to an integer power. -/
def powerOfTen : Int → Rat
  | .ofNat n => (Nat.pow 10 n : Nat)
  | .negSucc n => mkRat 1 (Nat.pow 10 (n + 1))

/-- A decimal `digits · 10 ^ power`. -/
structure Decimal where
  digits : Nat
  power : Int
  deriving DecidableEq, Repr

namespace Decimal

def toRat (d : Decimal) : Rat := d.digits * powerOfTen d.power

/-- Moves trailing zeros of the digits into the power. -/
def trim (d : Decimal) : Decimal :=
  if h : d.digits ≠ 0 ∧ d.digits % 10 = 0 then trim ⟨d.digits / 10, d.power + 1⟩ else d
termination_by d.digits
decreasing_by omega

end Decimal

/-- The power of ten of the leading digit of `q`, for `0 < q`. -/
def leadingPower (q : Rat) : Int :=
  let guess : Int := (Nat.toDigits 10 q.num.natAbs).length - ((Nat.toDigits 10 q.den).length : Int)
  if powerOfTen guess ≤ q then guess else guess - 1

/-- The decimal of `count` digits that reads back as `v` and is nearest to it, if there is one. -/
def ofLength? (v : Rat) (count : Nat) : Option Decimal :=
  let power := leadingPower v + 1 - count
  let below := (v / powerOfTen power).floor.toNat
  let lower : Decimal := ⟨below, power⟩
  let upper : Decimal := ⟨below + 1, power⟩
  let low := nearest lower.toRat = v
  let high := nearest upper.toRat = v
  if low ∧ high then
    let down := v - lower.toRat
    let up := upper.toRat - v
    if down < up then some lower
    else if up < down then some upper
    else if below % 2 = 0 then some lower else some upper
  else if low then some lower
  else if high then some upper
  else none

/-- The shortest decimal that reads back as the binary64 value `v`, for `0 < v`. Seventeen digits
    are always enough. -/
def shortest (v : Rat) : Decimal :=
  let found := (List.range 17).findSome? fun i => ofLength? v (i + 1)
  (found.getD ⟨0, 0⟩).trim

end KvmConsole.Binary64
