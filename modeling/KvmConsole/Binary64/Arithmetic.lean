import KvmConsole.Binary64.Basic

/-!
# Binary64 arithmetic

The operations of IEEE 754 on `Binary64`: each finite result is the exact one, rounded once to
nearest with ties to even. Comparisons are Booleans, and every comparison with a NaN is false.
-/

namespace KvmConsole.Binary64

/-- Flips the sign bit. -/
def neg : Binary64 → Binary64
  | .nan => .nan
  | .infinity s => .infinity (!s)
  | .finite s v => .finite (!s) (-v)

/-- The sum. Opposite infinities have none, and an exact zero is positive unless both terms are
    negative. -/
def add : Binary64 → Binary64 → Binary64
  | .nan, _ | _, .nan => .nan
  | .infinity s, .infinity t => if s = t then .infinity s else .nan
  | .infinity s, .finite _ _ => .infinity s
  | .finite _ _, .infinity t => .infinity t
  | .finite s v, .finite t w =>
    if v + w = 0 then .finite (s && t) 0 else ofRat (v + w)

def sub (x y : Binary64) : Binary64 := add x (neg y)

/-- The product. An infinity times zero has none. -/
def mul : Binary64 → Binary64 → Binary64
  | .nan, _ | _, .nan => .nan
  | .infinity s, .infinity t => .infinity (s ^^ t)
  | .infinity s, .finite t w => if w = 0 then .nan else .infinity (s ^^ t)
  | .finite s v, .infinity t => if v = 0 then .nan else .infinity (s ^^ t)
  | .finite s v, .finite t w =>
    if v * w = 0 then .finite (s ^^ t) 0 else ofRat (v * w)

/-- The quotient. Zero by zero and infinity by infinity have none; any other number by zero is
    infinite. -/
def div : Binary64 → Binary64 → Binary64
  | .nan, _ | _, .nan => .nan
  | .infinity _, .infinity _ => .nan
  | .infinity s, .finite t _ => .infinity (s ^^ t)
  | .finite s _, .infinity t => .finite (s ^^ t) 0
  | .finite s v, .finite t w =>
    if w = 0 then
      if v = 0 then .nan else .infinity (s ^^ t)
    else if v = 0 then .finite (s ^^ t) 0
    else ofRat (v / w)

instance : Neg Binary64 := ⟨neg⟩
instance : Add Binary64 := ⟨add⟩
instance : Sub Binary64 := ⟨sub⟩
instance : Mul Binary64 := ⟨mul⟩
instance : Div Binary64 := ⟨div⟩

/-- Strictly less; false if either side is a NaN. -/
def lt : Binary64 → Binary64 → Bool
  | .nan, _ | _, .nan => false
  | .infinity s, .infinity t => s && !t
  | .infinity s, .finite _ _ => s
  | .finite _ _, .infinity t => !t
  | .finite _ v, .finite _ w => v < w

/-- Less or equal; false if either side is a NaN. -/
def le : Binary64 → Binary64 → Bool
  | .nan, _ | _, .nan => false
  | .infinity s, .infinity t => s || !t
  | .infinity s, .finite _ _ => s
  | .finite _ _, .infinity t => !t
  | .finite _ v, .finite _ w => v ≤ w

/-- Clears the sign bit. -/
def abs : Binary64 → Binary64
  | .nan => .nan
  | .infinity _ => .infinity false
  | .finite _ v => .finite false (magnitude v)

/-- The greatest integer that is not above the number. Integers between two binary64 values are
    binary64 values, so nothing is rounded. -/
def floor : Binary64 → Binary64
  | .finite s v => .finite s v.floor
  | x => x

/-- The nearest integer, halves going away from zero. -/
def roundHalfAway : Binary64 → Binary64
  | .finite s v =>
    let n := (magnitude v + 1 / 2).floor
    .finite s (if v < 0 then -n else n)
  | x => x

/-- The smaller of two numbers; a NaN gives way to the other. -/
def min (x y : Binary64) : Binary64 :=
  if x.isNan then y else if lt y x then y else x

/-- Moves a number into `[low, high]`; a NaN stays. -/
def clamp (x low high : Binary64) : Binary64 :=
  if lt x low then low else if lt high x then high else x

/-- Drops the fraction and moves the integer into `[low, high]`; a NaN gives 0. -/
def truncateInto (low high : Int) : Binary64 → Int
  | .nan => 0
  | .infinity negative => if negative then low else high
  | .finite _ v =>
    let n := if v < 0 then -(-v).floor else v.floor
    max low (Min.min high n)

end KvmConsole.Binary64
