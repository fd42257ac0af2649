import KvmConsole.Binary64.Arithmetic
import KvmConsole.Binary64.Decimal
import KvmConsole.Json.Fault

/-!
# JSON numerals

`readNumeral` takes a number apart into sign, digits and exponent without looking at its size;
`Numeral.value` turns the parts into a number.

An integer that fits 64 bits is exact. Any other number is scaled: the leading digits, as many as
fit 64 unsigned bits, become a binary64 value, which is then multiplied or divided by a power of
ten. The two roundings are part of the result; a number that exceeds the binary64 range has no
value.
-/

namespace KvmConsole.Json

/-- The parts of a number: the digits before the point, those after it, and the exponent with its
    sign. -/
structure Numeral where
  negative : Bool
  whole : List Char
  fraction : Option (List Char)
  exponent : Option (Bool × List Char)
  deriving DecidableEq, Repr

/-- Splits off the digits at the front of a text. -/
def spanDigits (s : List Char) : List Char × List Char :=
  (s.takeWhile Char.isDigit, s.dropWhile Char.isDigit)

/-- The digits of an unsigned integer: a zero stands alone. -/
def readWhole : List Char → Except Fault (List Char × List Char)
  | [] => .error .truncated
  | c :: rest =>
    if c = '0' then
      match rest with
      | d :: _ => if d.isDigit then .error .ungrammatical else .ok ([c], rest)
      | [] => .ok ([c], rest)
    else if c.isDigit then
      let (digits, after) := spanDigits rest
      .ok (c :: digits, after)
    else .error .ungrammatical

/-- The point and the digits after it, of which there is at least one. -/
def readFraction : List Char → Except Fault (Option (List Char) × List Char)
  | '.' :: rest =>
    match spanDigits rest with
    | ([], []) => .error .truncated
    | ([], _ :: _) => .error .ungrammatical
    | (digits, after) => .ok (some digits, after)
  | s => .ok (none, s)

/-- The digits of an exponent, of which there is at least one. -/
def readExponentDigits (negative : Bool) (s : List Char) :
    Except Fault (Option (Bool × List Char) × List Char) :=
  match spanDigits s with
  | ([], []) => .error .truncated
  | ([], _ :: _) => .error .ungrammatical
  | (digits, after) => .ok (some (negative, digits), after)

/-- The exponent mark, a sign and the digits. -/
def readExponent : List Char → Except Fault (Option (Bool × List Char) × List Char)
  | c :: rest =>
    if c = 'e' ∨ c = 'E' then
      match rest with
      | '+' :: after => readExponentDigits false after
      | '-' :: after => readExponentDigits true after
      | _ => readExponentDigits false rest
    else .ok (none, c :: rest)
  | [] => .ok (none, [])

/-- Reads the number at the front of a text. -/
def readNumeral (s : List Char) : Except Fault (Numeral × List Char) := do
  let (negative, unsigned) :=
    match s with
    | '-' :: rest => (true, rest)
    | _ => (false, s)
  let (whole, s) ← readWhole unsigned
  let (fraction, s) ← readFraction s
  let (exponent, s) ← readExponent s
  return (⟨negative, whole, fraction, exponent⟩, s)

theorem length_of_spanDigits (s : List Char) : (spanDigits s).2.length ≤ s.length :=
  (List.dropWhile_sublist Char.isDigit).length_le

theorem length_of_readWhole {s rest digits : List Char} (h : readWhole s = .ok (digits, rest)) :
    rest.length < s.length := by
  unfold readWhole at h
  split at h
  · exact nomatch h
  · rename_i c t
    split at h
    · split at h
      · split at h
        · exact nomatch h
        · simp only [Except.ok.injEq, Prod.mk.injEq] at h
          obtain ⟨-, rfl⟩ := h
          simp
      · simp only [Except.ok.injEq, Prod.mk.injEq] at h
        obtain ⟨-, rfl⟩ := h
        simp
    · split at h
      · simp only [Except.ok.injEq, Prod.mk.injEq] at h
        obtain ⟨-, rfl⟩ := h
        have := length_of_spanDigits t
        simp only [List.length_cons]; omega
      · exact nomatch h

theorem length_of_readFraction {s rest : List Char} {digits : Option (List Char)}
    (h : readFraction s = .ok (digits, rest)) : rest.length ≤ s.length := by
  unfold readFraction at h
  split at h
  · rename_i t
    have := length_of_spanDigits t
    split at h
    · exact nomatch h
    · exact nomatch h
    · rename_i hs
      simp only [Except.ok.injEq, Prod.mk.injEq] at h
      obtain ⟨-, rfl⟩ := h
      simp only [hs] at this
      simp only [List.length_cons]; omega
  · simp only [Except.ok.injEq, Prod.mk.injEq] at h
    obtain ⟨-, rfl⟩ := h
    exact Nat.le_refl _

theorem length_of_readExponentDigits {negative : Bool} {s rest : List Char}
    {digits : Option (Bool × List Char)}
    (h : readExponentDigits negative s = .ok (digits, rest)) : rest.length ≤ s.length := by
  unfold readExponentDigits at h
  have := length_of_spanDigits s
  split at h
  · exact nomatch h
  · exact nomatch h
  · rename_i hs
    simp only [Except.ok.injEq, Prod.mk.injEq] at h
    obtain ⟨-, rfl⟩ := h
    simpa only [hs] using this

theorem length_of_readExponent {s rest : List Char} {digits : Option (Bool × List Char)}
    (h : readExponent s = .ok (digits, rest)) : rest.length ≤ s.length := by
  unfold readExponent at h
  split at h
  · split at h
    · split at h <;> have := length_of_readExponentDigits h <;>
        simp only [List.length_cons] at * <;> omega
    · simp only [Except.ok.injEq, Prod.mk.injEq] at h
      obtain ⟨-, rfl⟩ := h
      exact Nat.le_refl _
  · simp only [Except.ok.injEq, Prod.mk.injEq] at h
    obtain ⟨-, rfl⟩ := h
    exact Nat.le_refl _

/-- A number takes at least one character off the text. -/
theorem length_of_readNumeral {s rest : List Char} {n : Numeral}
    (h : readNumeral s = .ok (n, rest)) : rest.length < s.length := by
  have key : ∀ negative unsigned, unsigned.length ≤ s.length →
      (do
        let (whole, s) ← readWhole unsigned
        let (fraction, s) ← readFraction s
        let (exponent, s) ← readExponent s
        return (⟨negative, whole, fraction, exponent⟩, s) : Except Fault (Numeral × List Char)) =
        .ok (n, rest) → rest.length < s.length := by
    intro negative unsigned hu h
    simp only [bind, Except.bind, pure, Except.pure] at h
    split at h
    · exact nomatch h
    · rename_i hw
      split at h
      · exact nomatch h
      · rename_i hf
        split at h
        · exact nomatch h
        · rename_i he
          simp only [Except.ok.injEq, Prod.mk.injEq] at h
          obtain ⟨-, rfl⟩ := h
          have := length_of_readWhole hw
          have := length_of_readFraction hf
          have := length_of_readExponent he
          omega
  unfold readNumeral at h
  split at h
  · rename_i hs
    split at hs
    · simp only [Prod.mk.injEq] at hs
      obtain ⟨-, rfl⟩ := hs
      exact key _ _ (by simp) h
    · simp only [Prod.mk.injEq] at hs
      obtain ⟨-, rfl⟩ := hs
      exact key _ _ (Nat.le_refl _) h

namespace Numeral

def digitValue (c : Char) : Nat := c.toNat - '0'.toNat

/-- Appends digits to a number as long as it stays below `2 ^ 64`; the second part counts the digits
    taken, the third the digits left. -/
def appendDigits (start : Nat) : List Char → Nat × Nat × Nat
  | [] => (start, 0, 0)
  | c :: rest =>
    let next := start * 10 + digitValue c
    if next < UInt64.size then
      let (total, taken, left) := appendDigits next rest
      (total, taken + 1, left)
    else (start, 0, rest.length + 1)

/-- The value of a digit sequence, if it is below `2 ^ 31`. -/
def smallValue? (digits : List Char) : Option Nat :=
  let n := digits.foldl (fun acc c => acc * 10 + digitValue c) 0
  if n < 2147483648 then some n else none

/-- Divides by ten to the power `n`, at most 308 at a time. -/
def divideByPower (x : Binary64) (n : Nat) : Binary64 :=
  if n ≤ 308 then x / Binary64.ofRat (Binary64.powerOfTen n)
  else if x.toRat = 0 then x
  else divideByPower (x / Binary64.ofRat (Binary64.powerOfTen 308)) (n - 308)
termination_by n

/-- The unsigned number `significand · 10 ^ power`, unless it exceeds the range. -/
def scaled? (significand : Nat) (power : Int) : Option Binary64 :=
  let x := Binary64.ofNat significand
  if power < 0 then some (divideByPower x (-power).toNat)
  else if 308 < power then
    if significand = 0 then some x else none
  else
    let y := x * Binary64.ofRat (Binary64.powerOfTen power)
    if y.isFinite then some y else none

/-- The unsigned value of a numeral that is not an exact integer. -/
def magnitude? (n : Numeral) : Option Binary64 :=
  let (start, _, dropped) := appendDigits 0 n.whole
  let (significand, taken, _) := appendDigits start (n.fraction.getD [])
  let power : Int := dropped - taken
  match n.exponent with
  | none => scaled? significand power
  | some (negative, digits) =>
    match smallValue? digits with
    | some e => scaled? significand (if negative then power - e else power + e)
    | none => if significand ≠ 0 ∧ ¬negative then none else some 0

/-- The number that a numeral stands for. A numeral beyond the binary64 range is refused as if it
    were not grammatical. -/
def value (n : Numeral) : Except Fault Number :=
  let total := n.whole.foldl (fun acc c => acc * 10 + digitValue c) 0
  let integral := n.fraction.isNone && n.exponent.isNone
  if integral ∧ ¬n.negative ∧ total < UInt64.size then .ok (.natural (UInt64.ofNat total))
  else if integral ∧ n.negative ∧ 0 < total ∧ total ≤ 9223372036854775808 then
    .ok (.negative (Int64.ofInt (-(total : Int))))
  else
    match n.magnitude? with
    | some x => .ok (.float (if n.negative then -x else x))
    | none => .error .ungrammatical

end Numeral

end KvmConsole.Json
