import KvmConsole.Binary64.Basic
import Mathlib.Algebra.Order.Field.Power
import Mathlib.Data.Rat.Floor
import Mathlib.Tactic.FieldSimp
import Mathlib.Tactic.Linarith
import Mathlib.Tactic.Positivity
import Mathlib.Tactic.Ring

/-!
# Rounding to binary64

What one rounding does to an exact value. Around each value the binary64 values form an even grid,
whose spacing depends on the leading bit. Rounding goes to the nearest point of the grid, so it
keeps the order, leaves binary64 values alone, and is off by half a spacing at most.

Key results:
* `roundsTo_roundHalfEven`, `RoundsTo.le`: the nearest integer, and its order.
* `exponent_spec`: the leading bit.
* `abs_nearest_sub_le`: a rounding is off by half a spacing.
* `nearest_mono`: rounding keeps the order.
* `isExact_of_abs_le`, `IsExact.exists_grid`: the points of the grids are the binary64 values.
* `nearest_of_isExact`, `isExact_nearest`: what is left alone.
-/

namespace KvmConsole.Binary64

/-- The powers the model computes are those of the rationals. -/
theorem powerOfTwo_eq (e : ℤ) : powerOfTwo e = 2 ^ e := by
  cases e with
  | ofNat n => simp [powerOfTwo]
  | negSucc n => simp [powerOfTwo, Rat.mkRat_eq_div, zpow_negSucc]

/-- The magnitude is the absolute value. -/
theorem magnitude_eq (q : ℚ) : magnitude q = |q| := by
  unfold magnitude
  split
  · rw [abs_of_neg ‹_›]
  · rw [abs_of_nonneg (not_lt.mp ‹_›)]

/-! ## The nearest integer -/

/-- No integer is nearer to `x` than `n`, and `n` is the even one of two that are equally near. -/
structure RoundsTo (x : ℚ) (n : ℤ) : Prop where
  near : |x - n| ≤ 1 / 2
  even : |x - n| = 1 / 2 → n % 2 = 0

/-- The rounding meets its specification. -/
theorem roundsTo_roundHalfEven (q : ℚ) : RoundsTo q (roundHalfEven q) := by
  have hle : (q.floor : ℚ) ≤ q := Rat.floor_le q
  have hlt : q < q.floor + 1 := by exact_mod_cast Rat.lt_floor_add_one q
  simp only [roundHalfEven]
  split
  · -- The integer below is strictly nearer than the next one.
    have habs : |q - q.floor| = q - q.floor := abs_of_nonneg (by linarith)
    refine ⟨by rw [habs]; linarith, fun h => ?_⟩
    rw [habs] at h
    linarith
  · split
    · have habs : |q - (q.floor + 1 : ℤ)| = q.floor + 1 - q := by
        rw [abs_of_nonpos (by push_cast; linarith)]
        push_cast
        ring
      refine ⟨by rw [habs]; linarith, fun h => ?_⟩
      rw [habs] at h
      linarith
    · -- A tie: the integer below is taken if it is even, and else the one after it.
      have hhalf : q - q.floor = 1 / 2 := by linarith
      rcases Int.emod_two_eq_zero_or_one q.floor with heven | hodd
      · rw [heven, add_zero]
        exact ⟨by rw [hhalf]; norm_num, fun _ => heven⟩
      · rw [hodd]
        refine ⟨?_, fun _ => by omega⟩
        push_cast
        rw [show q - (q.floor + 1) = -(1 / 2) by linarith, abs_neg]
        norm_num

/-- Rounding to integers keeps the order. -/
theorem RoundsTo.le {x y : ℚ} {m n : ℤ} (hx : RoundsTo x m) (hy : RoundsTo y n) (h : x ≤ y) :
    m ≤ n := by
  by_contra hlt
  have hnear := abs_le.mp hx.near
  have hnear' := abs_le.mp hy.near
  have hstep : (n : ℚ) + 1 ≤ m := by exact_mod_cast not_le.mp hlt
  -- Both numbers can only be the middle between neighbours, which would both be even.
  have hmiddle : x - m = -(1 / 2) := by linarith
  have hmiddle' : y - n = 1 / 2 := by linarith
  have heven := hx.even (by rw [hmiddle]; norm_num)
  have heven' := hy.even (by rw [hmiddle']; norm_num)
  have hnext : m = n + 1 := by
    have : (m : ℚ) = n + 1 := by linarith
    exact_mod_cast this
  omega

/-- A number rounds to one integer only. -/
private theorem RoundsTo.eq {x : ℚ} {m n : ℤ} (h : RoundsTo x m) (h' : RoundsTo x n) : m = n :=
  le_antisymm (h.le h' le_rfl) (h'.le h le_rfl)

/-- An integer rounds to itself. -/
theorem roundsTo_intCast (n : ℤ) : RoundsTo n n := by
  constructor <;> norm_num

/-- Rounding does not fall below zero. -/
theorem RoundsTo.nonneg {x : ℚ} {n : ℤ} (h : RoundsTo x n) (hx : 0 ≤ x) : 0 ≤ n := by
  apply (roundsTo_intCast 0).le h
  rwa [Int.cast_zero]

/-- The two signs round alike. -/
theorem RoundsTo.neg {x : ℚ} {n : ℤ} (h : RoundsTo x n) : RoundsTo (-x) (-n) := by
  have habs : |-x - (-n : ℤ)| = |x - n| := by
    rw [← abs_neg]
    push_cast
    congr 1
    ring
  constructor
  · rw [habs]
    exact h.near
  · intro hhalf
    rw [habs] at hhalf
    have heven := h.even hhalf
    omega

/-- An integer is left alone. -/
private theorem roundHalfEven_intCast (n : ℤ) : roundHalfEven n = n :=
  (roundsTo_roundHalfEven n).eq (roundsTo_intCast n)

/-- The nearest integer changes its sign with the number. -/
private theorem roundHalfEven_neg (q : ℚ) : roundHalfEven (-q) = -roundHalfEven q :=
  (roundsTo_roundHalfEven (-q)).eq (roundsTo_roundHalfEven q).neg

/-- The nearest integer rises with the number. -/
private theorem roundHalfEven_mono {x y : ℚ} (h : x ≤ y) : roundHalfEven x ≤ roundHalfEven y :=
  (roundsTo_roundHalfEven x).le (roundsTo_roundHalfEven y) h

/-! ## The leading bit -/

/-- The guess from the leading bits of numerator and denominator is right or too high by one. -/
private theorem guess_spec {q : ℚ} (hq : q ≠ 0) :
    (2 : ℚ) ^ ((q.num.natAbs.log2 : ℤ) - q.den.log2 - 1) < |q| ∧
      |q| < 2 ^ ((q.num.natAbs.log2 : ℤ) - q.den.log2 + 1) := by
  -- Numerator and denominator each lie between two neighbouring powers of two, and so their
  -- quotient lies between powers that are two places apart.
  have hnum : q.num.natAbs ≠ 0 := by simpa using hq
  have hlow : ((2 ^ q.num.natAbs.log2 : ℕ) : ℚ) ≤ q.num.natAbs := by
    exact_mod_cast Nat.log2_self_le hnum
  have hhigh : (q.num.natAbs : ℚ) < ((2 ^ (q.num.natAbs.log2 + 1) : ℕ) : ℚ) := by
    exact_mod_cast Nat.lt_log2_self
  have hlow' : ((2 ^ q.den.log2 : ℕ) : ℚ) ≤ q.den := by exact_mod_cast Nat.log2_self_le q.den_nz
  have hhigh' : (q.den : ℚ) < ((2 ^ (q.den.log2 + 1) : ℕ) : ℚ) := by
    exact_mod_cast Nat.lt_log2_self
  have hden : (0 : ℚ) < q.den := by exact_mod_cast q.den_pos
  have habs : |q| = q.num.natAbs / q.den := by
    conv_lhs => rw [← Rat.num_div_den q]
    rw [abs_div, abs_of_pos hden, Nat.cast_natAbs, Int.cast_abs]
  push_cast at hlow hhigh hlow' hhigh'
  have htwo : (2 : ℚ) ≠ 0 := two_ne_zero
  rw [habs]
  constructor
  · rw [lt_div_iff₀ hden, sub_sub, zpow_sub₀ htwo, div_mul_eq_mul_div, div_lt_iff₀ (by positivity)]
    norm_cast
    norm_cast at hlow hhigh'
    calc 2 ^ q.num.natAbs.log2 * q.den < 2 ^ q.num.natAbs.log2 * 2 ^ (q.den.log2 + 1) := by gcongr
      _ ≤ q.num.natAbs * 2 ^ (q.den.log2 + 1) := by gcongr
  · rw [div_lt_iff₀ hden, sub_add_eq_add_sub, zpow_sub₀ htwo, div_mul_eq_mul_div,
      lt_div_iff₀ (by positivity)]
    norm_cast
    norm_cast at hhigh hlow'
    calc q.num.natAbs * 2 ^ q.den.log2 < 2 ^ (q.num.natAbs.log2 + 1) * 2 ^ q.den.log2 := by gcongr
      _ ≤ 2 ^ (q.num.natAbs.log2 + 1) * q.den := by gcongr

/-- The exponent is the place of the leading bit. -/
theorem exponent_spec {q : ℚ} (hq : q ≠ 0) :
    (2 : ℚ) ^ exponent q ≤ |q| ∧ |q| < 2 ^ (exponent q + 1) := by
  obtain ⟨hlow, hhigh⟩ := guess_spec hq
  unfold exponent
  simp only [powerOfTwo_eq, magnitude_eq]
  split
  · exact ⟨‹_›, hhigh⟩
  · rw [sub_add_cancel]
    exact ⟨hlow.le, not_le.mp ‹_›⟩

/-- A power of two below a number has no larger exponent. -/
theorem le_exponent_iff {q : ℚ} (hq : q ≠ 0) {e : ℤ} : e ≤ exponent q ↔ (2 : ℚ) ^ e ≤ |q| := by
  obtain ⟨hlow, hhigh⟩ := exponent_spec hq
  constructor
  · intro h
    exact (zpow_le_zpow_right₀ one_le_two h).trans hlow
  · intro h
    have := (zpow_lt_zpow_iff_right₀ one_lt_two).mp (h.trans_lt hhigh)
    omega

/-- A power of two above a number has a larger exponent. -/
theorem exponent_lt_iff {q : ℚ} (hq : q ≠ 0) {e : ℤ} : exponent q < e ↔ |q| < (2 : ℚ) ^ e := by
  rw [← not_le, le_exponent_iff hq, not_le]

/-- A number with a smaller leading bit has no wider spacing around it. -/
private theorem quantum_le_of_abs_lt {q : ℚ} (hq : q ≠ 0) {e : ℤ} (he : -1021 ≤ e)
    (h : |q| < 2 ^ e) :
    quantum q ≤ e - 53 := by
  have hlt := (exponent_lt_iff hq).mpr h
  unfold quantum
  omega

/-- Where the leading bit stands 52 places above `k`, the spacing is two to the `k`. -/
theorem quantum_eq_of_abs {q : ℚ} {k : ℤ} (hk : -1074 ≤ k) (hlow : 2 ^ (k + 52) ≤ |q|)
    (hhigh : |q| < 2 ^ (k + 53)) : quantum q = k := by
  have hq : q ≠ 0 := by
    rintro rfl
    rw [abs_zero] at hlow
    exact absurd hlow (not_le.mpr (by positivity))
  have hle := (le_exponent_iff hq).mpr hlow
  have hlt := (exponent_lt_iff hq).mpr hhigh
  unfold quantum
  omega

/-- The spacing does not depend on the sign. -/
private theorem quantum_neg (q : ℚ) : quantum (-q) = quantum q := by
  simp [quantum, exponent, magnitude_eq]

/-! ## The grid around a number -/

/-- The nearest binary64 value is the nearest point of the grid around a number. -/
theorem nearest_eq (q : ℚ) :
    nearest q = roundHalfEven (q / 2 ^ quantum q) * 2 ^ quantum q := by
  simp only [nearest, powerOfTwo_eq]
  split
  · rename_i hzero
    have hround : roundHalfEven 0 = 0 := roundHalfEven_intCast 0
    rw [hzero, zero_div, hround]
    simp
  · rfl

/-- Zero is its own nearest value. -/
@[simp] theorem nearest_zero : nearest 0 = 0 := rfl

/-- The nearest value changes its sign with the number. -/
theorem nearest_neg (q : ℚ) : nearest (-q) = -nearest q := by
  rw [nearest_eq, nearest_eq, quantum_neg, neg_div, roundHalfEven_neg]
  push_cast
  ring

/-- A rounding is off by half a spacing at most. -/
theorem abs_nearest_sub_le (q : ℚ) : |nearest q - q| ≤ 2 ^ quantum q / 2 := by
  have hpos : (0 : ℚ) < 2 ^ quantum q := by positivity
  have hnear := (roundsTo_roundHalfEven (q / 2 ^ quantum q)).near
  have hscale : nearest q - q =
      -((q / 2 ^ quantum q - roundHalfEven (q / 2 ^ quantum q)) * 2 ^ quantum q) := by
    rw [nearest_eq]
    field_simp
    ring
  have hbound := mul_le_mul_of_nonneg_right hnear hpos.le
  rw [hscale, abs_neg, abs_mul, abs_of_pos hpos]
  linarith

/-- A point of the grid around a number is not passed by its rounding. -/
private theorem nearest_le_of_le_grid {q : ℚ} {n : ℤ} (h : q ≤ n * 2 ^ quantum q) :
    nearest q ≤ n * 2 ^ quantum q := by
  have hpos : (0 : ℚ) < 2 ^ quantum q := by positivity
  have hle : roundHalfEven (q / 2 ^ quantum q) ≤ n := by
    rw [← roundHalfEven_intCast n]
    exact roundHalfEven_mono ((div_le_iff₀ hpos).mpr h)
  rw [nearest_eq]
  gcongr

/-- A point of the grid below a number is below its nearest value. -/
private theorem le_nearest_of_grid_le {q : ℚ} {n : ℤ} (h : n * 2 ^ quantum q ≤ q) :
    n * 2 ^ quantum q ≤ nearest q := by
  have hneg : nearest (-q) ≤ (-n : ℤ) * 2 ^ quantum (-q) := by
    apply nearest_le_of_le_grid
    rw [quantum_neg]
    push_cast
    linarith
  rw [nearest_neg, quantum_neg] at hneg
  push_cast at hneg
  linarith

/-- Rounding does not fall below zero. -/
theorem nearest_nonneg {q : ℚ} (h : 0 ≤ q) : 0 ≤ nearest q := by
  have hgrid := le_nearest_of_grid_le (q := q) (n := 0) (by simpa using h)
  simpa using hgrid

/-- A power of two is on every grid that is no wider. -/
theorem zpow_mul_grid {e k : ℤ} (h : k ≤ e) :
    ((2 ^ (e - k).toNat : ℤ) : ℚ) * 2 ^ k = 2 ^ e := by
  rw [Int.cast_pow, Int.cast_ofNat, ← zpow_natCast, ← zpow_add₀ two_ne_zero]
  congr 1
  omega

/-- Rounding keeps the order of numbers that are not negative. Where the spacing changes between
    two numbers, there is a power of two between them, and it is on both grids. -/
private theorem nearest_le_nearest_of_nonneg {x y : ℚ} (hx : 0 ≤ x) (h : x ≤ y) :
    nearest x ≤ nearest y := by
  rcases hx.eq_or_lt with rfl | hpos
  · rw [nearest_zero]
    exact nearest_nonneg h
  have hposy : 0 < y := hpos.trans_le h
  have habs : |x| = x := abs_of_pos hpos
  have habsy : |y| = y := abs_of_pos hposy
  have hexponent : exponent x ≤ exponent y := by
    rw [le_exponent_iff hposy.ne', habsy]
    exact ((exponent_spec hpos.ne').1.trans_eq habs).trans h
  rcases eq_or_ne (quantum x) (quantum y) with hsame | hne
  · -- On one grid the nearest integers decide.
    have hscale : (0 : ℚ) < 2 ^ quantum y := by positivity
    rw [nearest_eq, nearest_eq, hsame]
    have hround : roundHalfEven (x / 2 ^ quantum y) ≤ roundHalfEven (y / 2 ^ quantum y) :=
      roundHalfEven_mono (by gcongr)
    gcongr
  · -- On different grids the power of two at the leading bit of the larger number is between them,
    -- and it is a point of both grids.
    have hlt : exponent x < exponent y := by
      unfold quantum at hne
      omega
    have hlex : quantum x ≤ exponent y := by
      unfold quantum at hne ⊢
      omega
    have hley : quantum y ≤ exponent y := by
      unfold quantum at hne ⊢
      omega
    calc nearest x ≤ 2 ^ exponent y := by
          rw [← zpow_mul_grid hlex]
          apply nearest_le_of_le_grid
          rw [zpow_mul_grid hlex, ← habs]
          exact ((exponent_lt_iff hpos.ne').mp hlt).le
      _ ≤ nearest y := by
          rw [← zpow_mul_grid hley]
          apply le_nearest_of_grid_le
          rw [zpow_mul_grid hley]
          exact (exponent_spec hposy.ne').1.trans_eq habsy

/-- Rounding keeps the order. -/
theorem nearest_mono {x y : ℚ} (h : x ≤ y) : nearest x ≤ nearest y := by
  rcases le_total 0 x with hx | hx
  · exact nearest_le_nearest_of_nonneg hx h
  · rcases le_total 0 y with hy | hy
    · have hneg := nearest_nonneg (neg_nonneg.mpr hx)
      rw [nearest_neg] at hneg
      linarith [nearest_nonneg hy]
    · have hflip := nearest_le_nearest_of_nonneg (neg_nonneg.mpr hy) (neg_le_neg h)
      rw [nearest_neg, nearest_neg] at hflip
      linarith

/-! ## What is left alone -/

/-- The number has a binary64 significand, and its exponent is not below the range. -/
def IsExact (q : ℚ) : Prop := ∃ m k : ℤ, -1074 ≤ k ∧ |m| ≤ 2 ^ 53 ∧ q = m * 2 ^ k

/-- The significand can be taken to have 53 bits. -/
private theorem IsExact.exists_lt {q : ℚ} (h : IsExact q) :
    ∃ m k : ℤ, -1074 ≤ k ∧ |m| < 2 ^ 53 ∧ q = m * 2 ^ k := by
  obtain ⟨m, k, hk, hm, rfl⟩ := h
  rcases hm.lt_or_eq with hlt | heq
  · exact ⟨m, k, hk, hlt, rfl⟩
  · -- The one significand that is longer is a power of two.
    have heven : m = m / 2 * 2 := by
      rcases abs_cases m with ⟨h, -⟩ | ⟨h, -⟩ <;> omega
    refine ⟨m / 2, k + 1, by omega, ?_, ?_⟩
    · rw [abs_lt]
      rw [abs_eq (by norm_num)] at heq
      omega
    · rw [zpow_add_one₀ two_ne_zero]
      conv_lhs => rw [heven]
      push_cast
      ring

/-- A number is below the power of two that is as many places up as its significand has bits. -/
private theorem abs_mul_zpow_lt {m : ℤ} (hm : |m| < 2 ^ 53) (k : ℤ) :
    |(m * 2 ^ k : ℚ)| < 2 ^ (k + 53) := by
  have hpos : (0 : ℚ) < 2 ^ k := by positivity
  have hm' : |(m : ℚ)| < 2 ^ 53 := by exact_mod_cast hm
  rw [abs_mul, abs_of_pos hpos, zpow_add₀ two_ne_zero, mul_comm]
  gcongr
  exact_mod_cast hm'

/-- The points of a grid are binary64 values as far as 53 bits reach. -/
theorem isExact_of_abs_le {m k : ℤ} (hk : -1074 ≤ k) (h : |(m * 2 ^ k : ℚ)| ≤ 2 ^ (k + 53)) :
    IsExact (m * 2 ^ k) := by
  have hpos : (0 : ℚ) < 2 ^ k := by positivity
  refine ⟨m, k, hk, ?_, rfl⟩
  rw [abs_mul, abs_of_pos hpos, zpow_add₀ two_ne_zero, mul_comm] at h
  have hle := le_of_mul_le_mul_left h hpos
  exact_mod_cast hle

/-- Beyond a power of two, the binary64 values are on the grid that goes with it. -/
theorem IsExact.exists_grid {q : ℚ} (h : IsExact q) {e : ℤ} (he : 2 ^ e ≤ |q|) :
    ∃ m : ℤ, q = m * 2 ^ (e - 52) := by
  obtain ⟨m, k, -, hm, rfl⟩ := h.exists_lt
  have hlt := (zpow_lt_zpow_iff_right₀ one_lt_two).mp (he.trans_lt (abs_mul_zpow_lt hm k))
  refine ⟨m * 2 ^ (k - (e - 52)).toNat, ?_⟩
  rw [Int.cast_mul, mul_assoc, zpow_mul_grid (by omega)]

/-- A binary64 value is left alone. -/
theorem nearest_of_isExact {q : ℚ} (h : IsExact q) : nearest q = q := by
  obtain ⟨m, k, hk, hm, rfl⟩ := h.exists_lt
  rcases eq_or_ne ((m : ℚ) * 2 ^ k) 0 with hzero | hne
  · rw [hzero, nearest_zero]
  -- The spacing is not wider than the last place of the significand.
  have hquantum : quantum (m * 2 ^ k : ℚ) ≤ k := by
    have hle := quantum_le_of_abs_lt hne (by omega) (abs_mul_zpow_lt hm k)
    omega
  -- So the number itself is a point of its grid.
  have hpoint : (m * 2 ^ k : ℚ) / 2 ^ quantum (m * 2 ^ k : ℚ) =
      ((m * 2 ^ (k - quantum (m * 2 ^ k : ℚ)).toNat : ℤ) : ℚ) := by
    rw [mul_div_assoc, ← zpow_sub₀ two_ne_zero]
    push_cast
    rw [← zpow_natCast, Int.toNat_of_nonneg (by omega)]
  rw [nearest_eq, hpoint, roundHalfEven_intCast, ← hpoint]
  field_simp

/-- A rounding does not pass a binary64 value. -/
theorem nearest_le_of_le {b q : ℚ} (hb : IsExact b) (h : q ≤ b) : nearest q ≤ b :=
  (nearest_mono h).trans_eq (nearest_of_isExact hb)

/-- A binary64 value below a number is below its rounding. -/
theorem le_nearest_of_le {b q : ℚ} (hb : IsExact b) (h : b ≤ q) : b ≤ nearest q :=
  (nearest_of_isExact hb).symm.trans_le (nearest_mono h)

/-- The negative of a binary64 value is one. -/
theorem IsExact.neg {q : ℚ} (h : IsExact q) : IsExact (-q) := by
  obtain ⟨m, k, hk, hm, rfl⟩ := h
  refine ⟨-m, k, hk, by rwa [abs_neg], ?_⟩
  push_cast
  ring

/-- A binary64 value bounds the rounding of what it bounds. -/
theorem abs_nearest_le {b q : ℚ} (hb : IsExact b) (h : |q| ≤ b) : |nearest q| ≤ b := by
  obtain ⟨hlow, hhigh⟩ := abs_le.mp h
  exact abs_le.mpr ⟨le_nearest_of_le hb.neg hlow, nearest_le_of_le hb hhigh⟩

/-- A power of two is a binary64 value, down to the least subnormal. -/
theorem isExact_zpow {e : ℤ} (h : -1074 ≤ e) : IsExact (2 ^ e) :=
  ⟨1, e, h, by norm_num, by simp⟩

/-- A rounding gives a binary64 value. -/
theorem isExact_nearest (q : ℚ) : IsExact (nearest q) := by
  have hleast : -1074 ≤ quantum q := le_max_left _ _
  -- The grid reaches just past the leading bit, by which the significand stays short enough.
  have hbound : |q| ≤ 2 ^ (quantum q + 53) := by
    rcases eq_or_ne q 0 with rfl | hq
    · rw [abs_zero]
      positivity
    · calc |q| ≤ 2 ^ (exponent q + 1) := (exponent_spec hq).2.le
        _ ≤ 2 ^ (quantum q + 53) := by
            apply zpow_le_zpow_right₀ one_le_two
            unfold quantum
            omega
  have hround := abs_nearest_le (isExact_zpow (by omega)) hbound
  rw [nearest_eq] at hround ⊢
  exact isExact_of_abs_le hleast hround

/-- An integer of at most 53 bits is a binary64 value. -/
theorem isExact_intCast {n : ℤ} (h : |n| ≤ 2 ^ 53) : IsExact n :=
  ⟨n, 0, by norm_num, h, by simp⟩

/-- The halves of integers are binary64 values. -/
theorem isExact_of_two_mul {q : ℚ} (m : ℤ) (hm : |m| ≤ 2 ^ 53) (h : 2 * q = m) : IsExact q := by
  refine ⟨m, -1, by norm_num, hm, ?_⟩
  rw [zpow_neg_one]
  linarith

/-! ## How far a rounding is off -/

/-- Up to `2 ^ e` a rounding is off by half the spacing below `2 ^ e` at most. -/
theorem abs_nearest_sub_le_of_abs_le {q : ℚ} {e : ℤ} (he : -1021 ≤ e) (h : |q| ≤ 2 ^ e) :
    |nearest q - q| ≤ 2 ^ (e - 54) := by
  have hself (hq : IsExact q) : |nearest q - q| ≤ 2 ^ (e - 54) := by
    rw [nearest_of_isExact hq, sub_self, abs_zero]
    positivity
  rcases eq_or_ne q 0 with hzero | hne
  · exact hself (hzero ▸ isExact_intCast (n := 0) (by norm_num))
  rcases h.eq_or_lt with heq | hlt
  · -- The bound itself is a binary64 value.
    have hexact := isExact_zpow (e := e) (by omega)
    rcases abs_eq_abs.mp (heq.trans (abs_of_pos (by positivity)).symm) with h | h
    · exact hself (h ▸ hexact)
    · exact hself (h ▸ hexact.neg)
  · have hquantum := quantum_le_of_abs_lt hne he hlt
    calc |nearest q - q| ≤ 2 ^ quantum q / 2 := abs_nearest_sub_le q
      _ ≤ 2 ^ (e - 53) / 2 := by
          gcongr
          exact one_le_two
      _ = 2 ^ (e - 54) := by
          rw [show e - 53 = e - 54 + 1 by ring, zpow_add_one₀ two_ne_zero]
          ring

/-- In the range of full significands, a rounding is off by a small part of the number. -/
theorem abs_nearest_sub_le_mul {q : ℚ} (h : 2 ^ (-1022 : ℤ) ≤ |q|) :
    |nearest q - q| ≤ |q| / 2 ^ 53 := by
  have hq : q ≠ 0 := by
    rintro rfl
    rw [abs_zero] at h
    exact absurd h (not_le.mpr (by positivity))
  -- The number is a normal one: its spacing follows from the leading bit.
  have hquantum : quantum q = exponent q - 52 := by
    have := (le_exponent_iff hq).mpr h
    unfold quantum
    omega
  calc |nearest q - q| ≤ 2 ^ quantum q / 2 := abs_nearest_sub_le q
    _ = 2 ^ exponent q / 2 ^ 53 := by
        rw [hquantum, zpow_sub₀ two_ne_zero]
        norm_num
        ring
    _ ≤ |q| / 2 ^ 53 := by
        gcongr
        exact (exponent_spec hq).1

/-- A number that is less than half a spacing below a point of the grid around it does not round to
    less than that point. -/
theorem le_nearest_of_near {q : ℚ} {n k : ℤ} (hk : -1074 ≤ k) (hlow : 2 ^ (k + 52) ≤ |q|)
    (hhigh : |q| < 2 ^ (k + 53)) (h : n * 2 ^ k - 2 ^ k / 2 < q) : n * 2 ^ k ≤ nearest q := by
  have hpos : (0 : ℚ) < 2 ^ k := by positivity
  -- Measured in the spacing, the number is less than half a step below the integer.
  have hquantum := quantum_eq_of_abs hk hlow hhigh
  have hnear := (abs_le.mp (roundsTo_roundHalfEven (q / 2 ^ k)).near).2
  have hhalf : (n : ℚ) - 1 / 2 < q / 2 ^ k := by
    rw [lt_div_iff₀ hpos]
    linarith
  have hlt : (n : ℚ) < roundHalfEven (q / 2 ^ k) + 1 := by linarith
  have hle : n ≤ roundHalfEven (q / 2 ^ k) := by
    have : n < roundHalfEven (q / 2 ^ k) + 1 := by exact_mod_cast hlt
    omega
  rw [nearest_eq, hquantum]
  gcongr

end KvmConsole.Binary64
