import KvmConsole.Binary64.Arithmetic
import KvmConsole.Proofs.Binary64.Rounding

/-!
# Arithmetic on finite numbers

An operation on finite numbers gives the exact result, rounded once, as long as it stays within the
range. `HasValue` leaves the sign of a zero open, so that exact zeros are no special case.

Key results:
* `hasValue_ofRat`: a rounding within the range.
* `HasValue.add`, `HasValue.sub`, `HasValue.mul`, `HasValue.div`: one rounding for each operation.
* `HasValue.floor`, `HasValue.roundHalfAway`, `HasValue.min`, `HasValue.clamp`: no rounding at all.
-/

namespace KvmConsole.Binary64

/-- The datum is finite and has the value. -/
def HasValue (x : Binary64) (v : ℚ) : Prop := ∃ negative, x = .finite negative v

variable {x y : Binary64} {v w : ℚ}

/-! ## Roundings within the range -/

/-- The numbers that are kept away from the infinities. -/
def InRange (q : ℚ) : Prop := |q| ≤ 2 ^ (1023 : ℤ)

/-- Numbers of 32-bit and 64-bit arithmetic, and their products, are far within the range. -/
theorem inRange_of_le {q : ℚ} (h : |q| ≤ 2 ^ 128) : InRange q := by
  calc |q| ≤ 2 ^ (128 : ℤ) := by exact_mod_cast h
    _ ≤ 2 ^ (1023 : ℤ) := zpow_le_zpow_right₀ one_le_two (by norm_num)

/-- Within the range a number is rounded to its nearest binary64 value and does not overflow. -/
theorem hasValue_ofRat {q : ℚ} (h : InRange q) : (ofRat q).HasValue (nearest q) := by
  have hlt : |nearest q| < 2 ^ (1024 : ℤ) := by
    calc |nearest q| ≤ 2 ^ (1023 : ℤ) := abs_nearest_le (isExact_zpow (by norm_num)) h
      _ < 2 ^ (1024 : ℤ) := zpow_lt_zpow_right₀ one_lt_two (by norm_num)
  refine ⟨decide (q < 0), ?_⟩
  simp only [ofRat, powerOfTwo_eq, magnitude_eq]
  rw [if_neg (not_le.mpr hlt)]

/-- An integer of 53 bits is not rounded. -/
theorem hasValue_ofInt {n : ℤ} (h : |n| ≤ 2 ^ 53) : (ofInt n).HasValue n := by
  have hrange : InRange n := by
    apply inRange_of_le
    calc |(n : ℚ)| ≤ 2 ^ 53 := by exact_mod_cast h
      _ ≤ 2 ^ 128 := by norm_num
  have hround := hasValue_ofRat hrange
  rwa [nearest_of_isExact (isExact_intCast h)] at hround

/-- The datum of an integer of 53 bits. -/
theorem ofInt_eq {n : ℤ} (h : |n| ≤ 2 ^ 53) : ofInt n = .finite (decide (n < 0)) n := by
  obtain ⟨s, hs⟩ := hasValue_ofInt h
  rw [hs]
  simp only [ofInt, ofRat] at hs
  split at hs
  · cases hs
  · injection hs with hsign
    simp [← hsign]

/-- A word of 64 bits is within the range. -/
theorem hasValue_ofNat {n : ℕ} (h : n < 2 ^ 64) : (ofNat n).HasValue (nearest n) := by
  apply hasValue_ofRat
  apply inRange_of_le
  rw [abs_of_nonneg n.cast_nonneg]
  calc (n : ℚ) ≤ 2 ^ 64 := by exact_mod_cast h.le
    _ ≤ 2 ^ 128 := by norm_num

/-- A 64-bit count rounds to a number that is at most the next power of two. -/
theorem nearest_natCast_le {n : ℕ} (h : n < 2 ^ 64) : nearest n ≤ 2 ^ 64 := by
  have hexact : IsExact (2 ^ 64) := by exact_mod_cast isExact_zpow (e := 64) (by norm_num)
  apply nearest_le_of_le hexact
  exact_mod_cast h.le

/-- A count of at most 53 bits is a binary64 value. -/
theorem isExact_natCast {n : ℕ} (h : n ≤ 2 ^ 53) : IsExact n := by
  have habs : |(n : ℤ)| ≤ 2 ^ 53 := by
    rw [abs_of_nonneg n.cast_nonneg]
    exact_mod_cast h
  exact_mod_cast isExact_intCast habs

/-- A natural number of 53 bits is not rounded. -/
theorem hasValue_ofNat_of_le {n : ℕ} (h : n ≤ 2 ^ 53) : (ofNat n).HasValue n := by
  have hround := hasValue_ofNat (n := n) (by omega)
  rwa [nearest_of_isExact (isExact_natCast h)] at hround

/-- The numeral stands for its number. -/
theorem hasValue_zero : (0 : Binary64).HasValue 0 := by
  exact_mod_cast hasValue_ofNat_of_le (Nat.zero_le (2 ^ 53))

/-- A finite number has the value it converts to. -/
theorem hasValue_toRat (h : x.isFinite) : x.HasValue x.toRat := by
  cases x with
  | nan | infinity _ => cases h
  | finite s v => exact ⟨s, rfl⟩

/-! ## Operations -/

namespace HasValue

/-- A negation is exact. -/
theorem neg (hx : x.HasValue v) : (-x).HasValue (-v) := by
  obtain ⟨s, rfl⟩ := hx
  exact ⟨!s, rfl⟩

/-- An absolute value is exact. -/
theorem abs (hx : x.HasValue v) : x.abs.HasValue |v| := by
  obtain ⟨s, rfl⟩ := hx
  exact ⟨false, congrArg _ (magnitude_eq v)⟩

/-- The sum is rounded once. -/
theorem add (hx : x.HasValue v) (hy : y.HasValue w) (h : InRange (v + w)) :
    (x + y).HasValue (nearest (v + w)) := by
  obtain ⟨s, rfl⟩ := hx
  obtain ⟨t, rfl⟩ := hy
  show (Binary64.add _ _).HasValue _
  unfold Binary64.add
  simp only
  split
  · rename_i hzero
    rw [hzero, nearest_zero]
    exact ⟨s && t, rfl⟩
  · exact hasValue_ofRat h

/-- The difference is rounded once. -/
theorem sub (hx : x.HasValue v) (hy : y.HasValue w) (h : InRange (v - w)) :
    (x - y).HasValue (nearest (v - w)) := by
  rw [sub_eq_add_neg] at h ⊢
  exact hx.add hy.neg h

/-- The product is rounded once. -/
theorem mul (hx : x.HasValue v) (hy : y.HasValue w) (h : InRange (v * w)) :
    (x * y).HasValue (nearest (v * w)) := by
  obtain ⟨s, rfl⟩ := hx
  obtain ⟨t, rfl⟩ := hy
  show (Binary64.mul _ _).HasValue _
  unfold Binary64.mul
  simp only
  split
  · rename_i hzero
    rw [hzero, nearest_zero]
    exact ⟨s ^^ t, rfl⟩
  · exact hasValue_ofRat h

/-- The quotient is rounded once. -/
theorem div (hx : x.HasValue v) (hy : y.HasValue w) (hw : w ≠ 0) (h : InRange (v / w)) :
    (x / y).HasValue (nearest (v / w)) := by
  obtain ⟨s, rfl⟩ := hx
  obtain ⟨t, rfl⟩ := hy
  show (Binary64.div _ _).HasValue _
  unfold Binary64.div
  simp only [if_neg hw]
  split
  · rename_i hzero
    rw [hzero, zero_div, nearest_zero]
    exact ⟨s ^^ t, rfl⟩
  · exact hasValue_ofRat h

/-- The integer below a binary64 value is one too, so that it is exact. -/
theorem floor (hx : x.HasValue v) : x.floor.HasValue (v.floor : ℤ) := by
  obtain ⟨s, rfl⟩ := hx
  exact ⟨s, rfl⟩

/-- Finite numbers compare as their values do. -/
theorem lt_eq (hx : x.HasValue v) (hy : y.HasValue w) : lt x y = decide (v < w) := by
  obtain ⟨s, rfl⟩ := hx
  obtain ⟨t, rfl⟩ := hy
  rfl

/-- Finite numbers compare as their values do. -/
theorem le_eq (hx : x.HasValue v) (hy : y.HasValue w) : le x y = decide (v ≤ w) := by
  obtain ⟨s, rfl⟩ := hx
  obtain ⟨t, rfl⟩ := hy
  rfl

/-- A finite number converts to its value. -/
theorem toRat_eq (hx : x.HasValue v) : x.toRat = v := by
  obtain ⟨s, rfl⟩ := hx
  rfl

/-- A number with a value is finite. -/
theorem isFinite_eq (hx : x.HasValue v) : x.isFinite = true := by
  obtain ⟨s, rfl⟩ := hx
  rfl

/-- The nearest integer, for numbers that are not negative. -/
theorem roundHalfAway (hx : x.HasValue v) (hv : 0 ≤ v) :
    x.roundHalfAway.HasValue ((v + 1 / 2).floor : ℤ) := by
  obtain ⟨s, rfl⟩ := hx
  refine ⟨s, ?_⟩
  simp [Binary64.roundHalfAway, magnitude_eq, abs_of_nonneg hv, not_lt.mpr hv]

/-- Of two integers the smaller one is taken, whatever the signs of zeros. -/
theorem min {n m : ℤ} (hx : x.HasValue n) (hy : y.HasValue m) :
    (x.min y).HasValue (Min.min n m : ℤ) := by
  have hlt := hy.lt_eq hx
  obtain ⟨s, rfl⟩ := hx
  simp only [Binary64.min, isNan, hlt, Int.cast_lt]
  by_cases h : m < n
  · simpa [h, min_eq_right h.le] using hy
  · simpa [h, min_eq_left (not_lt.mp h)] using ⟨s, rfl⟩

/-- An integer stays one when it is moved between two others. -/
theorem clamp {low high : Binary64} {n l h : ℤ} (hx : x.HasValue n) (hlow : low.HasValue l)
    (hhigh : high.HasValue h) (hle : l ≤ h) :
    (x.clamp low high).HasValue (Min.min h (max l n) : ℤ) := by
  unfold Binary64.clamp
  rw [hx.lt_eq hlow, hhigh.lt_eq hx]
  simp only [decide_eq_true_eq, Int.cast_lt]
  split
  · rwa [show Min.min h (max l n) = l by omega]
  · split
    · rwa [show Min.min h (max l n) = h by omega]
    · rwa [show Min.min h (max l n) = n by omega]

/-- An integer is only moved into the range. -/
theorem truncateInto_eq {n low high : ℤ} (hx : x.HasValue n) :
    x.truncateInto low high = max low (Min.min high n) := by
  obtain ⟨s, rfl⟩ := hx
  have hfloor : (-(n : ℚ)).floor = -n := by exact_mod_cast Rat.floor_intCast (-n)
  simp only [truncateInto, Rat.floor_intCast, hfloor, neg_neg, ite_self]

end HasValue

/-- Every datum is moved into the range, a NaN to zero. -/
theorem truncateInto_mem (x : Binary64) {low high : ℤ} (hlow : low ≤ 0) (hhigh : 0 ≤ high) :
    low ≤ x.truncateInto low high ∧ x.truncateInto low high ≤ high := by
  cases x with
  | nan => exact ⟨hlow, hhigh⟩
  | infinity s => cases s <;> simp [truncateInto] <;> omega
  | finite s v =>
    simp only [truncateInto]
    omega

end KvmConsole.Binary64
