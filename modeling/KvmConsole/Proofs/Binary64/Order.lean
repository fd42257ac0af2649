import KvmConsole.Proofs.Binary64.Arithmetic

/-!
# The order of results

Comparing with a NaN is always false, so that a comparison that is true says two things: which of
the sides is the smaller one, and that neither of them is a NaN. Operations with a constant keep
such a comparison, also where a result overflows to an infinity or vanishes, and so neither the
order nor the absence of NaNs is lost on the way through a formula.

Key results:
* `ofRat_le_ofRat`: rounding keeps the order, overflow included.
* `map_le_map`: what an operation has to do with infinities and with numbers to keep the order.
* `add_le_add`, `mul_le_mul`, `div_le_div`, `floor_le_floor`, `truncateInto_le_truncateInto`:
  operations keep it.
-/

namespace KvmConsole.Binary64

variable {x y z : Binary64} {v w c : ℚ}

/-! ## Comparisons -/

/-- Whatever compares is no NaN. -/
theorem ne_nan_of_le (h : x.le y) : x ≠ nan ∧ y ≠ nan := by
  constructor
  · rintro rfl
    cases h
  · rintro rfl
    cases x <;> cases h

/-- The negative infinity is below every number. -/
private theorem infinity_le (h : x ≠ nan) : (infinity true).le x := by
  cases x with
  | nan => exact absurd rfl h
  | infinity _ | finite _ _ => rfl

/-- The positive infinity is above every number. -/
private theorem le_infinity (h : x ≠ nan) : x.le (infinity false) := by
  cases x with
  | nan => exact absurd rfl h
  | infinity s => cases s <;> rfl
  | finite _ _ => rfl

/-! ## Rounding -/

/-- Rounding keeps the order, also where it overflows. -/
theorem ofRat_le_ofRat {q r : ℚ} (h : q ≤ r) : (ofRat q).le (ofRat r) := by
  have hmono := nearest_mono h
  simp only [ofRat, powerOfTwo_eq, magnitude_eq]
  generalize (2 : ℚ) ^ (1024 : ℤ) = limit
  split <;> split <;> rename_i hq hr
  · -- Both overflow, each to its own side.
    simp only [le, Bool.or_eq_true, Bool.not_eq_true', decide_eq_true_eq, decide_eq_false_iff_not]
    rcases lt_or_ge q 0 with hneg | hpos
    · exact .inl hneg
    · exact .inr (not_lt.mpr (hpos.trans h))
  · -- A number above one that overflows upwards overflows too.
    simp only [le, decide_eq_true_eq]
    by_contra hpos
    have hnearest := nearest_nonneg (not_lt.mp hpos)
    rw [abs_of_nonneg hnearest] at hq
    exact hr (hq.trans (hmono.trans (le_abs_self _)))
  · -- A number below one that overflows downwards overflows too.
    simp only [le, Bool.not_eq_true', decide_eq_false_iff_not]
    intro hneg
    have hnearest := nearest_nonneg (neg_nonneg.mpr hneg.le)
    rw [nearest_neg, neg_nonneg] at hnearest
    rw [abs_of_nonpos hnearest] at hr
    exact hq (hr.trans ((neg_le_neg hmono).trans (neg_le_abs _)))
  · simpa only [le, decide_eq_true_eq] using hmono

/-- The datum is the rounding of the number, up to the sign of a zero. -/
def IsRounding (x : Binary64) (q : ℚ) : Prop := x = ofRat q ∨ q = 0 ∧ x.HasValue 0

/-- Zero is rounded to itself. -/
private theorem hasValue_ofRat_zero : (ofRat 0).HasValue 0 := by
  have hround := hasValue_ofRat (q := 0) (inRange_of_le (by norm_num))
  rwa [nearest_zero] at hround

/-- Zeros of either sign compare alike. -/
theorem le_of_hasValue (hx : x.HasValue v) (hy : y.HasValue w) (h : v ≤ w) : x.le y := by
  rw [hx.le_eq hy]
  exact decide_eq_true h

/-- Roundings are in the order of the numbers they are of, whatever the signs of zeros. -/
theorem IsRounding.le {q r : ℚ} (hx : x.IsRounding q) (hy : y.IsRounding r) (h : q ≤ r) :
    x.le y := by
  have hle := ofRat_le_ofRat h
  obtain ⟨s, hzero⟩ := hasValue_ofRat_zero
  rcases hx with rfl | ⟨rfl, t, rfl⟩ <;> rcases hy with rfl | ⟨rfl, u, rfl⟩
  · exact hle
  · rw [hzero] at hle
    cases hx : ofRat q <;> rw [hx] at hle <;> exact hle
  · rw [hzero] at hle
    cases hy : ofRat r <;> rw [hy] at hle <;> exact hle
  · exact le_of_hasValue ⟨t, rfl⟩ ⟨u, rfl⟩ le_rfl

/-- A sum is the rounding of the exact sum. -/
private theorem HasValue.isRounding_add (hx : x.HasValue v) (hy : y.HasValue w) :
    (x + y).IsRounding (v + w) := by
  obtain ⟨s, rfl⟩ := hx
  obtain ⟨t, rfl⟩ := hy
  show (Binary64.add _ _).IsRounding _
  unfold Binary64.add
  simp only
  split
  · exact .inr ⟨‹_›, s && t, rfl⟩
  · exact .inl rfl

/-- The difference is the exact one, rounded once. -/
theorem HasValue.isRounding_sub (hx : x.HasValue v) (hy : y.HasValue w) :
    (x - y).IsRounding (v - w) := by
  rw [sub_eq_add_neg]
  exact hx.isRounding_add hy.neg

/-- A product is the rounding of the exact product. -/
private theorem HasValue.isRounding_mul (hx : x.HasValue v) (hy : y.HasValue w) :
    (x * y).IsRounding (v * w) := by
  obtain ⟨s, rfl⟩ := hx
  obtain ⟨t, rfl⟩ := hy
  show (Binary64.mul _ _).IsRounding _
  unfold Binary64.mul
  simp only
  split
  · exact .inr ⟨‹_›, s ^^ t, rfl⟩
  · exact .inl rfl

/-- A quotient is the rounding of the exact quotient. -/
theorem HasValue.isRounding_div (hx : x.HasValue v) (hy : y.HasValue w) (hw : w ≠ 0) :
    (x / y).IsRounding (v / w) := by
  obtain ⟨s, rfl⟩ := hx
  obtain ⟨t, rfl⟩ := hy
  show (Binary64.div _ _).IsRounding _
  unfold Binary64.div
  simp only [if_neg hw]
  split
  · rename_i hzero
    exact .inr ⟨by rw [hzero, zero_div], s ^^ t, rfl⟩
  · exact .inl rfl

/-- A rounding is a number. -/
theorem IsRounding.ne_nan {q : ℚ} (h : x.IsRounding q) : x ≠ nan :=
  (ne_nan_of_le (h.le h le_rfl)).1

/-- A rounding that has not overflowed is a binary64 value. -/
theorem IsRounding.isExact {q : ℚ} (h : x.IsRounding q) (hx : x.HasValue v) : IsExact v := by
  obtain ⟨s, rfl⟩ := hx
  rcases h with hround | ⟨-, t, hzero⟩
  · simp only [ofRat] at hround
    split at hround
    · cases hround
    · cases hround
      exact isExact_nearest q
  · cases hzero
    exact isExact_intCast (n := 0) (by norm_num)

/-! ## Operations -/

/-- An operation that leaves infinities alone and keeps the order of numbers keeps the order of all
    data. -/
theorem map_le_map {f : Binary64 → Binary64} (hinfinity : ∀ s, f (.infinity s) = .infinity s)
    (hfinite : ∀ s v t w, v ≤ w → (f (.finite s v)).le (f (.finite t w))) (h : x.le y) :
    (f x).le (f y) := by
  match x, y, h with
  | .finite s v, .finite t w, h => exact hfinite s v t w (of_decide_eq_true h)
  | .infinity s, .infinity t, h =>
    rw [hinfinity, hinfinity]
    exact h
  -- An infinity is below a number only if it is the negative one, and that is below everything.
  | .infinity s, .finite t w, h =>
    obtain rfl : s = true := h
    rw [hinfinity]
    exact infinity_le (ne_nan_of_le (hfinite t w t w le_rfl)).1
  | .finite s v, .infinity t, h =>
    obtain rfl : t = false := by simpa [le] using h
    rw [hinfinity]
    exact le_infinity (ne_nan_of_le (hfinite s v s v le_rfl)).1

/-- A constant can be added on both sides. -/
theorem add_le_add (h : x.le y) (hz : z.HasValue c) : (x + z).le (y + z) := by
  obtain ⟨t, rfl⟩ := hz
  apply map_le_map (f := fun x => x + .finite t c) _ _ h
  · intro s
    rfl
  · intro s v s' w hle
    have hx : (Binary64.finite s v).HasValue v := ⟨s, rfl⟩
    have hy : (Binary64.finite s' w).HasValue w := ⟨s', rfl⟩
    exact (hx.isRounding_add ⟨t, rfl⟩).le (hy.isRounding_add ⟨t, rfl⟩) (by linarith)

/-- Both sides can be multiplied by a positive constant. -/
theorem mul_le_mul (h : x.le y) (hc : 0 < c) : (x * .finite false c).le (y * .finite false c) := by
  apply map_le_map (f := fun x => x * .finite false c) _ _ h
  · intro s
    show Binary64.mul _ _ = _
    simp [Binary64.mul, hc.ne']
  · intro s v t w hle
    have hx : (Binary64.finite s v).HasValue v := ⟨s, rfl⟩
    have hy : (Binary64.finite t w).HasValue w := ⟨t, rfl⟩
    have hz : (Binary64.finite false c).HasValue c := ⟨false, rfl⟩
    exact (hx.isRounding_mul hz).le (hy.isRounding_mul hz) (by gcongr)

/-- Numbers can be divided by a positive constant on both sides. -/
theorem div_le_div (hx : x.HasValue v) (hy : y.HasValue w) (h : v ≤ w) (hz : z.HasValue c)
    (hc : 0 < c) : (x / z).le (y / z) :=
  (hx.isRounding_div hz hc.ne').le (hy.isRounding_div hz hc.ne') (by gcongr)

/-- The integer below rises with the number, at the infinities too. -/
theorem floor_le_floor (h : x.le y) : x.floor.le y.floor := by
  apply map_le_map (f := Binary64.floor) _ _ h
  · intro s
    rfl
  · intro s v t w hle
    have hx : (Binary64.finite s v).HasValue v := ⟨s, rfl⟩
    have hy : (Binary64.finite t w).HasValue w := ⟨t, rfl⟩
    have hfloor : v.floor ≤ w.floor := Int.floor_mono hle
    exact le_of_hasValue hx.floor hy.floor (by exact_mod_cast hfloor)

/-- Dropping the fractions keeps the order. -/
theorem truncateInto_le_truncateInto (h : x.le y) {low high : ℤ} (hlow : low ≤ 0)
    (hhigh : 0 ≤ high) : x.truncateInto low high ≤ y.truncateInto low high := by
  match x, y, h with
  | .finite s v, .finite t w, h =>
    have hle : v ≤ w := of_decide_eq_true h
    have hfloor : v.floor ≤ w.floor := Int.floor_mono hle
    have hceil : (-w).floor ≤ (-v).floor := Int.floor_mono (neg_le_neg hle)
    simp only [truncateInto]
    split <;> split
    · omega
    · -- Zero is between the two.
      have hv : 0 ≤ (-v).floor := Rat.le_floor_iff.mpr (by push_cast; linarith)
      have hw : 0 ≤ w.floor := Rat.le_floor_iff.mpr (by push_cast; linarith)
      omega
    · exfalso
      linarith
    · omega
  | .infinity true, y, _ => exact (truncateInto_mem y hlow hhigh).1
  | x, .infinity false, _ => exact (truncateInto_mem x hlow hhigh).2

end KvmConsole.Binary64
