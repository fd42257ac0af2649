import KvmConsole.Proofs.Binary64.Arithmetic
import KvmConsole.Proofs.Msd.ProgressBar
import KvmConsole.Proofs.Msd.Shown

/-!
# The percentage of an upload

The share of an upload goes through four roundings on its way to a whole percent: the two counts
become binary64 numbers, and so do their product with 100 and the quotient. Each of them keeps the
order, which gives the order of the percentages. Below `2 ^ 46` bytes only the quotient is rounded,
and the halves between percentages are too far from it to be reached by mistake.

Key results:
* `Progress.percentOf_eq`: the percentage by the rounded quotient.
* `Progress.half_le_share`: a complete upload is not shown as less than 100 percent.
* `Progress.nearest_add_half_lt`, `Progress.le_nearest_add_half`: the rounded quotient and the half
  are in the right order.
* `Progress.ofBytes_correct`: all of it, for every pair of counts.
-/

namespace KvmConsole.Msd.Progress

open Binary64 (nearest HasValue InRange IsExact)

/-- The quotient that is turned into a percentage, with its roundings. -/
def share (loaded total : ℕ) : ℚ := nearest (nearest (nearest loaded * 100) / nearest total)

variable {loaded more total : ℕ}

/-! ## The pipeline -/

/-- The rounding of a count is not negative. -/
private theorem nearest_natCast_nonneg (n : ℕ) :
    0 ≤ nearest n := Binary64.nearest_nonneg n.cast_nonneg

/-- The rounding of a positive count is at least one. -/
private theorem one_le_nearest (h : 0 < total) : 1 ≤ nearest total := by
  have hone : IsExact 1 := by exact_mod_cast Binary64.isExact_natCast (n := 1) (by norm_num)
  apply Binary64.le_nearest_of_le hone
  exact_mod_cast h

/-- A share is not negative. -/
theorem share_nonneg (loaded total : ℕ) : 0 ≤ share loaded total := by
  have hloaded := nearest_natCast_nonneg loaded
  have hproduct : 0 ≤ nearest (nearest loaded * 100) := Binary64.nearest_nonneg (by positivity)
  exact Binary64.nearest_nonneg (div_nonneg hproduct (nearest_natCast_nonneg total))

/-- All the intermediate results are finite. -/
private theorem hasValue_share (hloaded : loaded < 2 ^ 64) (htotal : total < 2 ^ 64)
    (hpos : 0 < total) :
    (Binary64.ofNat loaded * 100 / Binary64.ofNat total).HasValue (share loaded total) := by
  have hhundred : (100 : Binary64).HasValue 100 := by
    exact_mod_cast Binary64.hasValue_ofNat_of_le (n := 100) (by norm_num)
  have hbound := Binary64.nearest_natCast_le hloaded
  have hnonneg := nearest_natCast_nonneg loaded
  have hone := one_le_nearest hpos
  -- No operation overflows, as all numbers stay below a power of two.
  have hproduct : |nearest loaded * 100| ≤ 2 ^ 71 := by
    rw [abs_of_nonneg (by positivity)]
    linarith
  have hexact : IsExact (2 ^ 71) := by
    exact_mod_cast Binary64.isExact_zpow (e := 71) (by norm_num)
  have hrounded : |nearest (nearest loaded * 100)| ≤ 2 ^ 71 :=
    Binary64.abs_nearest_le hexact hproduct
  have hquotient : |nearest (nearest loaded * 100) / nearest total| ≤ 2 ^ 71 := by
    rw [abs_div, abs_of_nonneg (nearest_natCast_nonneg total)]
    exact (div_le_self (abs_nonneg _) hone).trans hrounded
  have hmul := (Binary64.hasValue_ofNat hloaded).mul hhundred
    (Binary64.inRange_of_le (by linarith))
  exact hmul.div (Binary64.hasValue_ofNat htotal) (by linarith)
    (Binary64.inRange_of_le (by linarith))

/-- A total that is not zero is positive. -/
private theorem toNat_pos {total : UInt64} (h : total ≠ 0) : 0 < total.toNat :=
  UInt64.lt_iff_toNat_lt.mp (UInt64.pos_iff_ne_zero.mpr h)

/-- The percentage is the nearest integer to the quotient, and 100 at most. -/
theorem percentOf_eq (loaded : UInt64) {total : UInt64} (h : total ≠ 0) :
    (percentOf loaded total : ℤ) = min 100 (share loaded.toNat total.toNat + 1 / 2).floor := by
  have hshare := share_nonneg loaded.toNat total.toNat
  have hhundred : (100 : Binary64).HasValue (100 : ℤ) := by
    exact_mod_cast Binary64.hasValue_ofNat_of_le (n := 100) (by norm_num)
  have hround := (hasValue_share loaded.toNat_lt total.toNat_lt (toNat_pos h)).roundHalfAway hshare
  have hcapped := hround.min hhundred
  have hnonneg : 0 ≤ (share loaded.toNat total.toNat + 1 / 2).floor := by
    rw [Rat.le_floor_iff]
    push_cast
    linarith
  simp only [percentOf, hcapped.truncateInto_eq]
  omega

/-! ## Order and cap -/

/-- More bytes loaded make no smaller share. -/
private theorem share_mono (hpos : 0 < total) (h : loaded ≤ more) :
    share loaded total ≤ share more total := by
  have hone := one_le_nearest hpos
  apply Binary64.nearest_mono
  apply div_le_div_of_nonneg_right _ (by linarith)
  apply Binary64.nearest_mono
  have hle : nearest loaded ≤ nearest more := Binary64.nearest_mono (by exact_mod_cast h)
  linarith

/-- A complete upload does not fall below the half under 100 percent. -/
theorem half_le_share (hpos : 0 < total) (h : total ≤ loaded) : 199 / 2 ≤ share loaded total := by
  refine le_trans ?_ (share_mono hpos h)
  have hone := one_le_nearest hpos
  have habs : |nearest total * 100| = nearest total * 100 := abs_of_nonneg (by linarith)
  -- With the same count twice, only the product is off, and by a small part of itself.
  have herror : |nearest (nearest total * 100) - nearest total * 100| ≤
      nearest total * 100 / 2 ^ 53 := by
    have hlow : 2 ^ (-1022 : ℤ) ≤ |nearest total * 100| := by
      rw [habs]
      calc (2 : ℚ) ^ (-1022 : ℤ) ≤ 2 ^ (0 : ℤ) := zpow_le_zpow_right₀ one_le_two (by norm_num)
        _ ≤ nearest total * 100 := by linarith
    have hrelative := Binary64.abs_nearest_sub_le_mul hlow
    rwa [habs] at hrelative
  have hexact : IsExact (199 / 2) :=
    Binary64.isExact_of_two_mul 199 (by norm_num) (by norm_num)
  apply Binary64.le_nearest_of_le hexact
  rw [le_div_iff₀ (by linarith)]
  have hbelow := (abs_le.mp herror).1
  norm_num at hbelow ⊢
  linarith

/-! ## The exact percentage -/

/-- Below `2 ^ 46` bytes, only the quotient is rounded. -/
private theorem share_eq (hloaded : loaded ≤ total) (htotal : total < 2 ^ 46) :
    share loaded total = nearest ((100 * loaded : ℕ) / total) := by
  have hproduct : nearest ((loaded : ℚ) * 100) = (100 * loaded : ℕ) := by
    rw [mul_comm, show (100 : ℚ) * loaded = (100 * loaded : ℕ) by push_cast; rfl]
    exact Binary64.nearest_of_isExact (Binary64.isExact_natCast (by omega))
  rw [share, Binary64.nearest_of_isExact (Binary64.isExact_natCast (n := loaded) (by omega)),
    Binary64.nearest_of_isExact (Binary64.isExact_natCast (n := total) (by omega)), hproduct]

/-- A quotient below a half is below it by half a part of the total at least. -/
private theorem div_add_le_of_lt {a k : ℕ} (hpos : 0 < total) (h : 2 * a < (2 * k + 1) * total) :
    (a : ℚ) / total + 1 / (2 * total) ≤ k + 1 / 2 := by
  have htotal : (0 : ℚ) < total := by exact_mod_cast hpos
  have hstep : 2 * (a : ℚ) + 1 ≤ (2 * k + 1) * total := by exact_mod_cast h
  rw [show (a : ℚ) / total + 1 / (2 * total) = (2 * a + 1) / (2 * total) by field_simp,
    div_le_iff₀ (by positivity)]
  linarith

/-- From below, the rounding of a quotient is too small to reach the half. -/
theorem nearest_add_half_lt {a k : ℕ} (hpos : 0 < total) (htotal : total < 2 ^ 46)
    (ha : a ≤ 100 * total) (h : 2 * a < (2 * k + 1) * total) :
    nearest (a / total) + 1 / 2 < k + 1 := by
  have hpos' : (0 : ℚ) < total := by exact_mod_cast hpos
  -- Below a total of `2 ^ 46` the gap to the next half is wider than the error of the rounding.
  have hgap := div_add_le_of_lt hpos h
  have hsmall : |(a : ℚ) / total| ≤ 2 ^ (7 : ℤ) := by
    rw [abs_of_nonneg (by positivity)]
    calc (a : ℚ) / total ≤ 100 := by
          rw [div_le_iff₀ hpos']
          exact_mod_cast ha
      _ ≤ 2 ^ (7 : ℤ) := by norm_num
  have herror := (abs_le.mp (Binary64.abs_nearest_sub_le_of_abs_le (by norm_num) hsmall)).2
  have hpower : (2 : ℚ) ^ ((7 : ℤ) - 54) = 1 / 2 ^ 47 := by norm_num
  have hclose : (1 : ℚ) / 2 ^ 47 < 1 / (2 * total) := by
    apply one_div_lt_one_div_of_lt (by positivity)
    have hbound : (total : ℚ) < 2 ^ 46 := by exact_mod_cast htotal
    linarith
  rw [hpower] at herror
  linarith

/-- The half itself is a binary64 value, and is not passed from above. -/
theorem le_nearest_add_half {a k : ℕ} (hpos : 0 < total) (hk : k ≤ 100)
    (h : k * (2 * total) ≤ 2 * a + total) : (k : ℚ) ≤ nearest (a / total) + 1 / 2 := by
  have hpos' : (0 : ℚ) < total := by exact_mod_cast hpos
  have hexact : IsExact (k - 1 / 2) := by
    apply Binary64.isExact_of_two_mul (2 * k - 1) (abs_le.mpr (by omega))
    push_cast
    ring
  have hle : (k : ℚ) - 1 / 2 ≤ a / total := by
    rw [le_div_iff₀ hpos']
    have hcast : (k : ℚ) * (2 * total) ≤ 2 * a + total := by exact_mod_cast h
    linarith
  have hnearest := Binary64.le_nearest_of_le hexact hle
  linarith

/-- Rounding a quotient does not move it across a half. -/
theorem floor_nearest_add_half {a : ℕ} (hpos : 0 < total) (ha : a ≤ 100 * total)
    (htotal : total < 2 ^ 46) :
    (nearest (a / total) + 1 / 2).floor = ((2 * a + total) / (2 * total) : ℕ) := by
  obtain ⟨k, hk⟩ : ∃ k, k = (2 * a + total) / (2 * total) := ⟨_, rfl⟩
  have hlow : k * (2 * total) ≤ 2 * a + total := by
    rw [hk]
    exact Nat.div_mul_le_self _ _
  have hhigh : 2 * a + total < (k + 1) * (2 * total) := by
    rw [← Nat.div_lt_iff_lt_mul (by omega), hk]
    omega
  have hpercent : k < 101 := by
    rw [hk, Nat.div_lt_iff_lt_mul (by omega)]
    omega
  rw [← hk]
  -- The rounding stays below the next integer, and does not fall below this one.
  apply le_antisymm
  · have hlt : nearest (a / total) + 1 / 2 < (k + 1 : ℤ) :=
      mod_cast nearest_add_half_lt hpos htotal ha (by linarith)
    rw [← Rat.floor_lt_iff] at hlt
    omega
  · rw [Rat.le_floor_iff]
    exact_mod_cast le_nearest_add_half hpos (by omega) hlow

/-! ## Percentages of uploads -/

/-- More bytes loaded make no smaller percentage. -/
theorem percentOf_mono {loaded more total : UInt64} (h : total ≠ 0) (hle : loaded ≤ more) :
    percentOf loaded total ≤ percentOf more total := by
  have hshare := share_mono (toNat_pos h) (UInt64.le_iff_toNat_le.mp hle)
  have hfloor : (share loaded.toNat total.toNat + 1 / 2).floor ≤
      (share more.toNat total.toNat + 1 / 2).floor := Rat.floor_monotone (by linarith)
  have hpercent := percentOf_eq loaded h
  have hpercent' := percentOf_eq more h
  omega

/-- With everything loaded, or more than that, the percentage is a hundred. -/
theorem percentOf_eq_hundred {loaded total : UInt64} (h : total ≠ 0) (hle : total ≤ loaded) :
    percentOf loaded total = 100 := by
  have hshare := half_le_share (toNat_pos h) (UInt64.le_iff_toNat_le.mp hle)
  have hfloor : 100 ≤ (share loaded.toNat total.toNat + 1 / 2).floor := by
    rw [Rat.le_floor_iff]
    push_cast
    linarith
  have hpercent := percentOf_eq loaded h
  omega

/-- Below `2 ^ 46` bytes, the percentage is the exact one with halves going up. -/
private theorem percentOf_eq_half_up {loaded total : UInt64} (h : total ≠ 0)
    (htotal : total.toNat < 2 ^ 46) :
    percentOf loaded total =
      min 100 ((200 * loaded.toNat + total.toNat) / (2 * total.toNat)) := by
  have hpos := toNat_pos h
  rcases UInt64.le_total loaded total with hle | hle
  · have hle' : loaded.toNat ≤ total.toNat := UInt64.le_iff_toNat_le.mp hle
    have hfloor := floor_nearest_add_half (a := 100 * loaded.toNat) hpos (by omega) htotal
    have hpercent := percentOf_eq loaded h
    rw [share_eq hle' htotal, hfloor, ← mul_assoc] at hpercent
    exact_mod_cast hpercent
  · -- Once everything has been sent, both sides are at the limit.
    have hle' : total.toNat ≤ loaded.toNat := UInt64.le_iff_toNat_le.mp hle
    have hwhole : 100 ≤ (200 * loaded.toNat + total.toNat) / (2 * total.toNat) := by
      rw [Nat.le_div_iff_mul_le (by omega)]
      omega
    rw [percentOf_eq_hundred h hle, min_eq_left hwhole]

/-- There is no percentage without a total. For every other pair of counts it is at most 100, is 100
    for a complete upload and does not fall with more bytes. Below 64 tebibytes it is the exact
    percentage with halves going up. -/
theorem ofBytes_correct :
    (∀ loaded total, ofBytes loaded total = none ↔ total = none ∨ total = some 0) ∧
    ∀ loaded total : UInt64, total ≠ 0 →
      ∃ percent, ofBytes loaded (some total) = some (.active percent) ∧
        percent ≤ 100 ∧
        (total ≤ loaded → percent = 100) ∧
        (∀ more, loaded ≤ more →
          ∃ percent', ofBytes more (some total) = some (.active percent') ∧
            percent ≤ percent') ∧
        (total.toNat < 2 ^ 46 →
          percent = min 100 ((200 * loaded.toNat + total.toNat) / (2 * total.toNat))) := by
  refine ⟨fun loaded total => ofBytes_eq_none_iff, fun loaded total h => ?_⟩
  have hactive (bytes : UInt64) :
      ofBytes bytes (some total) = some (.active (percentOf bytes total)) := by
    simp [ofBytes, h]
  refine ⟨percentOf loaded total, hactive loaded, percentOf_le loaded total,
    percentOf_eq_hundred h, ?_, percentOf_eq_half_up h⟩
  intro more hle
  exact ⟨percentOf more total, hactive more, percentOf_mono h hle⟩

/-- Half a percent of 200 bytes is one byte, and is shown as one percent. -/
theorem ofBytes_correct_at_half :
    (200 : UInt64) ≠ 0 ∧
      ∃ percent, ofBytes 1 (some 200) = some (.active percent) ∧ percent = 1 ∧
        ∃ percent', ofBytes 200 (some 200) = some (.active percent') ∧ percent ≤ percent' := by
  obtain ⟨-, hpercent⟩ := ofBytes_correct
  obtain ⟨percent, hactive, -, -, hmono, hexact⟩ := hpercent 1 200 (by decide)
  exact ⟨by decide, percent, hactive, hexact (by decide), hmono 200 (by decide)⟩

end KvmConsole.Msd.Progress
