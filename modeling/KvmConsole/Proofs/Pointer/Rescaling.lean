import KvmConsole.Pointer.Geometry
import KvmConsole.Proofs.Binary64.Arithmetic

/-!
# Rescaling positions

The place of a position on the daemon's scale is computed in binary64, with a rounding after the
division, the product and both sums. For a region of whole pixels that makes no difference: the
roundings are off by less than the places of different positions are apart from a half, and a place
that is a half exactly does not come out lower than it is.

Key results:
* `abs_roundedPlace_sub_lt`: how far the roundings are off in all.
* `le_shifted_of_tie`, `le_roundedPlace_of_tie`: halves do not come out lower.
* `floor_roundedPlace`: the roundings make no difference.
* `rescale_eq`: the place in integers.
* `rescale_half_up`: the same, with the edges and the halves.
-/

namespace KvmConsole.Pointer

open Binary64

/-! ## The places -/

/-- The place of a position on the scale, a half added, so that dropping the fraction rounds it. -/
def place (v : ℤ) (n : ℕ) : ℚ := v / n * 65535 - 32768 + 1 / 2

/-- The share of a position in the region, as it is computed. -/
def share (v : ℤ) (n : ℕ) : ℚ := nearest (v / n)

/-- The share on a scale that starts at zero, as it is computed. -/
def scaled (v : ℤ) (n : ℕ) : ℚ := nearest (share v n * 65535)

/-- The share on the daemon's scale, as it is computed. -/
def shifted (v : ℤ) (n : ℕ) : ℚ := nearest (scaled v n + -32768)

/-- The place as it is computed. -/
def roundedPlace (v : ℤ) (n : ℕ) : ℚ := nearest (shifted v n + 1 / 2)

/-- The place in integers. -/
private theorem floor_place (v : ℤ) {n : ℕ} (hn : 1 ≤ n) :
    (place v n).floor = (2 * 65535 * v + n) / (2 * n) - 32768 := by
  have hpos : (0 : ℚ) < n := by exact_mod_cast hn
  -- Over a common denominator the place is a quotient of integers.
  have hplace : place v n = ((2 * 65535 * v + n : ℤ) : ℚ) / ((2 * n : ℕ) : ℚ) - (32768 : ℤ) := by
    unfold place
    push_cast
    field_simp
    ring
  have hfloor := Rat.floor_intCast_div_natCast (2 * 65535 * v + n) (2 * n)
  push_cast at hfloor
  show ⌊place v n⌋ = _
  rw [hplace, Int.floor_sub_intCast]
  push_cast
  rw [hfloor]

section

variable {v : ℤ} {n : ℕ}

/-! ## Outside the region -/

/-- What is not right of the edge is at the lower end. -/
private theorem roundedPlace_of_nonpos (h : v ≤ 0) : roundedPlace v n ≤ -32768 + 1 / 2 := by
  have hshare : share v n ≤ 0 := by
    apply nearest_le_of_le (isExact_of_two_mul 0 (by norm_num) (by norm_num))
    exact div_nonpos_of_nonpos_of_nonneg (by exact_mod_cast h) n.cast_nonneg
  have hscaled : scaled v n ≤ 0 :=
    nearest_le_of_le (isExact_of_two_mul 0 (by norm_num) (by norm_num)) (by linarith)
  have hshifted : shifted v n ≤ -32768 :=
    nearest_le_of_le (isExact_of_two_mul (-65536) (by norm_num) (by norm_num)) (by linarith)
  exact nearest_le_of_le (isExact_of_two_mul (-65535) (by norm_num) (by norm_num)) (by linarith)

/-- What is not left of the far edge is at the upper end. -/
private theorem roundedPlace_of_ge (hn : 1 ≤ n) (h : n ≤ v) : 32767 + 1 / 2 ≤ roundedPlace v n := by
  have hpos : (0 : ℚ) < n := by exact_mod_cast hn
  -- No step falls below a number that is represented exactly.
  have hshare : 1 ≤ share v n := by
    apply le_nearest_of_le (isExact_of_two_mul 2 (by norm_num) (by norm_num))
    rw [one_le_div hpos]
    exact_mod_cast h
  have hscaled : 65535 ≤ scaled v n :=
    le_nearest_of_le (isExact_of_two_mul 131070 (by norm_num) (by norm_num)) (by linarith)
  have hshifted : 32767 ≤ shifted v n :=
    le_nearest_of_le (isExact_of_two_mul 65534 (by norm_num) (by norm_num)) (by linarith)
  exact le_nearest_of_le (isExact_of_two_mul 65535 (by norm_num) (by norm_num)) (by linarith)

/-! ## Inside the region -/

/-- The share of a coordinate inside the region is not negative. -/
theorem share_nonneg (h : 0 ≤ v) : 0 ≤ share v n := by
  apply nearest_nonneg
  have hv : (0 : ℚ) ≤ v := by exact_mod_cast h
  positivity

/-- The share in a region is rounded finer the smaller it is. -/
private theorem abs_share_sub_le (h : 0 ≤ v) {e : ℤ} (he : -1021 ≤ e)
    (hshare : (v : ℚ) / n ≤ 2 ^ e) :
    share v n ≤ 2 ^ e ∧ |share v n - v / n| ≤ 2 ^ (e - 54) := by
  have hv : (0 : ℚ) ≤ v := by exact_mod_cast h
  have habs : |(v : ℚ) / n| ≤ 2 ^ e := by rwa [abs_of_nonneg (by positivity)]
  exact ⟨nearest_le_of_le (isExact_zpow (by omega)) hshare, abs_nearest_sub_le_of_abs_le he habs⟩

/-- In the region, all four roundings together are off by less than `2 ^ -36`. -/
theorem abs_roundedPlace_sub_lt (h : 0 ≤ v) (hn : 1 ≤ n) (hle : v ≤ n) :
    |roundedPlace v n - place v n| < 1 / 2 ^ 36 := by
  have hpos : (0 : ℚ) < n := by exact_mod_cast hn
  have hquotient : (v : ℚ) / n ≤ 2 ^ (0 : ℤ) := by
    rw [zpow_zero, div_le_one hpos]
    exact_mod_cast hle
  obtain ⟨hshare, hdivision⟩ := abs_share_sub_le h (by norm_num) hquotient
  have hshare' := share_nonneg (n := n) h
  -- The product stays below `2 ^ 16`, and both sums within `2 ^ 15`.
  have hproduct : |scaled v n - share v n * 65535| ≤ 2 ^ ((16 : ℤ) - 54) := by
    apply abs_nearest_sub_le_of_abs_le (by norm_num)
    rw [abs_of_nonneg (by positivity)]
    norm_num at hshare ⊢
    linarith
  have hscaled : scaled v n ≤ 65535 := by
    apply nearest_le_of_le (isExact_of_two_mul 131070 (by norm_num) (by norm_num))
    norm_num at hshare
    linarith
  have hscaled' : 0 ≤ scaled v n := nearest_nonneg (by positivity)
  have hsum : |shifted v n - (scaled v n + -32768)| ≤ 2 ^ ((15 : ℤ) - 54) := by
    apply abs_nearest_sub_le_of_abs_le (by norm_num)
    rw [abs_le]
    norm_num
    constructor <;> linarith
  have hshifted : shifted v n ≤ 32767 :=
    nearest_le_of_le (isExact_of_two_mul 65534 (by norm_num) (by norm_num)) (by linarith)
  have hshifted' : -32768 ≤ shifted v n :=
    le_nearest_of_le (isExact_of_two_mul (-65536) (by norm_num) (by norm_num)) (by linarith)
  have hhalf : |roundedPlace v n - (shifted v n + 1 / 2)| ≤ 2 ^ ((15 : ℤ) - 54) := by
    apply abs_nearest_sub_le_of_abs_le (by norm_num)
    rw [abs_le]
    norm_num
    constructor <;> linarith
  -- The four errors add up to less than the bound.
  rw [abs_le] at hdivision hproduct hsum hhalf
  norm_num at hdivision hproduct hsum hhalf ⊢
  unfold place
  rw [abs_lt]
  constructor <;> linarith

/-! ## Halves -/

/-- The product of a share of `j / 131070` is a half, if it is as great as `2 ^ e` at least: then it
    has at least as many bits behind the point as the share lacks. -/
private theorem le_scaled_of_tie (h : 0 ≤ v) {j : ℤ} (hj : (v : ℚ) / n = j / 131070) {e : ℤ}
    (he : 0 ≤ e)
    (he' : e ≤ 15) (hlow : 2 ^ e + 1 / 2 ≤ (j : ℚ) / 2) (hhigh : (v : ℚ) / n ≤ 2 ^ (e - 15)) :
    (j : ℚ) / 2 ≤ scaled v n := by
  obtain ⟨hshare, herror⟩ := abs_share_sub_le h (by omega) hhigh
  rw [abs_le, hj] at herror
  -- All bounds are parts of the power of two below the product.
  have hpart (i : ℕ) : (2 : ℚ) ^ (e - i) = 2 ^ e / 2 ^ i := by
    rw [zpow_sub₀ two_ne_zero, zpow_natCast]
  have hpart15 : (2 : ℚ) ^ (e - 15) = 2 ^ e / 2 ^ 15 := hpart 15
  have hpart52 : (2 : ℚ) ^ (e - 52) = 2 ^ e / 2 ^ 52 := hpart 52
  have hpart69 : (2 : ℚ) ^ (e - 15 - 54) = 2 ^ e / 2 ^ 69 := by
    rw [sub_sub]
    exact hpart 69
  have hpos : (0 : ℚ) < 2 ^ e := by positivity
  have hle : (2 : ℚ) ^ e ≤ 2 ^ (15 : ℤ) := zpow_le_zpow_right₀ one_le_two he'
  -- The half is on the grid of the product.
  have hgrid : ((j * 2 ^ (-1 - (e - 52)).toNat : ℤ) : ℚ) * 2 ^ (e - 52) = j / 2 := by
    rw [Int.cast_mul, mul_assoc, zpow_mul_grid (by omega), zpow_neg_one]
    ring
  have hnonneg : 0 ≤ share v n * 65535 := mul_nonneg (share_nonneg h) (by norm_num)
  rw [hpart69] at herror
  rw [hpart15] at hshare
  rw [← hgrid]
  -- The product is near enough to the half to be rounded to it or beyond.
  apply le_nearest_of_near (by omega)
  · rw [abs_of_nonneg hnonneg, sub_add_cancel]
    norm_num at herror hle
    linarith
  · rw [abs_of_nonneg hnonneg, show e - 52 + 53 = e + 1 by ring, zpow_add_one₀ two_ne_zero]
    norm_num at hshare
    linarith
  · rw [hgrid, hpart52]
    norm_num at herror ⊢
    linarith

/-- Near the lower end the product may be off, but the sum has fewer bits behind the point than the
    product, and makes up for it. -/
private theorem le_shifted_of_low_tie (h : 0 ≤ v) {j : ℤ} (hj : (v : ℚ) / n = j / 131070)
    (hpos : 0 < j)
    (hlow : j < 2 ^ 15) : (j : ℚ) / 2 - 32768 ≤ shifted v n := by
  have hj1 : (1 : ℚ) ≤ j := by exact_mod_cast hpos
  have hj2 : (j : ℚ) ≤ 32767 := by exact_mod_cast (by omega : j ≤ 32767)
  have hquotient : (v : ℚ) / n ≤ 2 ^ (-2 : ℤ) := by
    rw [hj]
    norm_num
    linarith
  obtain ⟨hshare, herror⟩ := abs_share_sub_le h (by norm_num) hquotient
  have hshare' := share_nonneg (n := n) h
  -- Below a quarter of the scale the product is rounded finely.
  have hproduct : |scaled v n - share v n * 65535| ≤ 2 ^ ((14 : ℤ) - 54) := by
    apply abs_nearest_sub_le_of_abs_le (by norm_num)
    rw [abs_of_nonneg (by positivity)]
    norm_num at hshare ⊢
    linarith
  have hscaled : scaled v n ≤ 2 ^ 14 := by
    apply nearest_le_of_le (isExact_of_two_mul (2 ^ 15) (by norm_num) (by norm_num))
    norm_num at hshare ⊢
    linarith
  rw [abs_le, hj] at herror
  rw [abs_le] at hproduct
  norm_num at herror hproduct hscaled
  have hgrid : (((j - 65536) * 2 ^ 37 : ℤ) : ℚ) * 2 ^ (-38 : ℤ) = j / 2 - 32768 := by
    push_cast
    norm_num
    ring
  have hnegative : scaled v n + -32768 < 0 := by linarith
  rw [← hgrid]
  -- The sum is near enough to the half to be rounded to it or beyond.
  apply le_nearest_of_near (by norm_num)
  · rw [abs_of_neg hnegative]
    norm_num
    linarith
  · rw [abs_of_neg hnegative]
    norm_num
    linarith
  · rw [hgrid]
    norm_num
    linarith

/-- Away from the lower end the product of a half is not too low. There are two powers of two that
    it can lie above. -/
private theorem le_scaled_of_high_tie (h : 0 ≤ v) {j : ℤ} (hodd : j % 2 = 1)
    (hj : (v : ℚ) / n = j / 131070) (hhigh : 2 ^ 15 < j) (hlt : j < 131070) :
    (j : ℚ) / 2 ≤ scaled v n := by
  -- The numbers on both sides of the middle are in different binades.
  by_cases hmiddle : j < 2 ^ 16
  · have hj1 : (32769 : ℚ) ≤ j := by exact_mod_cast (by omega : 32769 ≤ j)
    have hj2 : (j : ℚ) ≤ 65535 := by exact_mod_cast (by omega : j ≤ 65535)
    apply le_scaled_of_tie h hj (e := 14) (by norm_num) (by norm_num)
    · norm_num
      linarith
    · rw [hj]
      norm_num
      linarith
  · have hj1 : (65537 : ℚ) ≤ j := by exact_mod_cast (by omega : 65537 ≤ j)
    have hj2 : (j : ℚ) ≤ 131070 := by exact_mod_cast hlt.le
    apply le_scaled_of_tie h hj (e := 15) (by norm_num) (by norm_num)
    · norm_num
      linarith
    · rw [hj]
      norm_num
      linarith

/-- A half is not lower on the daemon's scale than it should be. -/
theorem le_shifted_of_tie (h : 0 ≤ v) {j : ℤ} (hodd : j % 2 = 1) (hj : (v : ℚ) / n = j / 131070)
    (hpos : 0 < j) (hlt : j < 131070) : (j : ℚ) / 2 - 32768 ≤ shifted v n := by
  by_cases hlow : j < 2 ^ 15
  · exact le_shifted_of_low_tie h hj hpos hlow
  · have hscaled := le_scaled_of_high_tie h hodd hj (by omega) hlt
    have hexact : IsExact ((j : ℚ) / 2 - 32768) := by
      apply isExact_of_two_mul (j - 65536) (abs_le.mpr (by omega))
      push_cast
      ring
    exact le_nearest_of_le hexact (by linarith)

/-! ## The place in integers -/

/-- The place is an integer and some of `2 * n` parts. -/
private theorem place_eq_add {k r : ℤ} (hn : 1 ≤ n) (h : 2 * n * k + r = 2 * 65535 * v + n) :
    place v n = k - 32768 + r / (2 * n) := by
  have hpos : (0 : ℚ) < n := by exact_mod_cast hn
  have hcast : (2 * n * k + r : ℚ) = 2 * 65535 * v + n := by exact_mod_cast h
  unfold place
  field_simp
  linarith

/-- A place without a fraction was a half before, and the half went up. -/
theorem le_roundedPlace_of_tie (hpos : 0 < v) (hlt : v < n) {k : ℤ}
    (h : 2 * n * k = 2 * 65535 * v + n) : (k : ℚ) - 32768 ≤ roundedPlace v n := by
  have hnpos : (0 : ℚ) < n := by exact_mod_cast hpos.trans hlt
  have hj : (v : ℚ) / n = (2 * k - 1 : ℤ) / 131070 := by
    have hcast : (2 * n * k : ℚ) = 2 * 65535 * v + n := by exact_mod_cast h
    push_cast
    field_simp
    linarith
  -- The tie is inside the scale, as the coordinate is inside the region.
  have hkpos : 0 < 2 * k - 1 := by
    have hproduct : 0 < n * (2 * k - 1) := by nlinarith
    exact pos_of_mul_pos_right hproduct (by omega)
  have hklt : 2 * k - 1 < 131070 := by
    have hproduct : n * (2 * k - 1) < n * 131070 := by nlinarith
    exact lt_of_mul_lt_mul_left hproduct (by omega)
  have hshifted := le_shifted_of_tie hpos.le (by omega) hj hkpos hklt
  have hexact : IsExact ((k : ℚ) - 32768) := by
    apply isExact_of_two_mul (2 * k - 65536) (abs_le.mpr (by omega))
    push_cast
    ring
  apply le_nearest_of_le hexact
  push_cast at hshifted
  linarith

/-- Inside the region the roundings make no difference to the integer below. -/
theorem floor_roundedPlace (hpos : 0 < v) (hlt : v < n) (hn : n < 2 ^ 31) :
    (roundedPlace v n).floor = (place v n).floor := by
  have hn1 : 1 ≤ n := by omega
  have hnlt : (n : ℚ) < 2 ^ 31 := by exact_mod_cast hn
  have hnpos : (0 : ℚ) < n := by exact_mod_cast hn1
  have herror := abs_lt.mp (abs_roundedPlace_sub_lt hpos.le hn1 hlt.le)
  have hdivision := Int.mul_ediv_add_emod (2 * 65535 * v + n) (2 * n)
  have hparts := Int.emod_nonneg (2 * 65535 * v + n) (b := 2 * n) (by omega)
  have hparts' := Int.emod_lt_of_pos (2 * 65535 * v + n) (b := 2 * n) (by omega)
  have hfloor := floor_place v hn1
  generalize (2 * 65535 * v + n) / (2 * n) = k at hdivision hfloor
  generalize (2 * 65535 * v + n) % (2 * n) = r at hdivision hparts hparts'
  have hplace := place_eq_add hn1 hdivision
  -- The roundings are off by less than one of the parts.
  have hpart : 1 / 2 ^ 36 < 1 / (2 * n : ℚ) :=
    one_div_lt_one_div_of_lt (by positivity) (by linarith)
  have hhigh : r / (2 * n) + 1 / (2 * n) ≤ (1 : ℚ) := by
    have hr : (r : ℚ) + 1 ≤ 2 * n := by exact_mod_cast hparts'
    rw [← add_div, div_le_one (by positivity)]
    exact hr
  rw [hfloor]
  show ⌊roundedPlace v n⌋ = _
  rw [Int.floor_eq_iff]
  push_cast
  constructor
  · rcases hparts.eq_or_lt with hzero | hrpos
    · exact le_roundedPlace_of_tie hpos hlt (by omega)
    · have hr : (1 : ℚ) ≤ r := by exact_mod_cast hrpos
      have hfraction : 1 / (2 * n : ℚ) ≤ r / (2 * n) := by gcongr
      linarith
  · linarith

end

/-! ## What is sent -/

/-- For every 32-bit position, the steps stay far within the range of binary64. -/
private theorem inRange_steps {v : ℤ} {n : ℕ} (hv : |v| ≤ 2 ^ 31) (hn : 1 ≤ n) :
    InRange (v / n) ∧ InRange (share v n * 65535) ∧ InRange (scaled v n + -32768) ∧
      InRange (shifted v n + 1 / 2) := by
  have hone : (1 : ℚ) ≤ n := by exact_mod_cast hn
  have hpos : (0 : ℚ) < n := by linarith
  have hv' : |(v : ℚ)| ≤ 2 ^ 31 := by exact_mod_cast hv
  have hquotient : |(v : ℚ) / n| ≤ 2 ^ 31 := by
    rw [abs_div, abs_of_pos hpos, div_le_iff₀ hpos]
    nlinarith
  -- Each number is bounded by what is known of the one before.
  have hshare : |share v n| ≤ 2 ^ 31 :=
    abs_nearest_le (isExact_of_two_mul (2 ^ 32) (by norm_num) (by norm_num)) hquotient
  have hproduct : |share v n * 65535| ≤ 2 ^ 47 := by
    rw [abs_mul, abs_of_pos (by norm_num : (0 : ℚ) < 65535)]
    linarith
  have hscaled : |scaled v n| ≤ 2 ^ 47 :=
    abs_nearest_le (isExact_of_two_mul (2 ^ 48) (by norm_num) (by norm_num)) hproduct
  have hsum : |scaled v n + -32768| ≤ 2 ^ 48 := by
    obtain ⟨hlow, hhigh⟩ := abs_le.mp hscaled
    rw [abs_le]
    constructor <;> linarith
  have hshifted : |shifted v n| ≤ 2 ^ 48 :=
    abs_nearest_le (isExact_of_two_mul (2 ^ 49) (by norm_num) (by norm_num)) hsum
  have hhalf : |shifted v n + 1 / 2| ≤ 2 ^ 49 := by
    obtain ⟨hlow, hhigh⟩ := abs_le.mp hshifted
    rw [abs_le]
    constructor <;> linarith
  exact ⟨inRange_of_le (by linarith), inRange_of_le (by linarith), inRange_of_le (by linarith),
    inRange_of_le (by linarith)⟩

/-- What is sent is the computed place, moved onto the scale. -/
private theorem toInt_rescale (v : Int32) {n : ℕ} (hn : 1 ≤ n) (hn' : n < 2 ^ 31) :
    (rescale v (.ofNat n)).toInt = min 32767 (max (-32768) (roundedPlace v.toInt n).floor) := by
  have hpos : (0 : ℚ) < n := by exact_mod_cast hn
  have hv : |v.toInt| ≤ 2 ^ 31 := by
    have hlow := v.le_toInt
    have hhigh := v.toInt_lt
    rw [abs_le]
    omega
  obtain ⟨hquotient, hproduct, hsum, hhalf⟩ := inRange_steps hv hn
  have hvalue : (Binary64.ofInt v.toInt).HasValue v.toInt := hasValue_ofInt (by omega)
  have hextent : (Binary64.ofNat n).HasValue n := hasValue_ofNat_of_le (by omega)
  have hlow : (Binary64.ofInt scaleMin).HasValue (-32768 : ℤ) := hasValue_ofInt (by decide)
  have hhigh : (Binary64.ofInt scaleMax).HasValue (32767 : ℤ) := hasValue_ofInt (by decide)
  have hspan : (Binary64.ofInt scaleMax - Binary64.ofInt scaleMin).HasValue 65535 := by
    have hround := hhigh.sub hlow (inRange_of_le (by norm_num))
    rw [show ((32767 : ℤ) : ℚ) - (-32768 : ℤ) = 65535 by norm_num] at hround
    rwa [nearest_of_isExact (isExact_of_two_mul 131070 (by norm_num) (by norm_num))] at hround
  -- The four operations round as the places do.
  have hshare : (Binary64.ofInt v.toInt / Binary64.ofNat n).HasValue (share v.toInt n) :=
    hvalue.div hextent hpos.ne' hquotient
  have hscaled := hshare.mul hspan hproduct
  have hshifted := hscaled.add (w := -32768) (by exact_mod_cast hlow) hsum
  have hplace := (hshifted.add (y := half) (w := 1 / 2) ⟨false, rfl⟩ hhalf).floor
  have hclamp := hplace.clamp hlow hhigh (by norm_num)
  have hnotDegenerate : ((Binary64.ofNat n).le 0 || !(Binary64.ofNat n).isFinite) = false := by
    have hzero : (0 : Binary64).HasValue (0 : ℕ) := hasValue_ofNat_of_le (Nat.zero_le _)
    rw [hextent.le_eq hzero, hextent.isFinite_eq]
    simp only [Nat.cast_zero, decide_eq_false (not_le.mpr hpos), Bool.not_true, Bool.or_false]
  have hsent : rescale v (.ofNat n) = Int16.ofInt
      (max scaleMin (min scaleMax (min 32767 (max (-32768) (roundedPlace v.toInt n).floor)))) := by
    unfold rescale
    rw [hnotDegenerate]
    exact congrArg Int16.ofInt hclamp.truncateInto_eq
  rw [hsent]
  simp only [scaleMin, scaleMax]
  rw [Int16.toInt_ofInt_of_le (by omega) (by omega)]
  omega

/-- Moved onto the scale, the computed place is the exact one in integers, for every position. -/
theorem rescale_eq (v : Int32) {n : ℕ} (hn : 1 ≤ n) (hn' : n < 2 ^ 31) :
    (rescale v (.ofNat n)).toInt =
      min 32767 (max (-32768) ((2 * 65535 * v.toInt + n) / (2 * n) - 32768)) := by
  rw [toInt_rescale v hn hn']
  have hpos : (0 : ℤ) < 2 * n := by omega
  rcases le_or_gt v.toInt 0 with hleft | hinside
  · -- Left of the region both numbers are clamped to the lower end.
    have hcomputed : (roundedPlace v.toInt n).floor < -32767 := by
      rw [Rat.floor_lt_iff]
      have hle := roundedPlace_of_nonpos (n := n) hleft
      push_cast
      linarith
    have hexact : (2 * 65535 * v.toInt + n) / (2 * n : ℤ) < 1 :=
      Int.ediv_lt_of_lt_mul hpos (by omega)
    omega
  · rcases lt_or_ge v.toInt n with hinside' | hright
    · rw [floor_roundedPlace hinside hinside' hn', floor_place v.toInt hn]
    · -- Right of the region both numbers are clamped to the upper end.
      have hcomputed : 32767 ≤ (roundedPlace v.toInt n).floor := by
        rw [Rat.le_floor_iff]
        have hge := roundedPlace_of_ge hn hright
        push_cast
        linarith
      have hexact : 65535 ≤ (2 * 65535 * v.toInt + n) / (2 * n : ℤ) :=
        Int.le_ediv_of_mul_le hpos (by omega)
      omega

/-- In a region of `n` pixels, `rescale` gives the nearest place on the scale, halves going up: in
    integers, with a quotient that is rounded down. The lower edge is at the lower end of the scale
    and the upper edge at the upper end. -/
theorem rescale_half_up (v : Int32) {n : ℕ} (hn : 1 ≤ n) (hn' : n < 2 ^ 31) :
    (rescale v (.ofNat n)).toInt =
      min 32767 (max (-32768) ((2 * 65535 * v.toInt + n) / (2 * n) - 32768)) ∧
    (v.toInt = 0 → (rescale v (.ofNat n)).toInt = -32768) ∧
    (v.toInt = n → (rescale v (.ofNat n)).toInt = 32767) ∧
    ∀ k : ℤ, 0 ≤ k → k < 65535 → 2 * 65535 * v.toInt = (2 * k + 1) * n →
      (rescale v (.ofNat n)).toInt = k + 1 - 32768 := by
  have hpos : (0 : ℤ) < 2 * n := by omega
  refine ⟨rescale_eq v hn hn', ?_, ?_, ?_⟩
  · intro hv
    have hquotient : (2 * 65535 * v.toInt + n) / (2 * n : ℤ) = 0 :=
      Int.ediv_eq_zero_of_lt (by omega) (by omega)
    rw [rescale_eq v hn hn', hquotient]
    rfl
  · intro hv
    have hquotient : 65535 ≤ (2 * 65535 * v.toInt + n) / (2 * n : ℤ) :=
      Int.le_ediv_of_mul_le hpos (by omega)
    rw [rescale_eq v hn hn']
    omega
  · -- A place half-way between two integers goes to the upper one.
    intro k hk hk' hhalf
    have hquotient : (2 * 65535 * v.toInt + n) / (2 * n : ℤ) = k + 1 := by
      rw [hhalf, show (2 * k + 1) * n + n = (k + 1) * (2 * n : ℤ) by ring]
      exact Int.mul_ediv_cancel _ hpos.ne'
    rw [rescale_eq v hn hn', hquotient]
    omega

/-- The middle of a region of 800 pixels is half a step above -1, and goes up. -/
theorem rescale_half_up_middle :
    (1 : ℕ) ≤ 800 ∧ (800 : ℕ) < 2 ^ 31 ∧ (rescale 400 (.ofNat 800)).toInt = 0 := by
  refine ⟨by norm_num, by norm_num, ?_⟩
  obtain ⟨-, -, -, hhalf⟩ := rescale_half_up 400 (n := 800) (by norm_num) (by norm_num)
  exact hhalf 32767 (by norm_num) (by norm_num) (by decide)

end KvmConsole.Pointer
