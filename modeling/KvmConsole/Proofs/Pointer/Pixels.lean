import KvmConsole.Pointer.Geometry
import KvmConsole.Proofs.Binary64.Order

/-!
# Whole pixels

A distance from an edge of the region becomes whole pixels by adding a half in binary64 and dropping
the fraction. The addition rounds, and a sum that is rounded up to the next integer is one pixel too
much. That does not happen to a number that is not above its nearest integer: the sum is between the
integer and the half after it, and both are binary64 values. Above the integer the sum is exact,
except between zero and a half. There it has a wider spacing than the number, and one number is
nearer to a half than that spacing: it belongs to 0, and 1 is computed.

Key results:
* `RoundsUp`, `IsPixel`: the nearest integer, halves going up, and how far 32 bits reach.
* `floor_nearest_add_half`: the sum is on the right side of every integer, for all numbers but one.
* `whole_of_isExact`: what is computed, beyond 32 bits too.
* `localPosition_isPixel_iff`: which positions are the nearest pixels.
* `localPosition_next_below_half`: the one distance for which they are not.
-/

namespace KvmConsole.Pointer

open Binary64

/-! ## The nearest integer -/

/-- No integer is nearer to `q` than `n`, and `n` is the greater one of two that are equally
    near. -/
structure RoundsUp (q : ℚ) (n : ℤ) : Prop where
  near : |q - n| ≤ 1 / 2
  up : |q - n| = 1 / 2 → q < n

private theorem roundsUp_iff {q : ℚ} {n : ℤ} : RoundsUp q n ↔ ⌊q + 1 / 2⌋ = n := by
  -- The floor is an integer between two bounds, one of which may be reached.
  rw [Int.floor_eq_iff]
  constructor
  · rintro ⟨hnear, hup⟩
    obtain ⟨hlow, hhigh⟩ := abs_le.mp hnear
    refine ⟨by linarith, ?_⟩
    -- The half above an integer does not round to it.
    by_contra hge
    have hhalf : q - n = 1 / 2 := by linarith
    have hlt := hup (by rw [hhalf]; norm_num)
    linarith
  · rintro ⟨hlow, hhigh⟩
    refine ⟨abs_le.mpr ⟨by linarith, by linarith⟩, ?_⟩
    intro hhalf
    by_contra hge
    rw [abs_of_nonneg (by linarith)] at hhalf
    linarith

/-! ## A half added -/

/-- The greatest binary64 value below a half. -/
def belowHalf : ℚ := (2 ^ 53 - 1) / 2 ^ 54

section Half

variable {v : ℚ} {n : ℤ}

/-- Up to its integer, a number and a half stay between the integer and the half after it. -/
private theorem floor_nearest_of_le (hbound : |v| ≤ 2 ^ 51) (hlow : n ≤ v + 1 / 2) (hle : v ≤ n) :
    ⌊nearest (v + 1 / 2)⌋ = n := by
  obtain ⟨hleast, hmost⟩ := abs_le.mp hbound
  have hn : -2 ^ 51 ≤ n := by exact_mod_cast hleast.trans hle
  have hn' : n < 2 ^ 51 + 1 := by
    have : (n : ℚ) < 2 ^ 51 + 1 := by linarith
    exact_mod_cast this
  -- The rounding passes neither of the two ends.
  have hinteger : IsExact n := isExact_intCast (abs_le.mpr (by omega))
  have hhalf : IsExact (n + 1 / 2) := by
    apply isExact_of_two_mul (2 * n + 1) (abs_le.mpr (by omega))
    push_cast
    ring
  have hmiddle := nearest_le_of_le hhalf (add_le_add_left hle _)
  rw [Int.floor_eq_iff]
  exact ⟨le_nearest_of_le hinteger hlow, by linarith⟩

/-- The sum is exact if it does not reach beyond the power of two above the number. -/
private theorem isExact_add_half (hv : IsExact v) (hlow : 1 / 2 ≤ |v|) (hbound : |v| ≤ 2 ^ 51)
    (hsum : |v + 1 / 2| ≤ 2 ^ (exponent v + 1)) : IsExact (v + 1 / 2) := by
  have hne : v ≠ 0 := by
    rintro rfl
    norm_num at hlow
  -- The exponent lies between that of a half and that of the bound.
  have hleast : -1 ≤ exponent v := (le_exponent_iff hne).mpr (by simpa using hlow)
  have hmost : exponent v < 52 := (exponent_lt_iff hne).mpr (hbound.trans_lt (by norm_num))
  obtain ⟨m, hm⟩ := hv.exists_grid (exponent_spec hne).1
  generalize exponent v = e at *
  -- A half is on the grid of the number, and so is the sum.
  have hhalf : (1 / 2 : ℚ) = (2 ^ (-1 - (e - 52)).toNat : ℤ) * 2 ^ (e - 52) := by
    rw [zpow_mul_grid (by omega)]
    norm_num
  rw [hm, hhalf, ← add_mul, ← Int.cast_add] at hsum ⊢
  apply isExact_of_abs_le (by omega)
  rwa [show e - 52 + 53 = e + 1 by ring]

/-- Below zero the sum is nearer to zero than the number. -/
private theorem isExact_add_half_of_le (hv : IsExact v) (hbound : |v| ≤ 2 ^ 51)
    (hle : v ≤ -(1 / 2)) :
    IsExact (v + 1 / 2) := by
  have hne : v ≠ 0 := by linarith
  have habs : |v| = -v := abs_of_neg (by linarith)
  apply isExact_add_half hv (by linarith) hbound
  calc |v + 1 / 2| = -(v + 1 / 2) := abs_of_nonpos (by linarith)
    _ ≤ |v| := by linarith
    _ ≤ 2 ^ (exponent v + 1) := (exponent_spec hne).2.le

/-- Above zero the sum does not reach the next integer, and no power of two comes before that. -/
private theorem isExact_add_half_of_gt (hv : IsExact v) (hbound : |v| ≤ 2 ^ 51) (hn : 1 ≤ n)
    (hgt : n < v)
    (hlt : v + 1 / 2 < n + 1) : IsExact (v + 1 / 2) := by
  have hone : (1 : ℚ) ≤ n := by exact_mod_cast hn
  have hne : v ≠ 0 := by linarith
  have habs : |v| = v := abs_of_pos (by linarith)
  have hexponent : 0 ≤ exponent v := (le_exponent_iff hne).mpr (by rw [zpow_zero]; linarith)
  -- The power of two above the number is an integer.
  have hpower := zpow_mul_grid (e := exponent v + 1) (k := 0) (by omega)
  rw [zpow_zero, mul_one] at hpower
  have hnext : n + 1 ≤ 2 ^ (exponent v + 1 - 0).toNat := by
    -- The integer is below it, and so by one at least.
    have hhigh := (exponent_spec hne).2
    rw [← hpower, habs] at hhigh
    exact_mod_cast hgt.trans hhigh
  apply isExact_add_half hv (by linarith) hbound
  calc |v + 1 / 2| = v + 1 / 2 := abs_of_nonneg (by linarith)
    _ ≤ ((n + 1 : ℤ) : ℚ) := by
        push_cast
        exact hlt.le
    _ ≤ 2 ^ (exponent v + 1) := by
        rw [← hpower]
        exact_mod_cast hnext

/-- Above its integer, a number and a half are exact, unless the integer is zero. -/
private theorem floor_nearest_of_gt (hv : IsExact v) (hbound : |v| ≤ 2 ^ 51) (hn : n ≠ 0)
    (hgt : n < v)
    (hlt : v + 1 / 2 < n + 1) : ⌊nearest (v + 1 / 2)⌋ = n := by
  have hexact : IsExact (v + 1 / 2) := by
    rcases hn.lt_or_gt with hneg | hpos
    · have hle : (n : ℚ) ≤ -1 := by exact_mod_cast Int.le_sub_one_of_lt hneg
      exact isExact_add_half_of_le hv hbound (by linarith)
    · exact isExact_add_half_of_gt hv hbound hpos hgt hlt
  rw [nearest_of_isExact hexact, Int.floor_eq_iff]
  exact ⟨by linarith, hlt⟩

/-- What is below a half by more than one spacing is so by two, which is the spacing of the sum. -/
private theorem le_of_lt_half (hv : IsExact v) (hlt : v < 1 / 2) (hne : v ≠ belowHalf) :
    v ≤ (2 ^ 53 - 2) / 2 ^ 54 := by
  -- Below a quarter there is nothing to show.
  rcases lt_or_ge v (1 / 4) with hsmall | hlarge
  · exact hsmall.le.trans (by norm_num)
  · have hlow : (2 : ℚ) ^ (-2 : ℤ) ≤ |v| := by
      rw [abs_of_pos (by linarith)]
      norm_num
      linarith
    -- From a quarter on the spacing is `2 ^ -54`, and `belowHalf` is the last point of the grid.
    obtain ⟨m, rfl⟩ := hv.exists_grid hlow
    have hspacing : (2 : ℚ) ^ ((-2 : ℤ) - 52) = 1 / 2 ^ 54 := by norm_num
    rw [hspacing] at hlt hne ⊢
    have hm : m < 2 ^ 53 := by
      have : (m : ℚ) < 2 ^ 53 := by linarith
      exact_mod_cast this
    have hm' : m ≠ 2 ^ 53 - 1 := by
      rintro rfl
      apply hne
      norm_num [belowHalf]
    have hle : (m : ℚ) ≤ 2 ^ 53 - 2 := by exact_mod_cast (by omega : m ≤ 2 ^ 53 - 2)
    linarith

/-- Between zero and a half the sum stays below one. -/
private theorem floor_nearest_of_lt_half (hv : IsExact v) (hpos : 0 ≤ v) (hlt : v < 1 / 2)
    (hne : v ≠ belowHalf) : ⌊nearest (v + 1 / 2)⌋ = 0 := by
  have hle := le_of_lt_half hv hlt hne
  -- The greatest binary64 value below one is not passed.
  have hexact : IsExact ((2 ^ 53 - 1) / 2 ^ 53) :=
    ⟨2 ^ 53 - 1, -53, by norm_num, by norm_num, by norm_num⟩
  have hbelow := nearest_le_of_le hexact (q := v + 1 / 2) (by linarith)
  rw [Int.floor_eq_zero_iff]
  exact ⟨nearest_nonneg (by linarith), hbelow.trans_lt (by norm_num)⟩

/-- The sum is on the right side of every integer, for all numbers but one. -/
theorem floor_nearest_add_half (hv : IsExact v) (hbound : |v| ≤ 2 ^ 51) (hne : v ≠ belowHalf) :
    ⌊nearest (v + 1 / 2)⌋ = ⌊v + 1 / 2⌋ := by
  obtain ⟨hlow, hhigh⟩ := Int.floor_eq_iff.mp (rfl : ⌊v + 1 / 2⌋ = _)
  generalize ⌊v + 1 / 2⌋ = n at *
  -- The middle of a pixel is its integer: before it the ends of the pixel bound the sum, after it
  -- the sum is exact.
  rcases le_or_gt v n with hle | hgt
  · exact floor_nearest_of_le hbound hlow hle
  · rcases eq_or_ne n 0 with rfl | hn
    · rw [Int.cast_zero] at hgt hhigh
      exact floor_nearest_of_lt_half hv hgt.le (by linarith) hne
    · exact floor_nearest_of_gt hv hbound hn hgt hhigh

/-- The one number is half a spacing of the sum below one, and one is the even neighbour. -/
private theorem nearest_belowHalf_add_half : nearest (belowHalf + 1 / 2) = 1 := by decide +kernel

/-- Without rounding the number below a half stays below one. -/
private theorem floor_belowHalf_add_half : ⌊belowHalf + 1 / 2⌋ = 0 := by
  rw [Int.floor_eq_zero_iff]
  norm_num [belowHalf]

end Half

/-! ## What is computed -/

/-- The whole pixels of a distance, as they are computed. -/
def whole (d : Binary64) : ℤ := (roundHalfUp d).truncateInto (-2147483648) 2147483647

section Whole

variable {x y d : Binary64} {v : ℚ}

/-- A pixel is an integer of 32 bits. -/
private theorem whole_range (d : Binary64) : -2 ^ 31 ≤ whole d ∧ whole d ≤ 2 ^ 31 - 1 :=
  truncateInto_mem (roundHalfUp d) (by norm_num) (by norm_num)

/-- The conversion to 32 bits loses nothing, as the pixel is in range. -/
private theorem toInt_pixels (coordinate edge : Binary64) :
    (pixels coordinate edge).toInt = whole (coordinate - edge) := by
  obtain ⟨hlow, hhigh⟩ := whole_range (coordinate - edge)
  show (Int32.ofInt (whole (coordinate - edge))).toInt = _
  exact Int32.toInt_ofInt_of_le hlow (by omega)

/-- The pixel of a larger distance is not smaller. -/
private theorem whole_le_whole (h : x.le y) : whole x ≤ whole y :=
  truncateInto_le_truncateInto (floor_le_floor (add_le_add h ⟨false, rfl⟩)) (by norm_num)
    (by norm_num)

/-- The ends of the range are the pixels of its two powers of two. -/
private theorem whole_ends :
    whole (.finite true (-2 ^ 31)) = -2 ^ 31 ∧ whole (.finite false (2 ^ 31)) = 2 ^ 31 - 1 := by
  decide +kernel

/-- As far as 32 bits reach, nothing overflows. -/
private theorem whole_of_abs_le (hd : d.HasValue v) (h : |v| ≤ 2 ^ 31) :
    whole d = max (-2 ^ 31) (min (2 ^ 31 - 1) ⌊nearest (v + 1 / 2)⌋) := by
  have hrange : InRange (v + 1 / 2) := by
    apply inRange_of_le
    obtain ⟨hlow, hhigh⟩ := abs_le.mp h
    rw [abs_le]
    constructor <;> linarith
  have hsum : (d + half).HasValue (nearest (v + 1 / 2)) := hd.add ⟨false, rfl⟩ hrange
  exact hsum.floor.truncateInto_eq

/-- Further out the order alone decides, since what is beyond an end comes out at the end. -/
theorem whole_of_isExact (hd : d.HasValue v) (hv : IsExact v) (hne : v ≠ belowHalf) :
    whole d = max (-2 ^ 31) (min (2 ^ 31 - 1) ⌊v + 1 / 2⌋) := by
  have hrange := whole_range d
  rcases le_total |v| (2 ^ 31) with hinside | houtside
  · rw [whole_of_abs_le hd hinside, floor_nearest_add_half hv (hinside.trans (by norm_num)) hne]
  · -- The pixel is no further inside than that of the end, and not further outside either.
    rcases le_abs.mp houtside with hhigh | hlow
    · have hle := whole_le_whole (le_of_hasValue ⟨false, rfl⟩ hd hhigh)
      have hfloor : 2 ^ 31 ≤ ⌊v + 1 / 2⌋ := Int.le_floor.mpr (by push_cast; linarith)
      rw [whole_ends.2] at hle
      omega
    · have hle := whole_le_whole (le_of_hasValue hd ⟨true, rfl⟩ (le_neg.mp hlow))
      have hfloor : ⌊v + 1 / 2⌋ < -2 ^ 31 + 1 := Int.floor_lt.mpr (by push_cast; linarith)
      rw [whole_ends.1] at hle
      omega

/-- The number below a half is sent to one, as the sum rounds to one. -/
private theorem whole_of_belowHalf (hd : d.HasValue belowHalf) : whole d = 1 := by
  rw [whole_of_abs_le hd (by norm_num [belowHalf, abs_le]), nearest_belowHalf_add_half]
  norm_num

end Whole

/-! ## The nearest pixel -/

/-- `p` is the pixel of a distance: the nearest integer, halves going up, or the end of the 32-bit
    integers if that is beyond them. -/
def IsPixel (d : Binary64) (p : ℤ) : Prop :=
  match d with
  | .nan => False
  | .infinity negative => p = if negative then -2 ^ 31 else 2 ^ 31 - 1
  | .finite _ v => ∃ n, RoundsUp v n ∧ p = max (-2 ^ 31) (min (2 ^ 31 - 1) n)

/-- A finite distance has one nearest pixel within the range. -/
private theorem isPixel_iff_of_hasValue {d : Binary64} {v : ℚ} {p : ℤ} (hd : d.HasValue v) :
    IsPixel d p ↔ p = max (-2 ^ 31) (min (2 ^ 31 - 1) ⌊v + 1 / 2⌋) := by
  obtain ⟨s, rfl⟩ := hd
  simp [IsPixel, roundsUp_iff]

/-- The nearest pixel of the number below a half is zero. -/
private theorem isPixel_iff_of_belowHalf {d : Binary64} {p : ℤ} (hd : d.HasValue belowHalf) :
    IsPixel d p ↔ p = 0 := by
  rw [isPixel_iff_of_hasValue hd, floor_belowHalf_add_half]
  norm_num

section Axis

variable {coordinate edge : Binary64}

/-- On one axis, the pixel is right for every distance but one. -/
private theorem isPixel_pixels_iff (hcoordinate : coordinate.isFinite) (hedge : edge.isFinite) :
    IsPixel (coordinate - edge) (pixels coordinate edge).toInt ↔
      ¬(coordinate - edge).HasValue belowHalf := by
  have hround := (hasValue_toRat hcoordinate).isRounding_sub (hasValue_toRat hedge)
  rw [toInt_pixels]
  generalize coordinate - edge = d at *
  cases d with
  | nan => exact absurd rfl hround.ne_nan
  | infinity s =>
    -- The distance has overflowed.
    refine iff_of_true ?_ ?_
    · cases s <;> rfl
    · rintro ⟨t, ⟨⟩⟩
  | finite s v =>
    have hd : (Binary64.finite s v).HasValue v := ⟨s, rfl⟩
    constructor
    · -- One is computed where zero would be right.
      intro hpixel hbelow
      rw [whole_of_belowHalf hbelow, isPixel_iff_of_belowHalf hbelow] at hpixel
      exact one_ne_zero hpixel
    · -- The rounding of the sum does no harm.
      intro hne
      have hv : v ≠ belowHalf := by
        rintro rfl
        exact hne hd
      rw [isPixel_iff_of_hasValue hd, whole_of_isExact hd (hround.isExact hd) hv]

/-- At a distance of the number below a half, the pixel is one. -/
private theorem pixels_of_belowHalf (h : (coordinate - edge).HasValue belowHalf) :
    pixels coordinate edge = 1 := by
  rw [← Int32.toInt_inj, toInt_pixels, whole_of_belowHalf h]
  rfl

end Axis

/-- The position of every point in every region, all of them given by finite numbers. On each axis
    it is the pixel of the distance from the edge of the region, unless that distance is the
    greatest binary64 value below a half, and then it is 1. -/
theorem localPosition_isPixel_iff (r : Region) (x y : Binary64) (hx : x.isFinite) (hy : y.isFinite)
    (hleft : r.left.isFinite) (htop : r.top.isFinite) :
    (IsPixel (x - r.left) (r.localPosition x y).x.toInt ↔ ¬(x - r.left).HasValue belowHalf) ∧
    (IsPixel (y - r.top) (r.localPosition x y).y.toInt ↔ ¬(y - r.top).HasValue belowHalf) ∧
    ((x - r.left).HasValue belowHalf → (r.localPosition x y).x = 1) ∧
    ((y - r.top).HasValue belowHalf → (r.localPosition x y).y = 1) :=
  ⟨isPixel_pixels_iff hx hleft, isPixel_pixels_iff hy htop, pixels_of_belowHalf,
    pixels_of_belowHalf⟩

/-- The greatest binary64 value. -/
def largest : Binary64 := ofBits 0x7fefffffffffffff

/-- A region whose left edge is as far away as an edge can be. -/
def remote : Region := ⟨-largest, 50, 640, 480⟩

/-- From the edge that is farthest away the distance overflows, and the half above 10 goes up. -/
theorem localPosition_isPixel_iff_remote :
    largest.isFinite ∧ (ofBits 0x404e400000000000).isFinite ∧ remote.left.isFinite ∧
    remote.top.isFinite ∧
    remote.localPosition largest (ofBits 0x404e400000000000) = ⟨2147483647, 11⟩ ∧
    largest - remote.left = .infinity false ∧
    IsPixel (largest - remote.left) (2147483647 : Int32).toInt ∧
    ofBits 0x404e400000000000 - remote.top = .finite false (21 / 2) ∧
    IsPixel (ofBits 0x404e400000000000 - remote.top) (11 : Int32).toInt := by
  have hx : largest.isFinite := by decide +kernel
  have hy : (ofBits 0x404e400000000000).isFinite := by decide +kernel
  have hleft : remote.left.isFinite := by decide +kernel
  have htop : remote.top.isFinite := by decide +kernel
  have hposition : remote.localPosition largest (ofBits 0x404e400000000000) = ⟨2147483647, 11⟩ := by
    decide +kernel
  have hfar : largest - remote.left = .infinity false := by decide +kernel
  have hnear : ofBits 0x404e400000000000 - remote.top = .finite false (21 / 2) := by decide +kernel
  obtain ⟨hpixel, hpixel', -, -⟩ := localPosition_isPixel_iff remote _ _ hx hy hleft htop
  rw [hposition] at hpixel hpixel'
  -- Neither distance is the exception, the number next below one half.
  refine ⟨hx, hy, hleft, htop, hposition, hfar, hpixel.mpr ?_, hnear, hpixel'.mpr ?_⟩
  · rw [hfar]
    rintro ⟨s, ⟨⟩⟩
  · rw [hnear]
    rintro ⟨s, heq⟩
    injection heq with _ hvalue
    norm_num [belowHalf] at hvalue

/-- Next below a half the nearest integer is 0, and the position is 1. -/
theorem localPosition_next_below_half :
    (ofBits 0x3fdfffffffffffff).isFinite ∧
    Region.localPosition ⟨0, 0, 10, 10⟩ (ofBits 0x3fdfffffffffffff) 0 = ⟨1, 0⟩ ∧
    IsPixel (ofBits 0x3fdfffffffffffff - 0) 0 ∧ ¬IsPixel (ofBits 0x3fdfffffffffffff - 0) 1 := by
  have hdistance : (ofBits 0x3fdfffffffffffff - 0).HasValue belowHalf :=
    ⟨false, by decide +kernel⟩
  refine ⟨by decide +kernel, by decide +kernel, ?_, ?_⟩
  · rw [isPixel_iff_of_belowHalf hdistance]
  · rw [isPixel_iff_of_belowHalf hdistance]
    exact one_ne_zero

end KvmConsole.Pointer
