import KvmConsole.Pointer.Geometry
import KvmConsole.Proofs.Binary64.Order

/-!
# Regions of any extent

An extent is any datum at all. One that is not a positive number is refused, and everything is at
the lower end of the scale then. For all others `rescale` computes a place and moves it onto the
scale. On the way the quotient may overflow to an infinity or vanish, but each step keeps the order
of its operands, and with it the absence of NaNs.

Key results:
* `isExtent_iff`: which extents are accepted.
* `Steps.rounded_le_rounded`, `Steps.onScale_le_onScale`: from the quotient on, every step keeps the
  order.
* `Steps.ne_nan`: no step gives a NaN.
* `rescale_of_isExtent`: what is sent, in terms of the steps.
* `rescale_any_extent`: order, ends and steps for every extent.
-/

namespace KvmConsole.Pointer

open Binary64

/-! ## Extents -/

/-- The extent is a positive number. -/
def IsExtent (e : Binary64) : Prop := ∃ q, 0 < q ∧ e.HasValue q

/-- The guard refuses whatever is no positive number. -/
theorem isExtent_iff {e : Binary64} : IsExtent e ↔ (e.le 0 || !e.isFinite) = false := by
  -- The check of the code is a comparison with zero and a test for finiteness.
  cases e with
  | nan | infinity _ => simp [IsExtent, HasValue, isFinite]
  | finite s q =>
    have hvalue : (Binary64.finite s q).HasValue q := ⟨s, rfl⟩
    rw [hvalue.le_eq hasValue_zero, hvalue.isFinite_eq]
    constructor
    · rintro ⟨r, hr, t, heq⟩
      cases heq
      simpa using hr
    · intro h
      exact ⟨q, by simpa using h, hvalue⟩

/-! ## The steps -/

namespace Steps

/-- The ends of the scale as numbers. -/
def low : Binary64 := .ofInt scaleMin

def high : Binary64 := .ofInt scaleMax

/-- The position as a share of the extent. -/
def quotient (v : Int32) (e : Binary64) : Binary64 := .ofInt v.toInt / e

/-- The steps from a share to its place: on a scale from zero, on the daemon's scale, a half added,
    and the fraction dropped. -/
def product (x : Binary64) : Binary64 := x * (high - low)

def sum (x : Binary64) : Binary64 := product x + low

def raised (x : Binary64) : Binary64 := sum x + half

def rounded (x : Binary64) : Binary64 := (raised x).floor

/-- All numbers that are computed before the place is moved onto the scale. -/
def all (v : Int32) (e : Binary64) : List Binary64 :=
  let x := quotient v e
  [.ofInt v.toInt, high - low, x, product x, sum x, raised x, rounded x]

/-- A place moved onto the scale. -/
def sent (place : Binary64) : ℤ := (place.clamp low high).truncateInto scaleMin scaleMax

/-- What is sent for a share. -/
def onScale (x : Binary64) : ℤ := sent (rounded x)

/-! ### Numbers -/

/-- The lower end of the scale as a double. -/
private theorem low_eq : low = .finite true (-32768) := by
  have heq := ofInt_eq (n := scaleMin) (by decide)
  simpa [low, scaleMin] using heq

/-- The upper end of the scale as a double. -/
private theorem high_eq : high = .finite false 32767 := by
  have heq := ofInt_eq (n := scaleMax) (by decide)
  simpa [high, scaleMax] using heq

/-- The scale is 65535 steps long, and no rounding is involved. -/
private theorem span_eq : high - low = .finite false 65535 := by
  have heq := ofInt_eq (n := 65535) (by decide)
  rw [high_eq, low_eq]
  show Binary64.sub _ _ = _
  norm_num [Binary64.sub, Binary64.add, Binary64.neg]
  simpa [ofInt] using heq

/-- Every coordinate is a double exactly. -/
private theorem hasValue_ofInt32 (v : Int32) : (Binary64.ofInt v.toInt).HasValue v.toInt := by
  apply hasValue_ofInt
  have hlow := v.le_toInt
  have hhigh := v.toInt_lt
  rw [abs_le]
  omega

/-- A whole number is clamped to the scale. -/
private theorem sent_of_hasValue {x : Binary64} {n : ℤ} (hx : x.HasValue n) :
    sent x = max (-32768) (min 32767 n) := by
  have hlow : low.HasValue (-32768 : ℤ) := ⟨true, by rw [low_eq]; norm_num⟩
  have hhigh : high.HasValue (32767 : ℤ) := ⟨false, by rw [high_eq]; norm_num⟩
  have hclamp := hx.clamp hlow hhigh (by norm_num)
  rw [sent, hclamp.truncateInto_eq]
  simp only [scaleMin, scaleMax]
  omega

/-- An infinite number ends up at one end of the scale. -/
private theorem sent_infinity (s : Bool) : sent (.infinity s) = if s then -32768 else 32767 := by
  rw [sent, low_eq, high_eq]
  cases s <;> rfl

/-- What is sent is on the scale, whatever the number was. -/
private theorem sent_range (place : Binary64) : -32768 ≤ sent place ∧ sent place ≤ 32767 :=
  truncateInto_mem (place.clamp low high) (by decide) (by decide)

/-- What is sent for a quotient is on the scale. -/
private theorem onScale_range (x : Binary64) : -32768 ≤ onScale x ∧ onScale x ≤ 32767 :=
  sent_range (rounded x)

/-- The near edge has its place exactly, and so has the far edge. -/
private theorem onScale_edges :
    onScale (.finite false 0) = -32768 ∧ onScale (.finite false 1) = 32767 := by decide +kernel

/-! ### Order -/

section Order

variable {x y : Binary64} (h : x.le y)

include h

/-- Scaling keeps the order. -/
private theorem product_le_product : (product x).le (product y) := by
  rw [product, product, span_eq]
  exact mul_le_mul h (by norm_num)

/-- Shifting keeps the order. -/
private theorem sum_le_sum : (sum x).le (sum y) := by
  apply add_le_add (product_le_product h)
  exact ⟨true, low_eq⟩

/-- Adding a half keeps the order. -/
private theorem raised_le_raised : (raised x).le (raised y) :=
  add_le_add (sum_le_sum h) ⟨false, rfl⟩

/-- All the steps up to the floor keep the order. -/
theorem rounded_le_rounded : (rounded x).le (rounded y) :=
  floor_le_floor (raised_le_raised h)

/-- Places in their order are sent in that order. -/
private theorem sent_floor_le_sent_floor : sent x.floor ≤ sent y.floor := by
  match x, y, h with
  | .finite s v, .finite t w, h =>
    have hle : v.floor ≤ w.floor := Int.floor_mono (of_decide_eq_true h)
    rw [sent_of_hasValue (HasValue.floor ⟨s, rfl⟩), sent_of_hasValue (HasValue.floor ⟨t, rfl⟩)]
    omega
  -- The infinities are at the ends.
  | .infinity true, y, _ =>
    show sent (.infinity true) ≤ _
    rw [sent_infinity]
    exact (sent_range _).1
  | x, .infinity false, _ =>
    show _ ≤ sent (.infinity false)
    rw [sent_infinity]
    exact (sent_range _).2

/-- A larger quotient is never sent as a smaller number. -/
theorem onScale_le_onScale : onScale x ≤ onScale y :=
  sent_floor_le_sent_floor (raised_le_raised h)

end Order

section Extent

variable {v w : Int32} {e : Binary64}

/-- A larger coordinate has a larger quotient, as the extent is positive. -/
private theorem quotient_le_quotient (he : IsExtent e) (h : v ≤ w) :
    (quotient v e).le (quotient w e) := by
  obtain ⟨q, hq, he⟩ := he
  have hle : v.toInt ≤ w.toInt := Int32.le_iff_toInt_le.mp h
  exact div_le_div (hasValue_ofInt32 v) (hasValue_ofInt32 w) (by exact_mod_cast hle) he hq

/-- The shares of the edges bound those of the positions outside. -/
private theorem quotient_le_zero (he : IsExtent e) (h : v ≤ 0) :
    (quotient v e).le (.finite false 0) := by
  obtain ⟨q, hq, he⟩ := he
  have hle : v.toInt ≤ 0 := Int32.le_iff_toInt_le.mp h
  have hshare := (hasValue_ofInt32 v).isRounding_div he hq.ne'
  refine hshare.le (.inr ⟨rfl, false, rfl⟩) ?_
  exact div_nonpos_of_nonpos_of_nonneg (by exact_mod_cast hle) hq.le

/-- Beyond the extent the quotient is at least one. -/
private theorem one_le_quotient {q : ℚ} (hq : 0 < q) (he : e.HasValue q) (h : q ≤ v.toInt) :
    (Binary64.finite false 1).le (quotient v e) := by
  have hone : Binary64.finite false 1 = ofRat 1 := by
    simpa [ofInt] using (ofInt_eq (n := 1) (by decide)).symm
  have hshare := (hasValue_ofInt32 v).isRounding_div he hq.ne'
  refine IsRounding.le (.inl hone) hshare ?_
  rwa [one_le_div hq]

/-- No step gives a NaN: each of them is comparable with itself. -/
theorem ne_nan (he : IsExtent e) : ∀ x ∈ all v e, x ≠ nan := by
  have hself : (quotient v e).le (quotient v e) :=
    quotient_le_quotient he (Int32.le_refl v)
  have hvalue : (Binary64.ofInt v.toInt).le (.ofInt v.toInt) :=
    le_of_hasValue (hasValue_ofInt32 v) (hasValue_ofInt32 v) le_rfl
  intro x hx
  simp only [all, List.mem_cons, List.not_mem_nil, or_false] at hx
  -- Nothing that is less than or equal to something is NaN.
  rcases hx with rfl | rfl | rfl | rfl | rfl | rfl | rfl
  · exact (ne_nan_of_le hvalue).1
  · simp [span_eq]
  · exact (ne_nan_of_le hself).1
  · exact (ne_nan_of_le (product_le_product hself)).1
  · exact (ne_nan_of_le (sum_le_sum hself)).1
  · exact (ne_nan_of_le (raised_le_raised hself)).1
  · exact (ne_nan_of_le (rounded_le_rounded hself)).1

end Extent

end Steps

/-! ## What is sent -/

open Steps

variable {e : Binary64}

/-- Over an extent the steps are made one after the other. -/
theorem rescale_of_isExtent (he : IsExtent e) (v : Int32) :
    rescale v e = Int16.ofInt (onScale (quotient v e)) := by
  unfold rescale
  rw [isExtent_iff.mp he]
  rfl

/-- Without an extent the lower end is sent. -/
private theorem rescale_of_not_isExtent (he : ¬IsExtent e) (v : Int32) : rescale v e = -32768 := by
  unfold rescale
  rw [isExtent_iff, Bool.not_eq_false] at he
  rw [he]
  rfl

/-- The conversion to 16 bits loses nothing, as the number is on the scale. -/
private theorem toInt_rescale_of_isExtent (he : IsExtent e) (v : Int32) :
    (rescale v e).toInt = onScale (quotient v e) := by
  obtain ⟨hlow, hhigh⟩ := onScale_range (quotient v e)
  rw [rescale_of_isExtent he, Int16.toInt_ofInt_of_le hlow (by omega)]

/-- A larger coordinate is never rescaled to a smaller one, over whatever extent. -/
private theorem rescale_mono {v w : Int32} (h : v ≤ w) : rescale v e ≤ rescale w e := by
  by_cases he : IsExtent e
  · rw [Int16.le_iff_toInt_le, toInt_rescale_of_isExtent he, toInt_rescale_of_isExtent he]
    exact onScale_le_onScale (quotient_le_quotient he h)
  · rw [rescale_of_not_isExtent he, rescale_of_not_isExtent he]
    exact Int16.le_refl _

/-- Coordinates up to zero are at the lower end. -/
private theorem rescale_of_nonpos {v : Int32} (h : v ≤ 0) : rescale v e = -32768 := by
  by_cases he : IsExtent e
  · have hle := onScale_le_onScale (quotient_le_zero he h)
    have hrange := onScale_range (quotient v e)
    rw [onScale_edges.1] at hle
    have hplace : onScale (quotient v e) = -32768 := by omega
    rw [rescale_of_isExtent he, hplace]
    rfl
  · exact rescale_of_not_isExtent he v

/-- Coordinates from the extent on are at the upper end. -/
private theorem rescale_of_beyond {v : Int32} {q : ℚ} (hq : 0 < q) (he : e.HasValue q)
    (h : q ≤ v.toInt) : rescale v e = 32767 := by
  have hle := onScale_le_onScale (one_le_quotient hq he h)
  have hrange := onScale_range (quotient v e)
  rw [onScale_edges.2] at hle
  have hplace : onScale (quotient v e) = 32767 := by omega
  rw [rescale_of_isExtent ⟨q, hq, he⟩, hplace]
  rfl

/-- `rescale` for every extent, be it a number, an infinity or a NaN. A greater position has no
    smaller place. What is not right of the near edge is at the lower end of the scale, and if the
    extent is a positive number, then what is not left of the far edge is at the upper end. With any
    other extent everything is at the lower end. The place that is moved onto the scale is never a
    NaN, and neither is any number that it is computed from. -/
theorem rescale_any_extent (e : Binary64) :
    (∀ v w : Int32, v ≤ w → rescale v e ≤ rescale w e) ∧
    (∀ v : Int32, v ≤ 0 → rescale v e = -32768) ∧
    (∀ q : ℚ, 0 < q → e.HasValue q → ∀ v : Int32, q ≤ v.toInt → rescale v e = 32767) ∧
    (¬IsExtent e → ∀ v : Int32, rescale v e = -32768) ∧
    (IsExtent e → ∀ v : Int32,
      rescale v e = Int16.ofInt
        (((rounded (quotient v e)).clamp low high).truncateInto scaleMin scaleMax) ∧
      ∀ x ∈ Steps.all v e, x ≠ nan) := by
  refine ⟨?_, ?_, ?_, ?_, ?_⟩
  · intro v w h
    exact rescale_mono h
  · intro v h
    exact rescale_of_nonpos h
  · intro q hq he v h
    exact rescale_of_beyond hq he h
  · intro he v
    exact rescale_of_not_isExtent he v
  · intro he v
    exact ⟨rescale_of_isExtent he v, ne_nan he⟩

/-- The smallest positive extent: the share of one pixel overflows, and the pixel is at the upper
    end. With a NaN as the extent everything is at the lower end. -/
theorem rescale_any_extent_smallest :
    (1 : Int32) ≤ 2 ∧ rescale 1 (ofBits 1) ≤ rescale 2 (ofBits 1) ∧
    (-5 : Int32) ≤ 0 ∧ rescale (-5) (ofBits 1) = -32768 ∧
    0 < powerOfTwo (-1074) ∧ (ofBits 1).HasValue (powerOfTwo (-1074)) ∧
    powerOfTwo (-1074) ≤ ((1 : Int32).toInt : ℚ) ∧ rescale 1 (ofBits 1) = 32767 ∧
    quotient 1 (ofBits 1) = .infinity false ∧ (∀ x ∈ Steps.all 1 (ofBits 1), x ≠ nan) ∧
    ¬IsExtent nan ∧ rescale 7 nan = -32768 := by
  have hle : (1 : Int32) ≤ 2 := by decide
  have hnonpos : (-5 : Int32) ≤ 0 := by decide
  have hpos : 0 < powerOfTwo (-1074) := by decide +kernel
  have hbeyond : powerOfTwo (-1074) ≤ ((1 : Int32).toInt : ℚ) := by decide +kernel
  have hvalue : (ofBits 1).HasValue (powerOfTwo (-1074)) := ⟨false, by decide +kernel⟩
  have hoverflow : quotient 1 (ofBits 1) = .infinity false := by decide +kernel
  have hnan : ¬IsExtent nan := by rintro ⟨q, -, s, ⟨⟩⟩
  obtain ⟨hmono, hlower, hupper, -, hsteps⟩ := rescale_any_extent (ofBits 1)
  obtain ⟨-, hnumbers⟩ := hsteps ⟨_, hpos, hvalue⟩ 1
  obtain ⟨-, -, -, hrefused, -⟩ := rescale_any_extent nan
  exact ⟨hle, hmono 1 2 hle, hnonpos, hlower (-5) hnonpos, hpos, hvalue, hbeyond,
    hupper _ hpos hvalue 1 hbeyond, hoverflow, hnumbers, hnan, hrefused hnan 7⟩

end KvmConsole.Pointer
