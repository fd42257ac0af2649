import KvmConsole.Msd.Size
import KvmConsole.Proofs.Binary64.Arithmetic

/-!
# What a size label shows

The search for the unit multiplies the divisor by 1024 while the size has 1024 of the present unit.
Its invariant ties the divisor to the unit and keeps it below the size, so that no product wraps
around. The number shown is then the size, rounded once to 53 significant bits: dividing by a power
of two is exact, and only the two decimals round again.

Key results:
* `SizeScale.Fits.next`, `SizeScale.Reached.fits`: a step of the search and the whole search.
* `roundsToBits_nearest`: what the conversion to binary64 keeps of a size.
* `sizeText_correct`: unit, digits and order of the labels.
-/

namespace KvmConsole.Msd

open Binary64 (RoundsTo HasValue IsExact)

/-! ## The search for the unit -/

/-- The power of 1024 of a unit. -/
def SizeUnit.index : SizeUnit → ℕ
  | byte => 0
  | kilobyte => 1
  | megabyte => 2
  | gigabyte => 3
  | terabyte => 4

/-- There are five units. -/
private theorem SizeUnit.index_le (unit : SizeUnit) : unit.index ≤ 4 := by
  cases unit <;> decide

/-- The symbols of the units stand in their order. -/
private theorem SizeUnit.symbol_at_index (unit : SizeUnit) :
    ["B", "kB", "MB", "GB", "TB"][unit.index]? = some unit.symbol := by
  cases unit <;> rfl

/-- The unit after a unit has the next index. -/
private theorem SizeUnit.drop_aboveByte {unit next : SizeUnit} {greater : List SizeUnit}
    (h : next :: greater = aboveByte.drop unit.index) :
    next.index = unit.index + 1 ∧ greater = aboveByte.drop next.index := by
  cases unit <;> cases h <;> exact ⟨rfl, rfl⟩

namespace SizeScale

/-- The scales that the search comes by, each with the greater units that are still ahead. -/
inductive Reached (size : UInt64) : SizeScale → List SizeUnit → Prop
  | bytes : Reached size bytes SizeUnit.aboveByte
  | climb {scale : SizeScale} {next : SizeUnit} {greater : List SizeUnit} :
      Reached size scale (next :: greater) → 1024 ≤ size / scale.divisor →
        Reached size ⟨next, scale.divisor * 1024⟩ greater

/-- The search ends at a scale that it came by, for want of greater units or of bytes. -/
private theorem Reached.exists_end {size : UInt64} {scale : SizeScale} {greater : List SizeUnit}
    (h : Reached size scale greater) :
    ∃ ahead, Reached size (scale.climb size greater) ahead ∧
      (ahead = [] ∨ size / (scale.climb size greater).divisor < 1024) := by
  induction greater generalizing scale with
  | nil => exact ⟨[], h, .inl rfl⟩
  | cons next greater ih =>
    unfold SizeScale.climb
    split
    · exact ih (h.climb ‹_›)
    · exact ⟨next :: greater, h, .inr (UInt64.not_le.mp ‹_›)⟩

/-- The search ends at the last unit or where the quotient is below 1024. -/
private theorem exists_end_ofSize (size : UInt64) :
    ∃ ahead, Reached size (ofSize size) ahead ∧
      (ahead = [] ∨ size / (ofSize size).divisor < 1024) :=
  Reached.exists_end .bytes

/-- What stays true in the search: the divisor is the unit, and no unit is above the size. -/
structure Fits (size : UInt64) (scale : SizeScale) (ahead : List SizeUnit) : Prop where
  ahead_eq : ahead = SizeUnit.aboveByte.drop scale.unit.index
  divisor_eq : scale.divisor.toNat = 1024 ^ scale.unit.index
  index_le : 0 < size → 1024 ^ scale.unit.index ≤ size.toNat

/-- The search starts with bytes. -/
private theorem fits_bytes (size : UInt64) : Fits size bytes SizeUnit.aboveByte where
  ahead_eq := rfl
  divisor_eq := rfl
  index_le h := UInt64.lt_iff_toNat_lt.mp h

variable {size : UInt64} {scale : SizeScale} {above : SizeUnit} {ahead greater : List SizeUnit}

/-- The divisor does not overflow, as there are only five units. -/
private theorem Fits.no_wrap (h : Fits size scale (above :: greater)) :
    scale.divisor.toNat * 1024 < 2 ^ 64 := by
  obtain ⟨hnext, -⟩ := SizeUnit.drop_aboveByte h.ahead_eq
  have hindex := above.index_le
  rw [h.divisor_eq, ← pow_succ, ← hnext]
  calc 1024 ^ above.index ≤ 1024 ^ 4 := Nat.pow_le_pow_right (by norm_num) hindex
    _ < 2 ^ 64 := by norm_num

/-- One step up keeps the invariant. -/
theorem Fits.next (h : Fits size scale (above :: greater)) (hmore : 1024 ≤ size / scale.divisor) :
    Fits size ⟨above, scale.divisor * 1024⟩ greater := by
  obtain ⟨hnext, hgreater⟩ := SizeUnit.drop_aboveByte h.ahead_eq
  have hproduct : (scale.divisor * 1024).toNat = 1024 ^ above.index := by
    rw [UInt64.toNat_mul, hnext, pow_succ 1024, ← h.divisor_eq]
    exact Nat.mod_eq_of_lt h.no_wrap
  refine ⟨hgreater, hproduct, fun _ => ?_⟩
  -- The size is at least the new divisor.
  have hquotient : 1024 ≤ size.toNat / scale.divisor.toNat := by
    rw [← UInt64.toNat_div]
    exact UInt64.le_iff_toNat_le.mp hmore
  have hpos : 0 < scale.divisor.toNat := by
    rw [h.divisor_eq]
    positivity
  rw [Nat.le_div_iff_mul_le hpos, h.divisor_eq] at hquotient
  rw [hnext, pow_succ]
  omega

/-- The invariant holds all through the search. -/
theorem Reached.fits (h : Reached size scale ahead) : Fits size scale ahead := by
  induction h with
  | bytes => exact fits_bytes size
  | climb _ hmore ih => exact ih.next hmore

/-- The unit that is found fits the size. -/
private theorem fits_ofSize (size : UInt64) : ∃ ahead, Fits size (ofSize size) ahead := by
  obtain ⟨ahead, hend, -⟩ := exists_end_ofSize size
  exact ⟨ahead, hend.fits⟩

/-- The unit is the greatest one that the size reaches. -/
private theorem lt_next_or_index_eq (size : UInt64) :
    size.toNat < 1024 ^ ((ofSize size).unit.index + 1) ∨ (ofSize size).unit.index = 4 := by
  obtain ⟨ahead, hend, hstop⟩ := exists_end_ofSize size
  have hfits := hend.fits
  -- No unit is left, or the quotient is small.
  rcases hstop with rfl | hless
  · right
    have hahead := hfits.ahead_eq
    revert hahead
    cases (ofSize size).unit <;> decide
  · left
    have hquotient : size.toNat / (ofSize size).divisor.toNat < 1024 := by
      rw [← UInt64.toNat_div]
      exact UInt64.lt_iff_toNat_lt.mp hless
    rw [hfits.divisor_eq, Nat.div_lt_iff_lt_mul (by positivity)] at hquotient
    rw [pow_succ]
    omega

end SizeScale

/-! ## The conversion of a size -/

/-- `r` is `n` rounded to the significant bits, to nearest with ties to even. -/
def RoundsToBits (bits n r : ℕ) : Prop :=
  ∃ dropped m : ℕ, n < 2 ^ (bits + dropped) ∧ (dropped = 0 ∨ 2 ^ (bits + dropped) ≤ 2 * n) ∧
    RoundsTo (n / 2 ^ dropped) m ∧ r = m * 2 ^ dropped

/-- The bits below the 53 from the leading one on are dropped. -/
private theorem exists_nearest_of_dropped {n k : ℕ} (hlow : 2 ^ (k + 52) ≤ n)
    (hhigh : n < 2 ^ (k + 53)) :
    ∃ m : ℕ, RoundsTo (n / 2 ^ k) m ∧ Binary64.nearest n = m * 2 ^ k := by
  have habs : |(n : ℚ)| = n := abs_of_nonneg n.cast_nonneg
  -- The last `k` bits are below the spacing of the numbers around.
  have hquantum : Binary64.quantum n = k := by
    apply Binary64.quantum_eq_of_abs (by omega)
    · rw [habs]
      exact_mod_cast hlow
    · rw [habs]
      exact_mod_cast hhigh
  have hround := Binary64.roundsTo_roundHalfEven ((n : ℚ) / 2 ^ k)
  have hnonneg := hround.nonneg (div_nonneg n.cast_nonneg (pow_nonneg two_pos.le k))
  obtain ⟨m, hm⟩ := Int.eq_ofNat_of_zero_le hnonneg
  rw [hm] at hround
  refine ⟨m, hround, ?_⟩
  rw [Binary64.nearest_eq, hquantum, zpow_natCast, hm, Int.cast_natCast]

/-- A size is rounded to 53 bits, and stays as it is below `2 ^ 53`. -/
theorem roundsToBits_nearest (n : ℕ) :
    ∃ r : ℕ, RoundsToBits 53 n r ∧ (n < 2 ^ 53 → r = n) ∧ Binary64.nearest n = r := by
  rcases lt_or_ge n (2 ^ 53) with hsmall | hlarge
  · have hself : RoundsTo ((n : ℚ) / 2 ^ 0) n := by
      rw [pow_zero, div_one]
      exact Binary64.roundsTo_intCast n
    have hexact := Binary64.nearest_of_isExact (Binary64.isExact_natCast hsmall.le)
    exact ⟨n, ⟨0, n, hsmall, .inl rfl, hself, by simp⟩, fun _ => rfl, hexact⟩
  · have hne : n ≠ 0 := by omega
    have hlog : 53 ≤ n.log2 := (Nat.le_log2 hne).mpr hlarge
    -- The bits beyond the first 53 are dropped.
    obtain ⟨k, hk⟩ : ∃ k, n.log2 = k + 52 := ⟨n.log2 - 52, by omega⟩
    have hlow := Nat.log2_self_le hne
    have hhigh := Nat.lt_log2_self (n := n)
    rw [hk] at hlow hhigh
    obtain ⟨m, hround, hnearest⟩ := exists_nearest_of_dropped hlow hhigh
    have htwice : 2 ^ (53 + k) ≤ 2 * n := by
      calc 2 ^ (53 + k) = 2 * 2 ^ (k + 52) := by ring
        _ ≤ 2 * n := by gcongr
    have hbits : n < 2 ^ (53 + k) := by
      calc n < 2 ^ (k + 52 + 1) := hhigh
        _ = 2 ^ (53 + k) := by ring
    refine ⟨m * 2 ^ k, ⟨k, m, hbits, .inr htwice, hround, rfl⟩, fun h => by omega, ?_⟩
    rw [hnearest, Nat.cast_mul, Nat.cast_pow, Nat.cast_ofNat]

/-- Dividing a rounded size by a unit is exact. -/
private theorem RoundsToBits.isExact_div {n r i : ℕ} (h : RoundsToBits 53 n r) (hi : i ≤ 4) :
    IsExact (r / 1024 ^ i) := by
  obtain ⟨k, m, hn, -, hround, rfl⟩ := h
  refine ⟨m, k - 10 * i, by omega, ?_, ?_⟩
  · -- Below `2 ^ 53` nothing rounds to more than `2 ^ 53`.
    have hbound : (n : ℚ) / 2 ^ k ≤ (2 ^ 53 : ℤ) := by
      rw [div_le_iff₀ (by positivity), Int.cast_pow, Int.cast_ofNat, ← pow_add]
      exact_mod_cast hn.le
    have hle := hround.le (Binary64.roundsTo_intCast (2 ^ 53)) hbound
    rwa [abs_of_nonneg (by positivity)]
  · rw [zpow_sub₀ two_ne_zero, zpow_mul]
    push_cast
    norm_num
    ring

namespace SizeLabel

/-! ## The number shown -/

/-- The position of the unit of a label; the bare zero stands with the bytes. -/
def unitIndex : SizeLabel → ℕ
  | zero => 0
  | scaled _ unit => unit.index

/-- The hundredths that a label shows. -/
def shown : SizeLabel → ℕ
  | zero => 0
  | scaled value _ => hundredths value

/-- The label of a positive size has a number and a unit. -/
private theorem ofSize_of_pos {size : UInt64} (h : 0 < size) :
    ofSize size = scaled (Binary64.ofNat size.toNat /
      Binary64.ofNat (SizeScale.ofSize size).divisor.toNat) (SizeScale.ofSize size).unit := by
  have hne : size ≠ 0 := by
    rintro rfl
    exact absurd h (by decide)
  simp [ofSize, hne]

/-- The unit of the label is the one that is found. -/
private theorem unitIndex_of_pos {size : UInt64} (h : 0 < size) :
    (ofSize size).unitIndex = (SizeScale.ofSize size).unit.index := by
  rw [ofSize_of_pos h]
  rfl

/-- The number of units is the rounded size over the unit, exactly. -/
private theorem hasValue_quotient (size : UInt64) {r : ℕ} (hr : RoundsToBits 53 size.toNat r)
    (hnearest : Binary64.nearest size.toNat = r) :
    (Binary64.ofNat size.toNat / Binary64.ofNat (SizeScale.ofSize size).divisor.toNat).HasValue
      (r / 1024 ^ (SizeScale.ofSize size).unit.index) := by
  obtain ⟨ahead, hfits⟩ := SizeScale.fits_ofSize size
  have hindex := (SizeScale.ofSize size).unit.index_le
  rw [hfits.divisor_eq]
  have hsize := Binary64.hasValue_ofNat size.toNat_lt
  have hbound := Binary64.nearest_natCast_le size.toNat_lt
  rw [hnearest] at hsize hbound
  -- The divisor has far less than 53 bits.
  have hdivisor := Binary64.hasValue_ofNat_of_le
    (show 1024 ^ (SizeScale.ofSize size).unit.index ≤ 2 ^ 53 by
      calc 1024 ^ (SizeScale.ofSize size).unit.index ≤ 1024 ^ 4 :=
            Nat.pow_le_pow_right (by norm_num) hindex
        _ ≤ 2 ^ 53 := by norm_num)
  rw [Nat.cast_pow, Nat.cast_ofNat] at hdivisor
  -- The quotient is not beyond the range, and as a division by a power of two it is exact.
  have hrange : Binary64.InRange ((r : ℚ) / 1024 ^ (SizeScale.ofSize size).unit.index) := by
    apply Binary64.inRange_of_le
    rw [abs_of_nonneg (by positivity)]
    calc (r : ℚ) / 1024 ^ (SizeScale.ofSize size).unit.index ≤ r :=
          div_le_self r.cast_nonneg (one_le_pow₀ (by norm_num))
      _ ≤ 2 ^ 64 := hbound
      _ ≤ 2 ^ 128 := by norm_num
  have hquotient := hsize.div hdivisor (by positivity) hrange
  rwa [Binary64.nearest_of_isExact (hr.isExact_div hindex)] at hquotient

/-- The number shown is the quotient, rounded to hundredths. -/
private theorem roundsTo_shown {size : UInt64} (h : 0 < size) {r : ℕ}
    (hr : RoundsToBits 53 size.toNat r)
    (hnearest : Binary64.nearest size.toNat = r) :
    RoundsTo (100 * r / 1024 ^ (ofSize size).unitIndex) (ofSize size).shown := by
  have hvalue := (hasValue_quotient size hr hnearest).toRat_eq
  have hround := Binary64.roundsTo_roundHalfEven
    ((r : ℚ) / 1024 ^ (SizeScale.ofSize size).unit.index * 100)
  have hnonneg := hround.nonneg (by positivity)
  rw [unitIndex_of_pos h, ofSize_of_pos h, shown, hundredths, hvalue, Int.toNat_of_nonneg hnonneg]
  rwa [show 100 * (r : ℚ) / 1024 ^ (SizeScale.ofSize size).unit.index =
    r / 1024 ^ (SizeScale.ofSize size).unit.index * 100 by ring]

/-! ## The text -/

/-- The two decimals are the last two digits. -/
private theorem decimals_eq (n : ℕ) :
    decimals n = toString (n / 100) ++ "." ++ toString (n / 10 % 10) ++ toString (n % 10) := by
  have hcents : ∀ cents < 100, (if cents < 10 then "0" else "") ++ toString cents =
      toString (cents / 10) ++ toString (cents % 10) := by decide +kernel
  have hlast := hcents (n % 100) (Nat.mod_lt n (by norm_num))
  rw [show n % 100 / 10 = n / 10 % 10 by omega, show n % 100 % 10 = n % 10 by omega] at hlast
  simp only [decimals, String.append_assoc, hlast]

/-- The text is the number with two decimals and the symbol of its unit. -/
private theorem text_of_pos {size : UInt64} (h : 0 < size) :
    sizeText size = decimals (ofSize size).shown ++ " " ++ (SizeScale.ofSize size).unit.symbol := by
  rw [sizeText, ofSize_of_pos h]
  rfl

/-! ## The order -/

variable {s t : UInt64}

/-- A larger size has no smaller unit. -/
private theorem index_le_of_le (hs : 0 < s) (h : s ≤ t) :
    (SizeScale.ofSize s).unit.index ≤ (SizeScale.ofSize t).unit.index := by
  by_contra hlt
  have hle : s.toNat ≤ t.toNat := UInt64.le_iff_toNat_le.mp h
  obtain ⟨ahead, hfits⟩ := SizeScale.fits_ofSize s
  have hlow := hfits.index_le hs
  have hbound := (SizeScale.ofSize s).unit.index_le
  rcases SizeScale.lt_next_or_index_eq t with hhigh | hlast
  · -- The unit of `s` is beyond `t`, and so is `s`.
    have hpow : 1024 ^ ((SizeScale.ofSize t).unit.index + 1) ≤
        1024 ^ (SizeScale.ofSize s).unit.index := Nat.pow_le_pow_right (by norm_num) (by omega)
    omega
  · omega

/-- A greater size shows a greater unit, or as many hundredths of the same one. -/
private theorem shown_le_of_le (h : s ≤ t) :
    (ofSize s).unitIndex < (ofSize t).unitIndex ∨
      (ofSize s).unitIndex = (ofSize t).unitIndex ∧ (ofSize s).shown ≤ (ofSize t).shown := by
  have hle : s.toNat ≤ t.toNat := UInt64.le_iff_toNat_le.mp h
  rcases Nat.eq_zero_or_pos s.toNat with hzero | hpos
  · -- The bare zero is below all labels.
    have hs : s = 0 := UInt64.toNat_inj.mp hzero
    have hlabel : ofSize 0 = zero := rfl
    rw [hs, hlabel, unitIndex, shown]
    omega
  have hs : 0 < s := UInt64.lt_iff_toNat_lt.mpr hpos
  have ht : 0 < t := UInt64.lt_iff_toNat_lt.mpr (hpos.trans_le hle)
  have hindex := index_le_of_le hs h
  rw [← unitIndex_of_pos hs, ← unitIndex_of_pos ht] at hindex
  rcases hindex.lt_or_eq with hlt | heq
  · exact .inl hlt
  · -- In one unit, both roundings keep the order.
    obtain ⟨r, hr, -, hnearest⟩ := roundsToBits_nearest s.toNat
    obtain ⟨r', hr', -, hnearest'⟩ := roundsToBits_nearest t.toNat
    have hround := roundsTo_shown hs hr hnearest
    have hround' := roundsTo_shown ht hr' hnearest'
    have hrounded : (r : ℚ) ≤ r' := by
      rw [← hnearest, ← hnearest']
      exact Binary64.nearest_mono (by exact_mod_cast hle)
    rw [heq] at hround
    have hshown := hround.le hround' (by gcongr)
    exact .inr ⟨heq, by exact_mod_cast hshown⟩

end SizeLabel

/-! ## Labels of sizes -/

open SizeLabel in
/-- The search for the unit never wraps around. A size is shown in the greatest unit that it
    reaches, in hundredths of the size rounded to 53 bits, and the labels are in the order of the
    sizes. -/
theorem sizeText_correct :
    (∀ size, (∃ ahead, SizeScale.Reached size (SizeScale.ofSize size) ahead) ∧
      ∀ scale next greater, SizeScale.Reached size scale (next :: greater) →
        scale.divisor.toNat * 1024 < 2 ^ 64) ∧
    (∀ size : UInt64, 0 < size →
      let i := (ofSize size).unitIndex
      let h := (ofSize size).shown
      (SizeScale.ofSize size).divisor.toNat = 1024 ^ i ∧
      1024 ^ i ≤ size.toNat ∧ (size.toNat < 1024 ^ (i + 1) ∨ i = 4) ∧
      (∃ unit, ["B", "kB", "MB", "GB", "TB"][i]? = some unit ∧
        sizeText size = toString (h / 100) ++ "." ++ toString (h / 10 % 10) ++
          toString (h % 10) ++ " " ++ unit) ∧
      ∃ r, RoundsToBits 53 size.toNat r ∧ (size.toNat < 2 ^ 53 → r = size.toNat) ∧
        RoundsTo (100 * r / 1024 ^ i) h) ∧
    ∀ s t : UInt64, s ≤ t →
      (ofSize s).unitIndex < (ofSize t).unitIndex ∨
        (ofSize s).unitIndex = (ofSize t).unitIndex ∧ (ofSize s).shown ≤ (ofSize t).shown := by
  have hsearch (size : UInt64) : ∃ ahead, SizeScale.Reached size (SizeScale.ofSize size) ahead := by
    obtain ⟨ahead, hend, -⟩ := SizeScale.exists_end_ofSize size
    exact ⟨ahead, hend⟩
  refine ⟨fun size => ⟨hsearch size, fun scale next greater h => h.fits.no_wrap⟩, ?_,
    fun s t => shown_le_of_le⟩
  -- The unit is the one the search ends at, and the number is rounded in its unit.
  intro size hpos i h
  obtain ⟨ahead, hfits⟩ := SizeScale.fits_ofSize size
  obtain ⟨r, hr, hself, hnearest⟩ := roundsToBits_nearest size.toNat
  have hindex : i = (SizeScale.ofSize size).unit.index := unitIndex_of_pos hpos
  have htext : sizeText size = toString (h / 100) ++ "." ++ toString (h / 10 % 10) ++
      toString (h % 10) ++ " " ++ (SizeScale.ofSize size).unit.symbol := by
    rw [text_of_pos hpos, decimals_eq]
  refine ⟨?_, ?_, ?_, ⟨_, ?_, htext⟩, r, hr, hself, roundsTo_shown hpos hr hnearest⟩
  · rw [hindex]
    exact hfits.divisor_eq
  · rw [hindex]
    exact hfits.index_le hpos
  · rw [hindex]
    exact SizeScale.lt_next_or_index_eq size
  · rw [hindex]
    exact SizeUnit.symbol_at_index _

/-- One byte less than a gigabyte is shown as 1024 megabytes. -/
theorem sizeText_correct_at_gigabyte :
    (1 : UInt64).toNat * 1024 < 2 ^ 64 ∧
    (∃ unit, ["B", "kB", "MB", "GB", "TB"][2]? = some unit ∧
      sizeText 1073741823 = "1024" ++ "." ++ "0" ++ "0" ++ " " ++ unit) ∧
    (∃ r, RoundsToBits 53 1073741823 r ∧ r = 1073741823 ∧
      RoundsTo (100 * r / 1024 ^ 2) 102400) ∧
    (SizeLabel.ofSize 1073741823).unitIndex < (SizeLabel.ofSize 1073741824).unitIndex := by
  have hindex : (SizeLabel.ofSize 1073741823).unitIndex = 2 := by decide +kernel
  have hindex' : (SizeLabel.ofSize 1073741824).unitIndex = 3 := by decide +kernel
  have hshown : (SizeLabel.ofSize 1073741823).shown = 102400 := by decide +kernel
  obtain ⟨hwrap, hlabel, horder⟩ := sizeText_correct
  obtain ⟨-, -, -, htext, r, hr, hself, hround⟩ := hlabel 1073741823 (by decide)
  have hwhole : toString (102400 / 100) = "1024" := by decide +kernel
  have hdecimal : toString (102400 % 10) = "0" := by decide +kernel
  rw [hindex, hshown, hwhole, hdecimal] at htext
  rw [hindex, hshown] at hround
  have hmore := (hwrap 1073741823).2 _ _ _ .bytes
  refine ⟨hmore, htext, ⟨r, hr, hself (by decide), hround⟩, ?_⟩
  -- The order holds by the unit, as the labels do not have the same one.
  rcases horder 1073741823 1073741824 (by decide) with hlt | ⟨heq, -⟩
  · exact hlt
  · rw [hindex, hindex'] at heq
    exact absurd heq (by decide)

end KvmConsole.Msd
