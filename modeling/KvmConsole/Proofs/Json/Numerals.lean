import KvmConsole.Json.Numeral
import KvmConsole.Json.Writer

/-!
# Numbers read back

An integer is written with its decimal digits and no leading zero. Reading takes those digits and
stops at the first character that does not continue a number, and their value is the integer.

Key results:
* `readNumeral_toDigits`, `readNumeral_negative`: the parts of an integer that has been written.
* `value_toDigits`, `value_negative`: the number that the parts stand for.
* `readNumeral_writeNumber`: any integer reads back.
-/

namespace KvmConsole.Json

/-- The text does not continue a number that ends in front of it. -/
def EndsNumber : List Char → Prop
  | [] => True
  | c :: _ => c.isDigit = false ∧ c ≠ '.' ∧ c ≠ 'e' ∧ c ≠ 'E'

/-! ## Digits -/

/-- A positive number is written without a leading zero. -/
private theorem head_toDigits_ne_zero {n : Nat} (hn : 0 < n) {c : Char} {ds : List Char}
    (h : Nat.toDigits 10 n = c :: ds) : c ≠ '0' := by
  induction n using Nat.strongRecOn generalizing ds with
  | ind n ih =>
    rw [Nat.toDigits_eq_if (by decide)] at h
    split at h
    · obtain ⟨rfl, -⟩ := List.cons.inj h
      intro hzero
      exact Nat.ne_of_gt hn (Nat.digitChar_eq_zero.mp hzero)
    · -- The leading digit of a longer number is that of a tenth of it.
      obtain ⟨c', ds', hquotient⟩ :=
        List.exists_cons_of_ne_nil (Nat.toDigits_ne_nil (n := n / 10) (b := 10))
      rw [hquotient, List.cons_append] at h
      obtain ⟨rfl, -⟩ := List.cons.inj h
      exact ih (n / 10) (by omega) (by omega) hquotient

/-- All digits up to the end of a number are taken. -/
private theorem spanDigits_append {ds rest : List Char} (hds : ∀ c ∈ ds, c.isDigit)
    (hrest : EndsNumber rest) : spanDigits (ds ++ rest) = (ds, rest) := by
  have hstop : rest.takeWhile Char.isDigit = [] ∧ rest.dropWhile Char.isDigit = rest := by
    cases rest with
    | nil => exact ⟨rfl, rfl⟩
    | cons c t => simp [hrest.1]
  rw [spanDigits, List.takeWhile_append_of_pos hds, List.dropWhile_append_of_pos hds, hstop.1,
    hstop.2, List.append_nil]

/-! ## The parts of a number -/

/-- A decimal has no leading zero, so that it is read as a whole. -/
private theorem readWhole_toDigits (n : Nat) {rest : List Char} (hrest : EndsNumber rest) :
    readWhole (Nat.toDigits 10 n ++ rest) = .ok (Nat.toDigits 10 n, rest) := by
  rcases Nat.eq_zero_or_pos n with rfl | hn
  · -- A zero stands alone, and no digit follows.
    rw [Nat.toDigits_zero]
    cases rest with
    | nil => rfl
    | cons c t => simp [readWhole, hrest.1]
  · obtain ⟨c, ds, hdigits⟩ := List.exists_cons_of_ne_nil (Nat.toDigits_ne_nil (n := n) (b := 10))
    have hall : ∀ d ∈ c :: ds, d.isDigit := fun d hd =>
      Nat.isDigit_of_mem_toDigits (by decide) (by decide) (hdigits ▸ hd)
    have hspan := spanDigits_append (fun d hd => hall d (List.mem_cons_of_mem c hd)) hrest
    simp [hdigits, readWhole, head_toDigits_ne_zero hn hdigits, hall c List.mem_cons_self, hspan]

/-- Where a number ends there is no fraction. -/
theorem readFraction_of_endsNumber {rest : List Char} (hrest : EndsNumber rest) :
    readFraction rest = .ok (none, rest) := by
  unfold readFraction
  split
  · exact absurd rfl hrest.2.1
  · rfl

/-- Where a number ends there is no exponent. -/
theorem readExponent_of_endsNumber {rest : List Char} (hrest : EndsNumber rest) :
    readExponent rest = .ok (none, rest) := by
  cases rest with
  | nil => rfl
  | cons c t => simp [readExponent, hrest.2.2.1, hrest.2.2.2]

/-- A decimal with a sign is read digit by digit. -/
theorem readNumeral_negative (n : Nat) {rest : List Char} (hrest : EndsNumber rest) :
    readNumeral ('-' :: Nat.toDigits 10 n ++ rest) =
      .ok (⟨true, Nat.toDigits 10 n, none, none⟩, rest) := by
  simp only [readNumeral, List.cons_append, readWhole_toDigits n hrest,
    readFraction_of_endsNumber hrest, readExponent_of_endsNumber hrest, bind, Except.bind, pure,
    Except.pure]

/-- A decimal is read digit by digit. -/
theorem readNumeral_toDigits (n : Nat) {rest : List Char} (hrest : EndsNumber rest) :
    readNumeral (Nat.toDigits 10 n ++ rest) =
      .ok (⟨false, Nat.toDigits 10 n, none, none⟩, rest) := by
  have hwhole := readWhole_toDigits n hrest
  obtain ⟨c, ds, hdigits⟩ := List.exists_cons_of_ne_nil (Nat.toDigits_ne_nil (n := n) (b := 10))
  have hdigit : c.isDigit :=
    Nat.isDigit_of_mem_toDigits (by decide) (by decide) (hdigits ▸ List.mem_cons_self)
  have hminus : c ≠ '-' := fun hc => absurd (hc ▸ hdigit) (by decide)
  rw [hdigits] at hwhole ⊢
  unfold readNumeral
  split
  rename_i negative unsigned hsign
  -- The first character is a digit and no sign.
  split at hsign
  · rename_i heq
    exact absurd (List.cons.inj heq).1 hminus
  · obtain ⟨rfl, rfl⟩ := hsign
    simp only [hwhole, readFraction_of_endsNumber hrest, readExponent_of_endsNumber hrest, bind,
      Except.bind, pure, Except.pure]

/-! ## The value of the parts -/

/-- The digits of a number add up to it. -/
private theorem foldl_toDigits (n : Nat) :
    (Nat.toDigits 10 n).foldl (fun acc c => acc * 10 + Numeral.digitValue c) 0 = n := by
  have hvalue := Nat.ofDigitChars_ten_toDigits (n := n)
  rw [Nat.ofDigitChars_eq_foldl] at hvalue
  simpa only [Numeral.digitValue, Nat.mul_comm] using hvalue

/-- A decimal has the value it was written for. -/
theorem value_toDigits (n : UInt64) :
    Numeral.value ⟨false, Nat.toDigits 10 n.toNat, none, none⟩ = .ok (.natural n) := by
  have hlt : n.toNat < UInt64.size := n.toNat_lt
  simp [Numeral.value, foldl_toDigits, hlt]

/-- A decimal with a sign has the value it was written for. -/
theorem value_negative {n : Int64} (hn : n.toInt < 0) :
    Numeral.value ⟨true, Nat.toDigits 10 n.toInt.natAbs, none, none⟩ = .ok (.negative n) := by
  have hpos : 0 < n.toInt.natAbs := by omega
  have hle : n.toInt.natAbs ≤ 9223372036854775808 := by
    have := n.le_toInt
    omega
  have hback : Int64.ofInt (-(n.toInt.natAbs : Int)) = n := by
    rw [Int.ofNat_natAbs_of_nonpos (Int.le_of_lt hn), Int.neg_neg]
    exact Int64.ofInt_toInt n
  simp only [Numeral.value, foldl_toDigits]
  rw [if_neg (by simp), if_pos ⟨rfl, trivial, hpos, hle⟩, hback]

/-! ## Integers -/

/-- The number is an integer, and is kept as one. -/
def Number.IsInteger : Number → Prop
  | .natural _ => True
  | .negative n => n.toInt < 0
  | .float _ => False

/-- A negative number is written with a sign. -/
theorem writeNumber_negative {n : Int64} (hn : n.toInt < 0) :
    writeNumber (.negative n) = '-' :: Nat.toDigits 10 n.toInt.natAbs := by
  obtain ⟨m, hm⟩ := Int.eq_negSucc_of_lt_zero hn
  rw [writeNumber, hm]
  simp [toString, Int.repr]

/-- An integer begins with a digit or a minus sign. -/
theorem exists_writeNumber_eq_cons {n : Number} (hn : n.IsInteger) :
    ∃ c t, writeNumber n = c :: t ∧ (c = '-' ∨ c.isDigit) := by
  cases n with
  | natural n =>
    obtain ⟨c, ds, hdigits⟩ :=
      List.exists_cons_of_ne_nil (Nat.toDigits_ne_nil (n := n.toNat) (b := 10))
    exact ⟨c, ds, hdigits,
      .inr (Nat.isDigit_of_mem_toDigits (by decide) (by decide) (hdigits ▸ List.mem_cons_self))⟩
  | negative n => exact ⟨'-', _, writeNumber_negative hn, .inl rfl⟩
  | float x => exact hn.elim

/-- An integer reads back. -/
theorem readNumeral_writeNumber {n : Number} (hn : n.IsInteger) {rest : List Char}
    (hrest : EndsNumber rest) :
    ∃ parts, readNumeral (writeNumber n ++ rest) = .ok (parts, rest) ∧ parts.value = .ok n := by
  cases n with
  | natural n => exact ⟨_, readNumeral_toDigits n.toNat hrest, value_toDigits n⟩
  | negative n =>
    rw [writeNumber_negative hn]
    exact ⟨_, readNumeral_negative n.toInt.natAbs hrest, value_negative hn⟩
  | float x => exact hn.elim

end KvmConsole.Json
