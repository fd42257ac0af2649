import KvmConsole.Proofs.Json.Numerals
import KvmConsole.Proofs.Json.Strings

/-!
# Leaves with more text behind them

What a reader has taken off a text it takes off any longer text too, and leaves more behind. A
string ends with its own quotation mark, so nothing that comes after it matters. A number ends where
something else begins: at the end of a text it needs to be followed by something that does not
continue it.

Key results:
* `skipBlanks_append`, `readNumeral_append`, `skipString_append`: what is left grows by what is
  added.
* `readString_append`: a string that has an end is decoded to the same, or refused for the same
  reason.
-/

namespace KvmConsole.Json

variable {s rest : List Char}

/-! ## Blanks and numbers -/

/-- Blanks end at the same character, whatever comes after the text. -/
theorem skipBlanks_append {c : Char} {t : List Char} (h : skipBlanks s = c :: t)
    (after : List Char) : skipBlanks (s ++ after) = c :: (t ++ after) := by
  unfold skipBlanks at h ⊢
  rw [List.dropWhile_append, h]
  rfl

/-- A text of blanks is skipped in front of another text. -/
theorem skipBlanks_append_of_nil (h : skipBlanks s = []) (after : List Char) :
    skipBlanks (s ++ after) = skipBlanks after := by
  unfold skipBlanks at h ⊢
  rw [List.dropWhile_append, h]
  rfl

section Numbers

variable {after : List Char} (hafter : EndsNumber after)

include hafter

/-- The digits at the front stay the same, as no digit follows. -/
private theorem takeWhile_isDigit_append (s : List Char) :
    (s ++ after).takeWhile Char.isDigit = s.takeWhile Char.isDigit := by
  induction s with
  | nil =>
    -- The digits may go on to the end of the text, but what is added begins with no digit.
    cases after with
    | nil => rfl
    | cons c t => simp [hafter.1]
  | cons c s ih => rw [List.cons_append, List.takeWhile_cons, List.takeWhile_cons, ih]

/-- What is behind the digits gets what follows. -/
private theorem dropWhile_isDigit_append (s : List Char) :
    (s ++ after).dropWhile Char.isDigit = s.dropWhile Char.isDigit ++ after := by
  induction s with
  | nil =>
    cases after with
    | nil => rfl
    | cons c t => simp [hafter.1]
  | cons c s ih =>
    rw [List.cons_append, List.dropWhile_cons, List.dropWhile_cons, ih]
    split <;> rfl

/-- The digits at the front and what is behind them. -/
private theorem spanDigits_append_right (s : List Char) :
    spanDigits (s ++ after) = ((spanDigits s).1, (spanDigits s).2 ++ after) := by
  rw [spanDigits, takeWhile_isDigit_append hafter, dropWhile_isDigit_append hafter]
  rfl

/-- The whole part of a number does not depend on what follows. -/
private theorem readWhole_append {digits : List Char} (h : readWhole s = .ok (digits, rest)) :
    readWhole (s ++ after) = .ok (digits, rest ++ after) := by
  cases s with
  | nil => cases h
  | cons c t =>
    rw [List.cons_append]
    unfold readWhole at h ⊢
    -- A leading zero stands alone.
    by_cases hzero : c = '0'
    · simp only [if_pos hzero] at h ⊢
      cases t with
      | nil =>
        -- The zero is the last character, and no digit is added.
        obtain ⟨rfl, rfl⟩ := Prod.mk.inj (Except.ok.inj h)
        cases after with
        | nil => rfl
        | cons d u => simp [hafter.1]
      | cons d u =>
        simp only [List.cons_append] at h ⊢
        by_cases hdigit : d.isDigit
        · rw [if_pos hdigit] at h
          cases h
        · rw [if_neg hdigit] at h ⊢
          obtain ⟨rfl, rfl⟩ := Prod.mk.inj (Except.ok.inj h)
          rfl
    · simp only [if_neg hzero] at h ⊢
      by_cases hdigit : c.isDigit
      · simp only [if_pos hdigit, spanDigits_append_right hafter] at h ⊢
        obtain ⟨rfl, rfl⟩ := Prod.mk.inj (Except.ok.inj h)
        rfl
      · rw [if_neg hdigit] at h
        cases h

/-- The fraction of a number does not depend on what follows. -/
private theorem readFraction_append {digits : Option (List Char)}
    (h : readFraction s = .ok (digits, rest)) :
    readFraction (s ++ after) = .ok (digits, rest ++ after) := by
  unfold readFraction at h
  split at h
  · rename_i t
    simp only [List.cons_append, readFraction, spanDigits_append_right hafter]
    -- Behind the point there has to be a digit.
    rcases hspan : spanDigits t with ⟨_ | ⟨d, ds⟩, left⟩
    · rw [hspan] at h
      cases left <;> cases h
    · rw [hspan] at h
      obtain ⟨rfl, rfl⟩ := Prod.mk.inj (Except.ok.inj h)
      rfl
  · -- There is no point, and none is added to the front.
    rename_i hpoint
    obtain ⟨rfl, rfl⟩ := Prod.mk.inj (Except.ok.inj h)
    cases s with
    | nil => exact readFraction_of_endsNumber hafter
    | cons c t =>
      rw [List.cons_append]
      unfold readFraction
      split
      · rename_i heq
        obtain ⟨rfl, -⟩ := List.cons.inj heq
        exact absurd rfl (hpoint t)
      · rfl

/-- The digits of an exponent do not depend on what follows. -/
private theorem readExponentDigits_append {negative : Bool} {digits : Option (Bool × List Char)}
    (h : readExponentDigits negative s = .ok (digits, rest)) :
    readExponentDigits negative (s ++ after) = .ok (digits, rest ++ after) := by
  unfold readExponentDigits at h ⊢
  rw [spanDigits_append_right hafter]
  rcases hspan : spanDigits s with ⟨_ | ⟨d, ds⟩, left⟩
  · rw [hspan] at h
    cases left <;> cases h
  · rw [hspan] at h
    obtain ⟨rfl, rfl⟩ := Prod.mk.inj (Except.ok.inj h)
    rfl

/-- The exponent of a number does not depend on what follows. -/
private theorem readExponent_append {digits : Option (Bool × List Char)}
    (h : readExponent s = .ok (digits, rest)) :
    readExponent (s ++ after) = .ok (digits, rest ++ after) := by
  cases s with
  | nil =>
    obtain ⟨rfl, rfl⟩ := Prod.mk.inj (Except.ok.inj h)
    exact readExponent_of_endsNumber hafter
  | cons c t =>
    rw [List.cons_append]
    unfold readExponent at h ⊢
    -- Without a mark there is no exponent.
    by_cases hmark : c = 'e' ∨ c = 'E'
    · simp only [if_pos hmark] at h ⊢
      split at h
      · exact readExponentDigits_append hafter h
      · exact readExponentDigits_append hafter h
      · -- No sign, so the digits begin at once.
        rename_i hplus hminus
        cases t with
        | nil => cases h
        | cons d u =>
          rw [List.cons_append]
          split
          · rename_i heq
            obtain ⟨rfl, -⟩ := List.cons.inj heq
            exact absurd rfl (hplus u)
          · rename_i heq
            obtain ⟨rfl, -⟩ := List.cons.inj heq
            exact absurd rfl (hminus u)
          · exact readExponentDigits_append hafter h
    · simp only [if_neg hmark] at h ⊢
      obtain ⟨rfl, rfl⟩ := Prod.mk.inj (Except.ok.inj h)
      rfl

/-- Reads a number behind its sign. -/
def readUnsigned (negative : Bool) (s : List Char) : Except Fault (Numeral × List Char) := do
  let (whole, s) ← readWhole s
  let (fraction, s) ← readFraction s
  let (exponent, s) ← readExponent s
  return (⟨negative, whole, fraction, exponent⟩, s)

omit hafter in
/-- A number is read behind its sign. -/
private theorem readNumeral_eq (s : List Char) :
    readNumeral s =
      if s.head? = some '-' then readUnsigned true s.tail else readUnsigned false s := by
  unfold readNumeral
  split
  rename_i hsign
  split at hsign
  · obtain ⟨rfl, rfl⟩ := hsign
    rfl
  · rename_i hminus
    obtain ⟨rfl, rfl⟩ := hsign
    rw [if_neg]
    · rfl
    · intro hhead
      obtain ⟨t, rfl⟩ := List.head?_eq_some_iff.mp hhead
      exact hminus t rfl

/-- A number without a sign does not depend on what follows. -/
private theorem readUnsigned_append {negative : Bool} {parts : Numeral}
    (h : readUnsigned negative s = .ok (parts, rest)) :
    readUnsigned negative (s ++ after) = .ok (parts, rest ++ after) := by
  simp only [readUnsigned, bind, Except.bind, pure, Except.pure] at h ⊢
  split at h
  · cases h
  · -- The integer, the fraction and the exponent, each followed by what was behind it and more.
    rename_i hwhole
    rw [readWhole_append hafter hwhole]
    dsimp only at h ⊢
    split at h
    · cases h
    · rename_i hfraction
      rw [readFraction_append hafter hfraction]
      dsimp only at h ⊢
      split at h
      · cases h
      · rename_i hexponent
        rw [readExponent_append hafter hexponent]
        obtain ⟨rfl, rfl⟩ := Prod.mk.inj (Except.ok.inj h)
        rfl

/-- A number does not depend on what follows it. -/
theorem readNumeral_append {parts : Numeral} (h : readNumeral s = .ok (parts, rest)) :
    readNumeral (s ++ after) = .ok (parts, rest ++ after) := by
  rw [readNumeral_eq] at h ⊢
  cases s with
  | nil => cases h
  | cons c t =>
    rw [List.cons_append, List.head?_cons, List.tail_cons]
    rw [List.head?_cons, List.tail_cons] at h
    by_cases hminus : some c = some '-'
    · rw [if_pos hminus] at h ⊢
      exact readUnsigned_append hafter h
    · rw [if_neg hminus] at h ⊢
      exact readUnsigned_append hafter h

end Numbers

/-! ## Strings -/

/-- Four digits do not depend on what follows. -/
private theorem readUnit_append {unit : Nat} (h : readUnit s = .ok (unit, rest))
    (after : List Char) :
    readUnit (s ++ after) = .ok (unit, rest ++ after) := by
  unfold readUnit at h
  split at h
  · simp only [List.cons_append, readUnit]
    split at h
    · obtain ⟨rfl, rfl⟩ := Prod.mk.inj (Except.ok.inj h)
      simp only [*]
    · cases h
  · cases h

/-- An escape does not depend on what follows. -/
private theorem skipEscape_append (h : skipEscape s = .ok rest) (after : List Char) :
    skipEscape (s ++ after) = .ok (rest ++ after) := by
  cases s with
  | nil => cases h
  | cons c t =>
    rw [List.cons_append]
    -- An escape is a number behind a `u`, or a letter.
    by_cases hc : c = 'u'
    · subst hc
      rw [skipEscape] at h ⊢
      cases hunit : readUnit t with
      | error f =>
        rw [hunit] at h
        cases h
      | ok p =>
        rw [hunit] at h
        obtain rfl := Except.ok.inj h
        rw [readUnit_append hunit]
    · rw [skipEscape_of_ne hc] at h ⊢
      by_cases hletter : (escapeLetter? c).isSome
      · rw [if_pos hletter] at h ⊢
        rw [Except.ok.inj h]
      · rw [if_neg hletter] at h
        cases h

/-- A string does not depend on what follows it. -/
theorem skipString_append (h : skipString s = .ok rest) (after : List Char) :
    skipString (s ++ after) = .ok (rest ++ after) := by
  -- The cases are those of the reader: the end, the quote, a good or bad escape, a control, and a
  -- plain character.
  fun_induction skipString s with
  | case1 => cases h
  | case2 r =>
    obtain rfl := Except.ok.inj h
    rw [List.cons_append, skipString, if_pos rfl]
  | case3 => cases h
  | case4 r left hescape _ ih =>
    rw [List.cons_append, skipString_escape (skipEscape_append hescape after)]
    exact ih h
  | case5 => cases h
  | case6 c r hquote hescape hcontrol ih =>
    rw [List.cons_append, skipString, if_neg hquote, if_neg hescape, if_neg hcontrol]
    exact ih h

/-! ### Decoded -/

/-- An escape in a string that has an end is complete. -/
private theorem exists_of_skipString_escape (h : skipString ('\\' :: s) = .ok rest) :
    ∃ left, skipEscape s = .ok left ∧ skipString left = .ok rest := by
  cases hescape : skipEscape s with
  | error f =>
    rw [skipString, if_neg (by decide), if_pos rfl] at h
    split at h
    · cases h
    · rename_i heq
      rw [hescape] at heq
      cases heq
  | ok left => exact ⟨left, rfl, (skipString_escape hescape).symm.trans h⟩

/-- An escape by number has four digits, with a string behind them that has an end. -/
private theorem exists_of_skipString_unit (h : skipString ('\\' :: 'u' :: s) = .ok rest) :
    ∃ unit left, readUnit s = .ok (unit, left) ∧ skipString left = .ok rest := by
  obtain ⟨left, hescape, hleft⟩ := exists_of_skipString_escape h
  rw [skipEscape] at hescape
  split at hescape
  · cases hescape
  · rename_i unit left' hunit
    obtain rfl := Except.ok.inj hescape
    exact ⟨unit, left', hunit, hleft⟩

/-- What a longer text starts with. -/
def Piece.append (after : List Char) : Piece → Piece
  | .char value rest => .char value (rest ++ after)
  | .close rest => .close (rest ++ after)
  | .broken fault => .broken fault

/-- The second half of a pair begins with a backslash. -/
private theorem pairPiece_of_ne {high : Nat} {c : Char} (hc : c ≠ '\\') (t : List Char) :
    pairPiece high (c :: t) = .broken .ungrammatical := by
  unfold pairPiece
  split
  · rename_i heq; cases heq
  · rename_i heq; exact absurd (List.cons.inj heq).1 hc
  · rename_i heq; exact absurd (List.cons.inj heq).1 hc
  · rfl

/-- The second half of a pair is a number. -/
private theorem pairPiece_of_letter_ne {high : Nat} {c : Char} (hc : c ≠ 'u') (t : List Char) :
    pairPiece high ('\\' :: c :: t) = .broken .ungrammatical := by
  unfold pairPiece
  split
  · rename_i heq; cases heq
  · rename_i heq; cases heq
  · rename_i heq; exact absurd (List.cons.inj (List.cons.inj heq).2).1 hc
  · rfl

/-- The second half of a pair is looked for in a string that has an end, so it is there or it is
    not, whatever comes behind the string. -/
private theorem pairPiece_append (h : skipString s = .ok rest) (high : Nat) (after : List Char) :
    pairPiece high (s ++ after) = (pairPiece high s).append after := by
  cases s with
  | nil =>
    rw [skipString] at h
    cases h
  | cons c t =>
    by_cases hc : c = '\\'
    · subst hc
      cases t with
      | nil =>
        -- A string does not end with a backslash.
        obtain ⟨left, hescape, -⟩ := exists_of_skipString_escape h
        cases hescape
      | cons d u =>
        by_cases hd : d = 'u'
        · subst hd
          obtain ⟨unit, left, hunit, -⟩ := exists_of_skipString_unit h
          simp only [List.cons_append, pairPiece, hunit, readUnit_append hunit]
          split <;> rfl
        · rw [List.cons_append, List.cons_append, pairPiece_of_letter_ne hd,
            pairPiece_of_letter_ne hd]
          rfl
    · rw [List.cons_append, pairPiece_of_ne hc, pairPiece_of_ne hc]
      rfl

/-- A decoded escape does not depend on what follows the string. -/
private theorem escapePiece_append (h : skipString ('\\' :: s) = .ok rest) (after : List Char) :
    escapePiece (s ++ after) = (escapePiece s).append after := by
  cases s with
  | nil =>
    obtain ⟨left, hescape, -⟩ := exists_of_skipString_escape h
    cases hescape
  | cons c t =>
    by_cases hc : c = 'u'
    · subst hc
      obtain ⟨unit, left, hunit, hleft⟩ := exists_of_skipString_unit h
      simp only [List.cons_append, escapePiece, hunit, readUnit_append hunit]
      by_cases hlow : isLowSurrogate unit
      · rw [if_pos hlow, if_pos hlow]
        rfl
      · rw [if_neg hlow, if_neg hlow]
        -- The first half of a pair asks for the second one behind it.
        by_cases hhigh : isHighSurrogate unit
        · rw [if_pos hhigh, if_pos hhigh]
          exact pairPiece_append hleft unit after
        · rw [if_neg hhigh, if_neg hhigh]
          rfl
    · rw [List.cons_append, escapePiece_of_ne hc, escapePiece_of_ne hc]
      cases escapeLetter? c <;> rfl

/-- The next piece does not depend on what follows the string. -/
private theorem nextPiece_append (h : skipString s = .ok rest) (after : List Char) :
    nextPiece (s ++ after) = (nextPiece s).append after := by
  cases s with
  | nil =>
    rw [skipString] at h
    cases h
  | cons c t =>
    -- A quote ends the string, a backslash begins an escape, and everything else stands for itself.
    by_cases hquote : c = '"'
    · subst hquote
      rfl
    by_cases hescape : c = '\\'
    · subst hescape
      exact escapePiece_append h after
    · rw [List.cons_append, nextPiece_of_ne hquote hescape, nextPiece_of_ne hquote hescape]
      split <;> rfl

/-- Behind a pair of surrogates the string goes on. -/
private theorem skipString_of_pairPiece {high : Nat} {c : Char} {t : List Char}
    (hpiece : pairPiece high s = .char c t) (h : skipString s = .ok rest) :
    skipString t = .ok rest := by
  unfold pairPiece at hpiece
  split at hpiece
  · cases hpiece
  · cases hpiece
  · obtain ⟨unit, left, hunit, hleft⟩ := exists_of_skipString_unit h
    simp only [hunit] at hpiece
    split at hpiece
    · obtain ⟨-, rfl⟩ := Piece.char.inj hpiece
      exact hleft
    · cases hpiece
  · cases hpiece

/-- Behind a decoded escape the string goes on. -/
private theorem skipString_of_escapePiece {c : Char} {t : List Char}
    (hpiece : escapePiece s = .char c t) (h : skipString ('\\' :: s) = .ok rest) :
    skipString t = .ok rest := by
  cases s with
  | nil => cases hpiece
  | cons letter u =>
    -- The escape is a number, perhaps the first of a pair, or a letter.
    by_cases hu : letter = 'u'
    · subst hu
      obtain ⟨unit, left, hunit, hleft⟩ := exists_of_skipString_unit h
      simp only [escapePiece, hunit] at hpiece
      split at hpiece
      · cases hpiece
      · split at hpiece
        · exact skipString_of_pairPiece hpiece hleft
        · obtain ⟨-, rfl⟩ := Piece.char.inj hpiece
          exact hleft
    · obtain ⟨left, hescape, hleft⟩ := exists_of_skipString_escape h
      rw [escapePiece_of_ne hu] at hpiece
      rw [skipEscape_of_ne hu] at hescape
      cases hletter : escapeLetter? letter with
      | none =>
        rw [hletter] at hpiece
        cases hpiece
      | some value =>
        rw [hletter] at hpiece hescape
        obtain ⟨-, rfl⟩ := Piece.char.inj hpiece
        rw [Except.ok.inj hescape]
        exact hleft

/-- The end of a string is behind each of its characters, also behind one that is spelt as a
    pair. -/
private theorem skipString_of_nextPiece {c : Char} {t : List Char}
    (hpiece : nextPiece s = .char c t)
    (h : skipString s = .ok rest) : skipString t = .ok rest := by
  cases s with
  | nil => cases hpiece
  | cons d u =>
    -- The piece is an escape or a plain character, as the quote is no piece.
    by_cases hquote : d = '"'
    · subst hquote
      cases hpiece
    by_cases hescape : d = '\\'
    · subst hescape
      exact skipString_of_escapePiece hpiece h
    · rw [nextPiece_of_ne hquote hescape] at hpiece
      by_cases hcontrol : d.toNat < 0x20
      · rw [if_pos hcontrol] at hpiece
        cases hpiece
      · rw [if_neg hcontrol] at hpiece
        obtain ⟨-, rfl⟩ := Piece.char.inj hpiece
        rw [skipString, if_neg hquote, if_neg hescape, if_neg hcontrol] at h
        exact h

/-- Characters are read piece by piece. -/
theorem readChars_eq (s : List Char) :
    readChars s =
      match nextPiece s with
      | .broken f => .error f
      | .close rest => .ok ([], rest)
      | .char c rest => (readChars rest).map fun r => (c :: r.1, r.2) := by
  cases hpiece : nextPiece s with
  | char c rest => exact readChars_cons hpiece
  | close rest | broken fault =>
    rw [readChars]
    split <;> simp_all

/-- The characters of a string do not depend on what follows it. -/
private theorem readChars_append {s rest : List Char} (h : skipString s = .ok rest)
    (after : List Char) :
    readChars (s ++ after) = (readChars s).map fun r => (r.1, r.2 ++ after) := by
  rw [readChars_eq, readChars_eq s, nextPiece_append h]
  cases hpiece : nextPiece s with
  | broken fault => rfl
  | close left => rfl
  | char c left =>
    -- What is left is a string that has an end again, and it is shorter.
    have := length_of_nextPiece hpiece
    simp only [Piece.append, readChars_append (skipString_of_nextPiece hpiece h)]
    cases readChars left <;> rfl
termination_by s.length

/-- What is read of a string does not depend on what follows it. -/
theorem readString_append (h : skipString s = .ok rest) (after : List Char) :
    (readString (s ++ after)).map (·.1) = (readString s).map (·.1) := by
  rw [readString, readString, readChars_append h]
  cases readChars s <;> rfl

end KvmConsole.Json
