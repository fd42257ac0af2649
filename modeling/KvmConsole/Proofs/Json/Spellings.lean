import KvmConsole.Proofs.Json.Values

/-!
# Spellings of strings

A JSON text can spell a string in many ways: each character stands for itself, if it may, or is
escaped by a letter, by its number, or by the two numbers of a surrogate pair. Whatever spelling is
chosen, the string that is read is the one that was meant.

Key results:
* `SpellsChar`, `SpellsString`: the spellings of a character and of a string.
* `nextPiece_of_spells`: a spelling of a character is read as the character.
* `Draft.reads_of_spells`: a spelling of a string is read as the string.
* `spellsString_writeString`: what is written for a string is one of its spellings.
-/

namespace KvmConsole.Json

open Text (hexValue?)

/-- Four hexadecimal digits of either case spell a number. -/
inductive SpellsUnit : List Char → Nat → Prop where
  | mk {a b c d : Char} {i j k l : Nat} (ha : hexValue? a = some i) (hb : hexValue? b = some j)
      (hc : hexValue? c = some k) (hd : hexValue? d = some l) :
    SpellsUnit [a, b, c, d] (((i * 16 + j) * 16 + k) * 16 + l)

/-- A piece of text spells a character inside a string. -/
inductive SpellsChar : List Char → Char → Prop where
  | plain {c : Char} (hquote : c ≠ '"') (hescape : c ≠ '\\') (hcontrol : ¬ c.toNat < 0x20) :
    SpellsChar [c] c
  | letter {letter c : Char} (h : escapeLetter? letter = some c) : SpellsChar ['\\', letter] c
  | number {digits : List Char} {c : Char} (h : SpellsUnit digits c.toNat) :
    SpellsChar ('\\' :: 'u' :: digits) c
  | pair {digits digits' : List Char} {high low : Nat} {c : Char} (hhigh : SpellsUnit digits high)
      (hlow : SpellsUnit digits' low) (hhighRange : 0xd800 ≤ high ∧ high ≤ 0xdbff)
      (hlowRange : 0xdc00 ≤ low ∧ low ≤ 0xdfff)
      (hc : c.toNat = 0x10000 + (high - 0xd800) * 0x400 + (low - 0xdc00)) :
    SpellsChar ('\\' :: 'u' :: (digits ++ '\\' :: 'u' :: digits')) c

/-- A text spells the characters of a string, one after the other. -/
inductive SpellsChars : List Char → List Char → Prop where
  | nil : SpellsChars [] []
  | cons {text rest : List Char} {c : Char} {cs : List Char} (hc : SpellsChar text c)
      (hcs : SpellsChars rest cs) : SpellsChars (text ++ rest) (c :: cs)

/-- A text spells a string between quotation marks. -/
def SpellsString (text s : String) : Prop :=
  ∃ chars, text.toList = '"' :: (chars ++ ['"']) ∧ SpellsChars chars s.toList

/-! ## Spellings are read -/

/-- Four hexadecimal digits are read as the number they spell. -/
private theorem readUnit_of_spells {digits : List Char} {n : Nat} (h : SpellsUnit digits n)
    (rest : List Char) : readUnit (digits ++ rest) = .ok (n, rest) := by
  cases h with
  | mk ha hb hc hd => simp [readUnit, ha, hb, hc, hd]

/-- No escape is spelt by the letter of escapes by number. -/
private theorem ne_of_escapeLetter {letter c : Char} (h : escapeLetter? letter = some c) :
    letter ≠ 'u' := by
  rintro rfl
  cases h

/-- The number of a character is not that of a surrogate. -/
private theorem isSurrogate_toNat (c : Char) :
    isLowSurrogate c.toNat = false ∧ isHighSurrogate c.toNat = false := by
  have hvalid : c.toNat < 0xd800 ∨ 0xdfff < c.toNat ∧ c.toNat < 0x110000 := c.valid
  simp only [isLowSurrogate, isHighSurrogate, Bool.and_eq_false_iff, decide_eq_false_iff_not]
  omega

/-- A spelled character is read as one piece. -/
theorem nextPiece_of_spells {text : List Char} {c : Char} (h : SpellsChar text c)
    (rest : List Char) : nextPiece (text ++ rest) = .char c rest := by
  cases h with
  -- A character stands for itself, behind a backslash as a letter or a number, or as a pair of
  -- surrogates.
  | plain hquote hescape hcontrol =>
    rw [List.singleton_append, nextPiece_of_ne hquote hescape, if_neg hcontrol]
  | @letter letter _ hletter =>
    show escapePiece (letter :: rest) = .char c rest
    rw [escapePiece_of_ne (ne_of_escapeLetter hletter), hletter]
  | @number digits _ hnumber =>
    show escapePiece ('u' :: (digits ++ rest)) = .char c rest
    obtain ⟨hlow, hhigh⟩ := isSurrogate_toNat c
    simp [escapePiece, readUnit_of_spells hnumber, hlow, hhigh, Char.ofNat_toNat]
  | @pair digits digits' high low _ hhigh hlow hhighRange hlowRange hc =>
    show escapePiece ('u' :: ((digits ++ '\\' :: 'u' :: digits') ++ rest)) = .char c rest
    have hnotLow : isLowSurrogate high = false := by simp [isLowSurrogate]; omega
    have hisHigh : isHighSurrogate high = true := by simp [isHighSurrogate]; omega
    have hisLow : isLowSurrogate low = true := by simp [isLowSurrogate]; omega
    rw [List.append_assoc]
    simp [escapePiece, pairPiece, readUnit_of_spells hhigh, readUnit_of_spells hlow, hnotLow,
      hisHigh, hisLow, ← hc, Char.ofNat_toNat]

/-- A spelled character is skipped. -/
private theorem skipString_of_spells {text : List Char} {c : Char} (h : SpellsChar text c)
    (rest : List Char) : skipString (text ++ rest) = skipString rest := by
  cases h with
  | plain hquote hescape hcontrol =>
    rw [List.singleton_append, skipString, if_neg hquote, if_neg hescape, if_neg hcontrol]
  | @letter letter _ hletter =>
    have hskip : skipEscape (letter :: rest) = .ok rest := by
      rw [skipEscape_of_ne (ne_of_escapeLetter hletter), hletter]
      rfl
    exact skipString_escape hskip
  | @number digits _ hnumber =>
    refine skipString_escape (s := 'u' :: (digits ++ rest)) ?_
    simp [skipEscape, readUnit_of_spells hnumber]
  | @pair digits digits' _ _ _ hhigh hlow =>
    -- To a reader that does not decode them, the two halves are two escapes.
    have hfirst : skipEscape ('u' :: (digits ++ '\\' :: 'u' :: (digits' ++ rest))) =
        .ok ('\\' :: 'u' :: (digits' ++ rest)) := by
      simp [skipEscape, readUnit_of_spells hhigh]
    have hsecond : skipEscape ('u' :: (digits' ++ rest)) = .ok rest := by
      simp [skipEscape, readUnit_of_spells hlow]
    have htext : ('\\' :: 'u' :: (digits ++ '\\' :: 'u' :: digits')) ++ rest =
        '\\' :: 'u' :: (digits ++ '\\' :: 'u' :: (digits' ++ rest)) := by simp
    rw [htext, skipString_escape hfirst, skipString_escape hsecond]

/-- Spelled characters are read up to the closing quote, and skipped up to it. -/
private theorem readChars_of_spells {text cs : List Char} (h : SpellsChars text cs)
    (rest : List Char) :
    readChars (text ++ '"' :: rest) = .ok (cs, rest) ∧
      skipString (text ++ '"' :: rest) = .ok rest := by
  induction h with
  | nil =>
    refine ⟨?_, ?_⟩
    · rw [List.nil_append, readChars]
      rfl
    · rw [List.nil_append, skipString.eq_def]
      rfl
  | cons hc _ ih =>
    rw [List.append_assoc]
    refine ⟨?_, ?_⟩
    · rw [readChars_cons (nextPiece_of_spells hc _), ih.1]
      rfl
    · rw [skipString_of_spells hc, ih.2]

/-- A string is read, however it is spelt. -/
theorem Draft.reads_of_spells {text s : String} (h : SpellsString text s) (rest : List Char) :
    Draft.Reads (text.toList ++ rest) (.string (.ok s) (.ok ())) rest := by
  obtain ⟨chars, htext, hchars⟩ := h
  obtain ⟨hread, hskip⟩ := readChars_of_spells hchars rest
  have hblank : skipBlanks (text.toList ++ rest) = '"' :: (chars ++ '"' :: rest) := by
    simp [htext, skipBlanks, isBlank]
  have hdecode : readString (chars ++ '"' :: rest) = .ok (s, rest) := by
    simp only [readString, hread, String.ofList_toList]
  have hstring := Draft.reads_string hblank hskip
  rw [hdecode] at hstring
  exact hstring

/-! ## Spellings that are written -/

/-- A control character is spelled by two zeros and its two digits. -/
private theorem spellsUnit_control {n : Nat} (hn : n < 0x20) :
    SpellsUnit ['0', '0', Nat.digitChar (n / 16), Nat.digitChar (n % 16)] n := by
  have hzero : hexValue? '0' = some 0 := rfl
  have hunit := SpellsUnit.mk hzero hzero (hexValue?_digitChar (show n / 16 < 16 by omega))
    (hexValue?_digitChar (show n % 16 < 16 by omega))
  have hvalue : ((0 * 16 + 0) * 16 + n / 16) * 16 + n % 16 = n := by omega
  rw [hvalue] at hunit
  exact hunit

/-- A written character spells itself. -/
private theorem spellsChar_writeChar (c : Char) : SpellsChar (writeChar c) c := by
  rcases writeChar_cases c with ⟨hc, hquote, hescape, hcontrol⟩ | ⟨letter, hc, -, hletter⟩ |
    ⟨hc, hcontrol⟩ <;> rw [hc]
  · exact .plain hquote hescape hcontrol
  · exact .letter hletter
  · exact .number (spellsUnit_control hcontrol)

/-- Written characters spell themselves. -/
private theorem spellsChars_flatMap (cs : List Char) : SpellsChars (cs.flatMap writeChar) cs := by
  induction cs with
  | nil => exact .nil
  | cons c cs ih => exact .cons (spellsChar_writeChar c) ih

/-- What is written for a string spells it. -/
theorem spellsString_writeString (s : String) :
    SpellsString (String.ofList (writeString s)) s :=
  ⟨s.toList.flatMap writeChar, String.toList_ofList, spellsChars_flatMap s.toList⟩

end KvmConsole.Json
