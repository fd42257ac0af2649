import KvmConsole.Json.Text
import KvmConsole.Json.Writer

/-!
# Strings read back

Each character is written as itself or as an escape, and the reader takes the one or the other for
the character. The closing quotation mark is the first one that is not part of an escape.

Key results:
* `nextPiece_writeChar`: a character that has been written is read as itself.
* `readString_writeString`: a string that has been written reads back.
* `skipString_writeString`: its end is found without decoding it.
-/

namespace KvmConsole.Json

open Text (hexValue?)

/-- A hexadecimal digit has the value it was written for. -/
theorem hexValue?_digitChar {d : Nat} (hd : d < 16) : hexValue? (Nat.digitChar d) = some d := by
  have hall : ∀ d : Fin 16, hexValue? (Nat.digitChar d) = some d.val := by decide
  exact hall ⟨d, hd⟩

/-- Two hexadecimal digits are enough for a control character. -/
private theorem readUnit_digitChar {n : Nat} (hn : n < 0x20) (rest : List Char) :
    readUnit ('0' :: '0' :: Nat.digitChar (n / 16) :: Nat.digitChar (n % 16) :: rest) =
      .ok (n, rest) := by
  have hzero : hexValue? '0' = some 0 := rfl
  have hvalue : ((0 * 16 + 0) * 16 + n / 16) * 16 + n % 16 = n := by omega
  simp only [readUnit, hzero, hexValue?_digitChar (show n / 16 < 16 by omega),
    hexValue?_digitChar (show n % 16 < 16 by omega), hvalue]

/-- What stands for a character in a string is one of three things: the character itself, a
    backslash with a letter, or a backslash with the number of a control character. -/
theorem writeChar_cases (c : Char) :
    (writeChar c = [c] ∧ c ≠ '"' ∧ c ≠ '\\' ∧ ¬ c.toNat < 0x20) ∨
    (∃ letter, writeChar c = ['\\', letter] ∧ letter ≠ 'u' ∧ escapeLetter? letter = some c) ∨
    (writeChar c = ['\\', 'u', '0', '0', Nat.digitChar (c.toNat / 16),
        Nat.digitChar (c.toNat % 16)] ∧ c.toNat < 0x20) := by
  -- Seven characters have a letter of their own, then come the other controls, and then the rest.
  unfold writeChar
  split
  · subst c; exact .inr (.inl ⟨'"', rfl, by decide, rfl⟩)
  split
  · subst c; exact .inr (.inl ⟨'\\', rfl, by decide, rfl⟩)
  split
  · subst c; exact .inr (.inl ⟨'b', rfl, by decide, rfl⟩)
  split
  · subst c; exact .inr (.inl ⟨'f', rfl, by decide, rfl⟩)
  split
  · subst c; exact .inr (.inl ⟨'n', rfl, by decide, rfl⟩)
  split
  · subst c; exact .inr (.inl ⟨'r', rfl, by decide, rfl⟩)
  split
  · subst c; exact .inr (.inl ⟨'t', rfl, by decide, rfl⟩)
  split
  · exact .inr (.inr ⟨rfl, ‹_›⟩)
  · exact .inl ⟨rfl, ‹_›, ‹_›, ‹_›⟩

/-! ## One character -/

/-- An escape that is no number is a letter. -/
theorem escapePiece_of_ne {c : Char} (hc : c ≠ 'u') (t : List Char) :
    escapePiece (c :: t) =
      match escapeLetter? c with
      | some value => .char value t
      | none => .broken .ungrammatical := by
  unfold escapePiece
  split
  · rename_i heq; cases heq
  · rename_i heq; exact absurd (List.cons.inj heq).1 hc
  · rename_i heq
    obtain ⟨rfl, rfl⟩ := List.cons.inj heq
    rfl

/-- An escape that is no number is skipped as a letter. -/
theorem skipEscape_of_ne {c : Char} (hc : c ≠ 'u') (t : List Char) :
    skipEscape (c :: t) =
      if (escapeLetter? c).isSome then .ok t else .error .ungrammatical := by
  unfold skipEscape
  split
  · rename_i heq; cases heq
  · rename_i heq; exact absurd (List.cons.inj heq).1 hc
  · rename_i heq
    obtain ⟨rfl, rfl⟩ := List.cons.inj heq
    rfl

/-- A character that is neither a quote nor a backslash stands for itself, unless it is a
    control. -/
theorem nextPiece_of_ne {c : Char} (hquote : c ≠ '"') (hescape : c ≠ '\\') (t : List Char) :
    nextPiece (c :: t) = if c.toNat < 0x20 then .broken .ungrammatical else .char c t := by
  unfold nextPiece
  split
  · rename_i heq; cases heq
  · rename_i heq; exact absurd (List.cons.inj heq).1 hquote
  · rename_i heq; exact absurd (List.cons.inj heq).1 hescape
  · rename_i heq
    obtain ⟨rfl, rfl⟩ := List.cons.inj heq
    rfl

/-- A written character is read as one piece. -/
theorem nextPiece_writeChar (c : Char) (rest : List Char) :
    nextPiece (writeChar c ++ rest) = .char c rest := by
  rcases writeChar_cases c with ⟨hc, hquote, hescape, hcontrol⟩ | ⟨letter, hc, hu, hletter⟩ |
    ⟨hc, hcontrol⟩
  · -- The character itself, which neither closes the string nor opens an escape.
    rw [hc, List.singleton_append, nextPiece_of_ne hquote hescape, if_neg hcontrol]
  · -- An escape by a letter.
    rw [hc]
    show escapePiece (letter :: rest) = .char c rest
    rw [escapePiece_of_ne hu, hletter]
  · -- An escape by number, which is too small for a surrogate.
    have hlow : isLowSurrogate c.toNat = false := by simp [isLowSurrogate]; omega
    have hhigh : isHighSurrogate c.toNat = false := by simp [isHighSurrogate]; omega
    rw [hc]
    show escapePiece ('u' :: '0' :: '0' :: _ :: _ :: rest) = .char c rest
    simp [escapePiece, readUnit_digitChar hcontrol, hlow, hhigh, Char.ofNat_toNat]

/-- The characters of a string are read one by one. -/
theorem readChars_cons {s rest : List Char} {c : Char} (h : nextPiece s = .char c rest) :
    readChars s = (readChars rest).map fun r => (c :: r.1, r.2) := by
  rw [readChars]
  split
  · rename_i heq; rw [h] at heq; cases heq
  · rename_i heq; rw [h] at heq; cases heq
  · rename_i c' rest' heq
    rw [h] at heq
    obtain ⟨rfl, rfl⟩ := Piece.char.inj heq
    cases readChars rest <;> rfl

/-- Written characters are read up to the closing quote. -/
private theorem readChars_writeChar (cs rest : List Char) :
    readChars (cs.flatMap writeChar ++ '"' :: rest) = .ok (cs, rest) := by
  induction cs with
  | nil =>
    rw [readChars]
    rfl
  | cons c cs ih =>
    rw [List.flatMap_cons, List.append_assoc, readChars_cons (nextPiece_writeChar c _), ih]
    rfl

/-- A string reads back, after its opening quotation mark. -/
theorem readString_writeString (s : String) (rest : List Char) :
    readString (s.toList.flatMap writeChar ++ '"' :: rest) = .ok (s, rest) := by
  simp only [readString, readChars_writeChar, String.ofList_toList]

/-- A tab has a letter, another control has its number, and the rest is written as it is. -/
example : writeString "\t\x01é" =
    ['"', '\\', 't', '\\', 'u', '0', '0', '0', '1', 'é', '"'] := by decide

/-- A string is skipped past an escape. -/
theorem skipString_escape {s rest : List Char} (h : skipEscape s = .ok rest) :
    skipString ('\\' :: s) = skipString rest := by
  rw [skipString, if_neg (by decide), if_pos rfl]
  split
  · rename_i heq; rw [h] at heq; cases heq
  · rename_i heq
    rw [h] at heq
    obtain rfl := Except.ok.inj heq
    rfl

/-- A written character is skipped. -/
theorem skipString_writeChar (c : Char) (rest : List Char) :
    skipString (writeChar c ++ rest) = skipString rest := by
  rcases writeChar_cases c with ⟨hc, hquote, hescape, hcontrol⟩ | ⟨letter, hc, hu, hletter⟩ |
    ⟨hc, hcontrol⟩
  · rw [hc, List.singleton_append, skipString, if_neg hquote, if_neg hescape, if_neg hcontrol]
  · have hskip : skipEscape (letter :: rest) = .ok rest := by
      rw [skipEscape_of_ne hu, hletter]
      rfl
    rw [hc]
    exact skipString_escape hskip
  · rw [hc]
    refine skipString_escape (s := 'u' :: '0' :: '0' :: _ :: _ :: rest) ?_
    simp [skipEscape, readUnit_digitChar hcontrol]

/-- The end of a string is found, after its opening quotation mark. -/
theorem skipString_writeString (s : String) (rest : List Char) :
    skipString (s.toList.flatMap writeChar ++ '"' :: rest) = .ok rest := by
  generalize s.toList = cs
  induction cs with
  | nil =>
    rw [skipString.eq_def]
    rfl
  | cons c cs ih => rw [List.flatMap_cons, List.append_assoc, skipString_writeChar, ih]

end KvmConsole.Json
