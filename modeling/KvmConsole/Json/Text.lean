import KvmConsole.Json.Fault
import KvmConsole.Text.Digits

/-!
# JSON strings

`readString` decodes the string at the front of a text, after its opening quotation mark. Escapes of
surrogates have to come in pairs. `skipString` finds the end of a string without decoding it, and so
lets any four hexadecimal digits pass.
-/

namespace KvmConsole.Json

open Text (hexValue?)

def isBlank (c : Char) : Bool := c = ' ' || c = '\t' || c = '\n' || c = '\r'

/-- Drops blanks at the front of a text. -/
def skipBlanks (s : List Char) : List Char := s.dropWhile isBlank

theorem length_skipBlanks_le (s : List Char) : (skipBlanks s).length ≤ s.length :=
  (List.dropWhile_sublist isBlank).length_le

/-- Whether a text has at least four bytes in UTF-8. -/
def hasFourBytes (s : List Char) : Bool := 4 ≤ (String.ofList (s.take 4)).utf8ByteSize

/-- The sixteen-bit unit spelt by four hexadecimal digits. Without four more bytes of any kind the
    text counts as ended. -/
def readUnit : List Char → Except Fault (Nat × List Char)
  | a :: b :: c :: d :: rest =>
    match hexValue? a, hexValue? b, hexValue? c, hexValue? d with
    | some a, some b, some c, some d => .ok (((a * 16 + b) * 16 + c) * 16 + d, rest)
    | _, _, _, _ => .error .ungrammatical
  | s => .error (if hasFourBytes s then .ungrammatical else .truncated)

/-- What a text inside a string starts with. -/
inductive Piece where
  /-- A character, and the text after its spelling. -/
  | char (value : Char) (rest : List Char)
  /-- The closing quotation mark, and the text after it. -/
  | close (rest : List Char)
  | broken (fault : Fault)
  deriving DecidableEq, Repr

/-- The character that a letter stands for after a backslash. -/
def escapeLetter? : Char → Option Char
  | '"' => some '"'
  | '\\' => some '\\'
  | '/' => some '/'
  | 'b' => some '\x08'
  | 'f' => some '\x0c'
  | 'n' => some '\n'
  | 'r' => some '\r'
  | 't' => some '\t'
  | _ => none

def isHighSurrogate (unit : Nat) : Bool := 0xd800 ≤ unit && unit ≤ 0xdbff

def isLowSurrogate (unit : Nat) : Bool := 0xdc00 ≤ unit && unit ≤ 0xdfff

/-- The second half of a surrogate pair. -/
def pairPiece (high : Nat) : List Char → Piece
  | [] => .broken .truncated
  | ['\\'] => .broken .truncated
  | '\\' :: 'u' :: rest =>
    match readUnit rest with
    | .error f => .broken f
    | .ok (low, rest) =>
      if isLowSurrogate low then
        .char (Char.ofNat (0x10000 + (high - 0xd800) * 0x400 + (low - 0xdc00))) rest
      else .broken .ungrammatical
  | _ => .broken .ungrammatical

/-- The character spelt after a backslash. -/
def escapePiece : List Char → Piece
  | [] => .broken .truncated
  | 'u' :: rest =>
    match readUnit rest with
    | .error f => .broken f
    | .ok (unit, rest) =>
      if isLowSurrogate unit then .broken .ungrammatical
      else if isHighSurrogate unit then pairPiece unit rest
      else .char (Char.ofNat unit) rest
  | c :: rest =>
    match escapeLetter? c with
    | some value => .char value rest
    | none => .broken .ungrammatical

/-- The next piece of a string. -/
def nextPiece : List Char → Piece
  | [] => .broken .truncated
  | '"' :: rest => .close rest
  | '\\' :: rest => escapePiece rest
  | c :: rest => if c.toNat < 0x20 then .broken .ungrammatical else .char c rest

theorem length_of_readUnit {s rest : List Char} {n : Nat} (h : readUnit s = .ok (n, rest)) :
    rest.length < s.length := by
  unfold readUnit at h
  split at h
  · split at h
    · simp only [Except.ok.injEq, Prod.mk.injEq] at h
      obtain ⟨-, rfl⟩ := h
      simp only [List.length_cons]; omega
    · exact nomatch h
  · exact nomatch h

theorem length_of_pairPiece {high : Nat} {s rest : List Char} {c : Char}
    (h : pairPiece high s = .char c rest) : rest.length < s.length := by
  unfold pairPiece at h
  split at h
  · exact nomatch h
  · exact nomatch h
  · split at h
    · exact nomatch h
    · rename_i hu
      split at h
      · simp only [Piece.char.injEq] at h
        obtain ⟨-, rfl⟩ := h
        have := length_of_readUnit hu
        simp only [List.length_cons]; omega
      · exact nomatch h
  · exact nomatch h

theorem length_of_escapePiece {s rest : List Char} {c : Char}
    (h : escapePiece s = .char c rest) : rest.length < s.length := by
  unfold escapePiece at h
  split at h
  · exact nomatch h
  · split at h
    · exact nomatch h
    · rename_i hu
      have := length_of_readUnit hu
      split at h
      · exact nomatch h
      · split at h
        · have := length_of_pairPiece h
          simp only [List.length_cons]; omega
        · simp only [Piece.char.injEq] at h
          obtain ⟨-, rfl⟩ := h
          simp only [List.length_cons]; omega
  · split at h
    · simp only [Piece.char.injEq] at h
      obtain ⟨-, rfl⟩ := h
      simp only [List.length_cons]; omega
    · exact nomatch h

/-- A piece takes at least one character off the text. -/
theorem length_of_nextPiece {s rest : List Char} {c : Char} (h : nextPiece s = .char c rest) :
    rest.length < s.length := by
  unfold nextPiece at h
  split at h
  · exact nomatch h
  · exact nomatch h
  · have := length_of_escapePiece h
    simp only [List.length_cons]; omega
  · split at h
    · exact nomatch h
    · simp only [Piece.char.injEq] at h
      obtain ⟨-, rfl⟩ := h
      simp

/-- The characters up to the closing quotation mark, and the text after it. -/
def readChars (s : List Char) : Except Fault (List Char × List Char) :=
  match _h : nextPiece s with
  | .broken f => .error f
  | .close rest => .ok ([], rest)
  | .char c rest =>
    match readChars rest with
    | .error f => .error f
    | .ok (cs, after) => .ok (c :: cs, after)
termination_by s.length
decreasing_by exact length_of_nextPiece ‹_›

/-- Decodes a string after its opening quotation mark. -/
def readString (s : List Char) : Except Fault (String × List Char) :=
  match readChars s with
  | .error f => .error f
  | .ok (cs, rest) => .ok (String.ofList cs, rest)

/-- The text after one escape, whatever it stands for. -/
def skipEscape : List Char → Except Fault (List Char)
  | [] => .error .truncated
  | 'u' :: rest =>
    match readUnit rest with
    | .error f => .error f
    | .ok (_, after) => .ok after
  | c :: rest => if (escapeLetter? c).isSome then .ok rest else .error .ungrammatical

theorem length_of_skipEscape {s rest : List Char} (h : skipEscape s = .ok rest) :
    rest.length < s.length := by
  unfold skipEscape at h
  split at h
  · exact nomatch h
  · split at h
    · exact nomatch h
    · rename_i hu
      have := length_of_readUnit hu
      simp only [Except.ok.injEq] at h
      subst h
      simp only [List.length_cons]; omega
  · split at h
    · simp only [Except.ok.injEq] at h
      subst h
      simp
    · exact nomatch h

/-- The text after the closing quotation mark of a string. -/
def skipString : List Char → Except Fault (List Char)
  | [] => .error .truncated
  | c :: rest =>
    if c = '"' then .ok rest
    else if c = '\\' then
      match _h : skipEscape rest with
      | .error f => .error f
      | .ok after => skipString after
    else if c.toNat < 0x20 then .error .ungrammatical
    else skipString rest
termination_by s => s.length
decreasing_by
  · have := length_of_skipEscape ‹_›
    simp only [List.length_cons]; omega
  · simp

theorem length_of_skipString {s rest : List Char} (h : skipString s = .ok rest) :
    rest.length < s.length := by
  fun_induction skipString s with
  | case1 => exact nomatch h
  | case2 r =>
    simp only [Except.ok.injEq] at h
    subst h
    simp
  | case3 => exact nomatch h
  | case4 r after he _ ih =>
    have := length_of_skipEscape he
    have := ih h
    simp only [List.length_cons]; omega
  | case5 => exact nomatch h
  | case6 c r _ _ _ ih =>
    have := ih h
    simp only [List.length_cons]; omega

end KvmConsole.Json
