import KvmConsole.Proofs.Json.Locality

/-!
# Texts cut short

What is read of a text that has been written and then cut, wherever the cut falls: inside a word, a
number, an escape or a name, or between them. The draft is that of the tree up to the place where
the text ends, and there it says that the text ended.

Numbers take some care. The first digits of a number are a number as well, and nothing is missing
from it; but an array or object around it is cut all the same.

Key results:
* `Draft.read_begins`: what is read of a beginning of a written value.
* `readText_noticesCuts`: a reader that finds the end of a draft notices where a text is cut.
-/

namespace KvmConsole.Json

/-! ## Beginnings -/

/-- The text begins with `p` and has more behind it. -/
def Begins (p s : List Char) : Prop := ∃ c t, p ++ c :: t = s

section Begins

variable {p s t : List Char} {c : Char}

/-- The empty text has no proper beginning. -/
private theorem not_begins_nil : ¬ Begins p [] := by
  rintro ⟨c, t, h⟩
  exact List.append_ne_nil_of_right_ne_nil p (List.cons_ne_nil c t) h

/-- A beginning is empty, or shares the first character. -/
private theorem Begins.cases_cons (h : Begins p (c :: s)) :
    p = [] ∨ ∃ p', p = c :: p' ∧ Begins p' s := by
  obtain ⟨d, t, h⟩ := h
  cases p with
  | nil => exact .inl rfl
  | cons b p =>
    obtain ⟨rfl, hrest⟩ := List.cons.inj h
    exact .inr ⟨p, rfl, d, t, hrest⟩

/-- A beginning with a character shares it. -/
private theorem Begins.of_cons {b : Char} (h : Begins (b :: p) (c :: s)) : b = c ∧ Begins p s := by
  obtain ⟨d, t, h⟩ := h
  obtain ⟨rfl, hrest⟩ := List.cons.inj h
  exact ⟨rfl, d, t, hrest⟩

/-- A beginning of two texts in a row ends inside the first of them or after it. -/
private theorem Begins.cases_append (h : Begins p (s ++ t)) :
    Begins p s ∨ ∃ p', p = s ++ p' ∧ Begins p' t := by
  obtain ⟨c, u, h⟩ := h
  rcases List.append_eq_append_iff.mp h with ⟨a, rfl, ha⟩ | ⟨a, rfl, ha⟩
  · cases a with
    | nil => exact .inr ⟨[], by simp, c, u, ha⟩
    | cons b a => exact .inl ⟨b, a, rfl⟩
  · exact .inr ⟨a, rfl, c, u, ha.symm⟩

/-- The beginning of a single character is empty. -/
private theorem Begins.eq_nil (h : Begins p [c]) : p = [] :=
  h.cases_cons.resolve_right fun ⟨_, _, hnil⟩ => not_begins_nil hnil

end Begins

/-! ## Strings -/

/-- The number of a control character that lacks digits. -/
private theorem readUnit_begins {n : Nat} (hn : n < 0x20) {p : List Char}
    (h : Begins p ['0', '0', Nat.digitChar (n / 16), Nat.digitChar (n % 16)]) :
    readUnit p = .error .truncated := by
  -- The first two digits are zeros, and the third is a zero or a one.
  have hthree : ∀ d : Fin 2, hasFourBytes ['0', '0', Nat.digitChar d] = false := by decide
  obtain rfl | ⟨p, rfl, h1⟩ := h.cases_cons
  · rfl
  obtain rfl | ⟨p, rfl, h2⟩ := h1.cases_cons
  · rfl
  obtain rfl | ⟨p, rfl, h3⟩ := h2.cases_cons
  · rfl
  obtain rfl := h3.eq_nil
  show Except.error (if hasFourBytes ['0', '0', Nat.digitChar (n / 16)] then _ else _) = _
  rw [hthree ⟨n / 16, by omega⟩]
  rfl

/-- A character of a string that is not all there. -/
private theorem nextPiece_begins {c : Char} {p : List Char} (h : Begins p (writeChar c)) :
    nextPiece p = .broken .truncated ∧ skipString p = .error .truncated := by
  have hnil : nextPiece [] = .broken .truncated ∧ skipString [] = .error .truncated :=
    ⟨rfl, by rw [skipString]⟩
  have hbackslash : nextPiece ['\\'] = .broken .truncated ∧
      skipString ['\\'] = .error .truncated := ⟨rfl, by rw [skipString]; rfl⟩
  rcases writeChar_cases c with ⟨hc, -⟩ | ⟨letter, hc, -⟩ | ⟨hc, hcontrol⟩ <;> rw [hc] at h
  · obtain rfl := h.eq_nil
    exact hnil
  · -- All there is of the escape is the backslash.
    obtain rfl | ⟨p, rfl, hletter⟩ := h.cases_cons
    · exact hnil
    obtain rfl := hletter.eq_nil
    exact hbackslash
  · obtain rfl | ⟨p, rfl, hu⟩ := h.cases_cons
    · exact hnil
    obtain rfl | ⟨p, rfl, hdigits⟩ := hu.cases_cons
    · exact hbackslash
    have hunit := readUnit_begins hcontrol hdigits
    refine ⟨?_, ?_⟩
    · show escapePiece ('u' :: p) = .broken .truncated
      simp only [escapePiece, hunit]
    · have hescape : skipEscape ('u' :: p) = .error .truncated := by simp only [skipEscape, hunit]
      rw [skipString, if_neg (by decide), if_pos rfl]
      split <;> simp_all

/-- The beginning of a string breaks off, decoded or not. -/
private theorem readChars_begins {cs p : List Char} (h : Begins p (cs.flatMap writeChar ++ ['"'])) :
    readChars p = .error .truncated ∧ skipString p = .error .truncated := by
  induction cs generalizing p with
  | nil =>
    obtain rfl := h.eq_nil
    exact ⟨by rw [readChars_eq]; rfl, by rw [skipString]⟩
  | cons c cs ih =>
    rw [List.flatMap_cons, List.append_assoc] at h
    -- The text ends inside the first character, or behind it.
    rcases h.cases_append with hchar | ⟨p, rfl, hrest⟩
    · obtain ⟨hpiece, hskip⟩ := nextPiece_begins hchar
      exact ⟨by rw [readChars_eq, hpiece], hskip⟩
    · obtain ⟨hread, hskip⟩ := ih hrest
      refine ⟨?_, ?_⟩
      · rw [readChars_cons (nextPiece_writeChar c p), hread]
        rfl
      · rw [skipString_writeChar, hskip]

/-- A string without its closing quotation mark. -/
private theorem Draft.readQuoted_begins {s : String} {p : List Char}
    (h : Begins p (s.toList.flatMap writeChar ++ ['"'])) :
    Draft.readQuoted p = (.string (.error .truncated) (.error .truncated), none) := by
  obtain ⟨hread, hskip⟩ := readChars_begins h
  unfold Draft.readQuoted readString
  simp only [hread]
  split <;> simp_all [Except.map]

/-! ## Words -/

/-- The beginning of a word breaks off. -/
private theorem readLetters_begins {word p : List Char} (h : Begins p word) :
    readLetters word p = .error .truncated := by
  induction word generalizing p with
  | nil => exact absurd h not_begins_nil
  | cons c word ih =>
    obtain rfl | ⟨p, rfl, hrest⟩ := h.cases_cons
    · rfl
    · rw [readLetters, if_pos rfl, ih hrest]

/-- The beginning of a word is read as a broken scalar. -/
private theorem Draft.readWord_begins {value : Scalar} {letters p : List Char} {c : Char}
    (h : Begins p letters) :
    Draft.readWord value letters c p =
      (.scalar (.error .truncated) (.error .truncated), none) := by
  have hletters := readLetters_begins h
  unfold Draft.readWord
  split <;> simp_all

/-! ## Numbers -/

/-- The first digits of a number are those of a smaller one. -/
private theorem exists_of_begins_toDigits {n : Nat} {p : List Char}
    (h : Begins p (Nat.toDigits 10 n)) :
    p = [] ∨ ∃ m, 0 < m ∧ m ≤ n ∧ p = Nat.toDigits 10 m := by
  induction n using Nat.strongRecOn generalizing p with
  | ind n ih =>
    rw [Nat.toDigits_eq_if (by decide)] at h
    split at h
    · exact .inl h.eq_nil
    · rcases h.cases_append with hmore | ⟨p, rfl, hlast⟩
      · -- More digits than the last one are missing.
        rcases ih (n / 10) (by omega) hmore with rfl | ⟨m, hpos, hle, rfl⟩
        · exact .inl rfl
        · exact .inr ⟨m, hpos, by omega, rfl⟩
      · obtain rfl := hlast.eq_nil
        exact .inr ⟨n / 10, by omega, by omega, List.append_nil _⟩

/-- The number has the sign of the other one and lies between it and zero. -/
inductive Number.Shortens : Number → Number → Prop where
  | natural {m n : UInt64} (hle : m.toNat ≤ n.toNat) : Shortens (.natural m) (.natural n)
  | negative {m n : Int64} (hneg : m.toInt < 0) (hle : n.toInt ≤ m.toInt) :
    Shortens (.negative m) (.negative n)

/-- A shorter number is an integer, too. -/
private theorem Number.Shortens.isInteger {m n : Number} (h : m.Shortens n) : m.IsInteger := by
  cases h with
  | natural => trivial
  | negative hneg => exact hneg

/-- What is left of an integer that has been cut is nothing, a minus sign or another integer. -/
private theorem exists_of_begins_writeNumber {n : Number} (hn : n.IsInteger) {p : List Char}
    (h : Begins p (writeNumber n)) :
    p = [] ∨ p = ['-'] ∨ ∃ m : Number, m.Shortens n ∧ p = writeNumber m := by
  cases n with
  -- Fewer digits make a smaller number.
  | natural n =>
    rcases exists_of_begins_toDigits h with rfl | ⟨m, -, hle, rfl⟩
    · exact .inl rfl
    · have hvalue : (UInt64.ofNat m).toNat = m :=
        UInt64.toNat_ofNat_of_lt' (Nat.lt_of_le_of_lt hle n.toNat_lt)
      refine .inr (.inr ⟨.natural (.ofNat m), .natural (hvalue.symm ▸ hle), ?_⟩)
      rw [writeNumber, hvalue]
  -- The sign may be there without digits.
  | negative n =>
    have hneg : n.toInt < 0 := hn
    rw [writeNumber_negative hneg] at h
    obtain rfl | ⟨p, rfl, hdigits⟩ := h.cases_cons
    · exact .inl rfl
    rcases exists_of_begins_toDigits hdigits with rfl | ⟨m, hpos, hle, rfl⟩
    · exact .inr (.inl rfl)
    · have hvalue : (Int64.ofInt (-(m : Int))).toInt = -(m : Int) :=
        Int64.toInt_ofInt_of_le (by have := n.le_toInt; omega) (by omega)
      have hshort : (Int64.ofInt (-(m : Int))).toInt < 0 := by omega
      refine .inr (.inr ⟨.negative (.ofInt (-(m : Int))), .negative hshort (by omega), ?_⟩)
      rw [writeNumber_negative hshort, hvalue, Int.natAbs_neg, Int.natAbs_natCast]
  | float x => exact hn.elim

/-! ## Drafts of texts cut short -/

/-- The draft passes for that of the tree: it is the one, or that of a shorter number. -/
inductive Draft.Passes : Json → Draft → Prop where
  | whole (j : Json) : Draft.Passes j (Draft.ofJson j)
  | shorter {m n : Number} (h : m.Shortens n) :
    Draft.Passes (.number n) (Draft.ofJson (.number m))

mutual

/-- The draft is that of the tree up to a place where the text ends. What it holds behind this place
    does not matter. -/
inductive Draft.Cut : Json → Draft → Prop where
  | missing (j : Json) : Draft.Cut j (.broken .truncated)
  | null (lax : Except Fault Unit) : Draft.Cut .null (.scalar (.error .truncated) lax)
  | bool (b : Bool) (lax : Except Fault Unit) :
    Draft.Cut (.bool b) (.scalar (.error .truncated) lax)
  | number (n : Number) (lax : Except Fault Unit) :
    Draft.Cut (.number n) (.scalar (.error .truncated) lax)
  | string (s : String) (lax : Except Fault Unit) :
    Draft.Cut (.string s) (.string (.error .truncated) lax)
  | array {js : List Json} {items : Items} (h : Items.Cut js items) :
    Draft.Cut (.array js) (.array items)
  | object {ms : List (String × Json)} {members : Members} (h : Members.Cut ms members) :
    Draft.Cut (.object ms) (.object members)

inductive Items.Cut : List Json → Items → Prop where
  | missing (js : List Json) (afterComma : Bool) : Items.Cut js (.broken afterComma .truncated)
  | inside {j : Json} {d : Draft} (h : Draft.Cut j d) (js : List Json) (rest : Items) :
    Items.Cut (j :: js) (.item d rest)
  | behind {j : Json} {d : Draft} {js : List Json} {rest : Items} (h : Draft.Passes j d)
      (hrest : Items.Cut js rest) :
    Items.Cut (j :: js) (.item d rest)

inductive Members.Cut : List (String × Json) → Members → Prop where
  | missing (ms : List (String × Json)) (afterComma : Bool) :
    Members.Cut ms (.broken afterComma .truncated)
  | name (m : String × Json) (ms : List (String × Json)) (lax : Except Fault Unit) (d : Draft)
      (rest : Members) :
    Members.Cut (m :: ms) (.member (.string (.error .truncated) lax) d rest)
  | inside (name : String) {j : Json} {d : Draft} (h : Draft.Cut j d) (ms : List (String × Json))
      (lax : Except Fault Unit) (rest : Members) :
    Members.Cut ((name, j) :: ms) (.member (.string (.ok name) lax) d rest)
  | behind (name : String) {j : Json} {d : Draft} {ms : List (String × Json)} {rest : Members}
      (lax : Except Fault Unit) (h : Draft.Passes j d) (hrest : Members.Cut ms rest) :
    Members.Cut ((name, j) :: ms) (.member (.string (.ok name) lax) d rest)

end

/-! ### Where the readers break off -/

section BreaksOff

variable {s t : List Char} {d : Draft}

/-- Nothing is read off an empty text. -/
private theorem Draft.read_nil : Draft.read [] = (.broken .truncated, none) := by
  rw [Draft.read]
  rfl

/-- A word that breaks off is a broken scalar. -/
private theorem Draft.read_word {c : Char} {letters : List Char} {value : Scalar}
    (hword : (c, letters, value) ∈ words) (h : skipBlanks s = c :: t) (ht : Begins t letters) :
    Draft.read s = (.scalar (.error .truncated) (.error .truncated), none) := by
  rw [Draft.read]
  refine (match_skipBlanks h _ _).trans ?_
  simp only [words, List.mem_cons, Prod.mk.injEq, List.not_mem_nil, or_false] at hword
  rcases hword with ⟨rfl, rfl, rfl⟩ | ⟨rfl, rfl, rfl⟩ | ⟨rfl, rfl, rfl⟩ <;>
    · simp only [Char.reduceEq, if_false, if_true, Draft.readWord_begins ht]
      rfl

/-- A minus sign alone is taken for a number that lacks its digits, unless it is passed over. -/
private theorem Draft.read_minus (h : skipBlanks s = ['-']) :
    Draft.read s = (.scalar (.error .truncated) (.error .ungrammatical), none) := by
  rw [Draft.read]
  refine (match_skipBlanks h _ _).trans ?_
  simp only [Char.reduceEq, if_false, true_or, if_true]
  rfl

/-- A string that breaks off is a broken string. -/
private theorem Draft.read_quoted (h : skipBlanks s = '"' :: t)
    (ht : Draft.readQuoted t = (d, none)) :
    Draft.read s = (d, none) := by
  rw [Draft.read]
  refine (match_skipBlanks h _ _).trans ?_
  rw [if_pos rfl, ht]
  rfl

/-- An array breaks off with its items. -/
private theorem Draft.read_array {items : Items} (h : skipBlanks s = '[' :: t)
    (ht : Items.read true t = (items, none)) : Draft.read s = (.array items, none) := by
  rw [Draft.read]
  refine (match_skipBlanks h _ _).trans ?_
  rw [if_neg (by decide), if_pos rfl, ht]
  rfl

/-- An object breaks off with its members. -/
theorem Draft.read_object {members : Members} (h : skipBlanks s = '\x7b' :: t)
    (ht : Members.read true t = (members, none)) : Draft.read s = (.object members, none) := by
  rw [Draft.read]
  refine (match_skipBlanks h _ _).trans ?_
  rw [if_neg (by decide), if_neg (by decide), if_pos rfl, ht]
  rfl

/-- Items may break off where one would begin. -/
private theorem Items.read_nil (first : Bool) :
    Items.read first [] = (.broken false .truncated, none) := by
  rw [Items.read]
  rfl

/-- Items may break off behind a comma. -/
private theorem Items.read_comma : Items.read false [','] = (.broken true .truncated, none) := by
  rw [Items.read]
  rfl

/-- Items may break off within one. -/
private theorem Items.read_inside {c : Char} (h : skipBlanks s = c :: t) (hc : c ≠ ']')
    (hvalue : Draft.read s = (d, none)) :
    Items.read true s = (.item d (.broken false .ungrammatical), none) := by
  rw [Items.read]
  refine (match_skipBlanks h _ _).trans ?_
  rw [if_neg hc, if_pos rfl, hvalue]

/-- Items may break off behind one. -/
private theorem Items.read_behind {items : Items} (hvalue : Draft.Reads s d t)
    (hitems : Items.read false t = (items, none)) :
    Items.read true s = (.item d items, none) := by
  obtain ⟨c, u, h, hc⟩ := hvalue.exists_head
  obtain ⟨hlt, hread⟩ := hvalue
  rw [Items.read]
  refine (match_skipBlanks h _ _).trans ?_
  rw [if_neg hc, if_pos rfl, hread]
  simp only [hitems]
  rfl

/-- After a comma the items break off as the first ones of an array do. -/
private theorem Items.read_next {u : List Char} {c : Char} (h : skipBlanks s = ',' :: t)
    (ht : skipBlanks t = c :: u) (hc : c ≠ ']') {items : Items}
    (hitems : Items.read true t = (items, none)) : Items.read false s = (items, none) := by
  -- Both readers come to the same value, one of them through the comma.
  rw [Items.read] at hitems ⊢
  replace hitems := (match_skipBlanks ht _ _).symm.trans hitems
  refine (match_skipBlanks h _ _).trans ?_
  rw [if_neg hc, if_pos rfl] at hitems
  rw [if_neg (by decide), if_neg (by decide), if_pos rfl, ht]
  simp only [if_neg hc]
  rcases hread : Draft.read t with ⟨d, _ | r⟩
  · rw [hread] at hitems
    obtain ⟨rfl, -⟩ := Prod.mk.inj hitems
    rfl
  · rw [hread] at hitems
    obtain ⟨items, hrest, rfl⟩ := exists_of_weaken_none hitems
    simp only [hrest]
    rfl

/-- Members may break off where one would begin. -/
private theorem Members.read_nil (first : Bool) :
    Members.read first [] = (.broken false .truncated, none) := by
  rw [Members.read]
  rfl

/-- Members may break off behind a comma. -/
private theorem Members.read_comma :
    Members.read false [','] = (.broken true .truncated, none) := by
  rw [Members.read]
  rfl

variable {members : Members}

/-- Members may break off within the first one. -/
private theorem Members.read_first (h : skipBlanks s = '"' :: t)
    (ht : Members.readMember t = (members, none)) : Members.read true s = (members, none) := by
  rw [Members.read]
  refine (match_skipBlanks h _ _).trans ?_
  rw [if_neg (by decide), if_pos rfl, if_pos rfl, ht]
  rfl

/-- Members may break off within a later one. -/
private theorem Members.read_next {u : List Char} (h : skipBlanks s = ',' :: t)
    (hquote : skipBlanks t = '"' :: u) (hu : Members.readMember u = (members, none)) :
    Members.read false s = (members, none) := by
  rw [Members.read]
  refine (match_skipBlanks h _ _).trans ?_
  rw [if_neg (by decide), if_neg (by decide), if_pos rfl]
  refine (match_skipBlanks hquote _ _).trans ?_
  rw [if_pos rfl, hu]
  rfl

/-- A member may break off within its name. -/
private theorem Members.readMember_name (h : Draft.readQuoted s = (d, none)) :
    Members.readMember s =
      (.member d (.broken .ungrammatical) (.broken false .ungrammatical), none) := by
  rw [Members.readMember, h]

/-- A member may break off behind its name. -/
private theorem Members.readMember_end (hskip : skipString s = .ok []) :
    Members.readMember s =
      (.member (.string ((readString s).map (·.1)) (.ok ())) (.broken .truncated)
        (.broken false .ungrammatical), none) := by
  obtain ⟨hlt, hname⟩ := Draft.readQuoted_eq hskip
  rw [Members.readMember, hname]
  rfl

/-- A member may break off within its value. -/
private theorem Members.readMember_inside {u : List Char} (hskip : skipString s = .ok t)
    (hcolon : skipBlanks t = ':' :: u) (hvalue : Draft.read u = (d, none)) :
    Members.readMember s =
      (.member (.string ((readString s).map (·.1)) (.ok ())) d (.broken false .ungrammatical),
        none) := by
  obtain ⟨hlt, hname⟩ := Draft.readQuoted_eq hskip
  rw [Members.readMember, hname]
  dsimp only
  refine (match_skipBlanks hcolon _ _).trans ?_
  rw [if_pos rfl, hvalue]

/-- A member may be followed by members that break off. -/
private theorem Members.readMember_behind {u v : List Char} (hskip : skipString s = .ok t)
    (hcolon : skipBlanks t = ':' :: u) (hvalue : Draft.Reads u d v)
    (hmembers : Members.read false v = (members, none)) :
    Members.readMember s =
      (.member (.string ((readString s).map (·.1)) (.ok ())) d members, none) := by
  obtain ⟨hlt, hname⟩ := Draft.readQuoted_eq hskip
  obtain ⟨hlt', hvalue⟩ := hvalue
  rw [Members.readMember, hname]
  dsimp only
  refine (match_skipBlanks hcolon _ _).trans ?_
  rw [if_pos rfl, hvalue]
  simp only [hmembers]
  rfl

end BreaksOff

/-! ### Texts that have been written -/

/-- What ends a number begins by ending it. -/
private theorem EndsNumber.of_begins {p s : List Char} (hs : EndsNumber s) (h : Begins p s) :
    EndsNumber p := by
  cases p with
  | nil => trivial
  | cons c p =>
    obtain ⟨d, t, rfl⟩ := h
    exact hs

/-- The text of a value starts with neither a blank nor a closing bracket. -/
private theorem exists_writeValue_eq_cons {j : Json} (hj : j.IsIntegral) :
    ∃ c t, writeValue j = c :: t ∧ (∀ u, skipBlanks (c :: u) = c :: u) ∧ c ≠ ']' := by
  cases j with
  | number n =>
    obtain ⟨c, t, htext, hc⟩ := exists_writeNumber_eq_cons hj
    refine ⟨c, t, htext, skipBlanks_of_startsNumber hc, ?_⟩
    rintro rfl
    exact absurd hc (by decide)
  | bool b => cases b <;> exact ⟨_, _, rfl, fun _ => rfl, by decide⟩
  | null | string _ | array _ | object _ => exact ⟨_, _, rfl, fun _ => rfl, by decide⟩

/-- Behind an item something is written. -/
private theorem writeItems_ne_nil (js : List Json) : writeItems false js ≠ [] := by
  cases js <;> exact List.cons_ne_nil _ _

/-- Behind a member something is written. -/
private theorem writeMembers_ne_nil (ms : List (String × Json)) : writeMembers false ms ≠ [] := by
  cases ms <;> exact List.cons_ne_nil _ _

/-- A value that has been cut, or a value with a text behind it that has been cut: the first case
    for `Draft.read` of a beginning of both. -/
private theorem Draft.read_begins_append {j : Json} (hj : j.IsIntegral) {p after : List Char}
    (hcut : ∀ {p}, Begins p (writeValue j) →
      (∃ d, Draft.read p = (d, none) ∧ Draft.Cut j d) ∨
        ∃ m n : Number, j = .number n ∧ m.Shortens n ∧ p = writeNumber m)
    (hafter : EndsNumber after) (hne : after ≠ []) (h : Begins p (writeValue j ++ after)) :
    (∃ d, Draft.read p = (d, none) ∧ Draft.Cut j d) ∨
      ∃ d rest, Draft.Reads p d rest ∧ Draft.Passes j d ∧ Begins rest after := by
  rcases h.cases_append with hvalue | ⟨rest, rfl, hrest⟩
  · rcases hcut hvalue with hbreaks | ⟨m, n, rfl, hshort, rfl⟩
    · exact .inl hbreaks
    · -- The number that is left is complete, and the text ends behind it.
      have hreads : Draft.Reads (writeValue (.number m) ++ []) (Draft.ofJson (.number m)) [] :=
        Draft.reads_writeValue (.number m) hshort.isInteger trivial
      rw [List.append_nil] at hreads
      obtain ⟨c, t, rfl⟩ := List.exists_cons_of_ne_nil hne
      exact .inr ⟨_, [], hreads, .shorter hshort, c, t, rfl⟩
  · exact .inr ⟨_, rest, Draft.reads_writeValue j hj (hafter.of_begins hrest), .whole j, hrest⟩

mutual

/-- The text of a value that has been cut breaks off, or it is that of a shorter number. -/
theorem Draft.read_begins (j : Json) (hj : j.IsIntegral) {p : List Char}
    (h : Begins p (writeValue j)) :
    (∃ d, Draft.read p = (d, none) ∧ Draft.Cut j d) ∨
      ∃ m n : Number, j = .number n ∧ m.Shortens n ∧ p = writeNumber m := by
  cases p with
  | nil => exact .inl ⟨_, Draft.read_nil, .missing j⟩
  | cons c p =>
  match j with
  | .null =>
    obtain ⟨rfl, hword⟩ := h.of_cons
    have hmem : ('n', ['u', 'l', 'l'], Scalar.null) ∈ words := by decide
    exact .inl ⟨_, Draft.read_word hmem rfl hword, .null _⟩
  | .bool true =>
    obtain ⟨rfl, hword⟩ := h.of_cons
    have hmem : ('t', ['r', 'u', 'e'], Scalar.bool true) ∈ words := by decide
    exact .inl ⟨_, Draft.read_word hmem rfl hword, .bool _ _⟩
  | .bool false =>
    obtain ⟨rfl, hword⟩ := h.of_cons
    have hmem : ('f', ['a', 'l', 's', 'e'], Scalar.bool false) ∈ words := by decide
    exact .inl ⟨_, Draft.read_word hmem rfl hword, .bool _ _⟩
  | .number n =>
    -- The beginning of a number may be a number, and nothing tells that it is not the whole.
    rcases exists_of_begins_writeNumber hj h with hnil | hminus | ⟨m, hshort, hm⟩
    · cases hnil
    · rw [hminus]
      exact .inl ⟨_, Draft.read_minus rfl, .number _ _⟩
    · exact .inr ⟨m, n, rfl, hshort, hm⟩
  | .string s =>
    obtain ⟨rfl, hchars⟩ := h.of_cons
    exact .inl ⟨_, Draft.read_quoted rfl (Draft.readQuoted_begins hchars), .string _ _⟩
  | .array js =>
    obtain ⟨rfl, hjs⟩ := h.of_cons
    obtain ⟨items, hitems, hcut⟩ := Items.read_begins true js hj hjs
    exact .inl ⟨_, Draft.read_array rfl hitems, .array hcut⟩
  | .object ms =>
    obtain ⟨rfl, hms⟩ := h.of_cons
    obtain ⟨members, hmembers, hcut⟩ := Members.read_begins true ms hj hms
    exact .inl ⟨_, Draft.read_object rfl hmembers, .object hcut⟩

/-- The beginning of written items is read as items cut short. -/
theorem Items.read_begins (first : Bool) (js : List Json) (hjs : AreIntegral js) {p : List Char}
    (h : Begins p (writeItems first js)) :
    ∃ items, Items.read first p = (items, none) ∧ Items.Cut js items := by
  cases p with
  | nil => exact ⟨_, Items.read_nil first, .missing _ _⟩
  | cons c p =>
  match js with
  | [] => exact absurd h.of_cons.2 not_begins_nil
  | j :: js =>
    obtain ⟨b, t, htext, hblank, hb⟩ := exists_writeValue_eq_cons hjs.1
    have hends : EndsNumber (writeItems false js) := by simpa using endsNumber_writeItems js []
    -- An item that has begun, and what is behind it.
    have hitem {c : Char} {p : List Char}
        (h : Begins (c :: p) (writeValue j ++ writeItems false js)) :
        skipBlanks (c :: p) = c :: p ∧ c ≠ ']' ∧
          ∃ items, Items.read true (c :: p) = (items, none) ∧ Items.Cut (j :: js) items := by
      obtain rfl : c = b := by
        rw [htext] at h
        exact h.of_cons.1
      refine ⟨hblank p, hb, ?_⟩
      rcases Draft.read_begins_append hjs.1 (Draft.read_begins j hjs.1)
        hends (writeItems_ne_nil js) h with
        ⟨d, hread, hcut⟩ | ⟨d, rest, hreads, hpasses, hrest⟩
      · exact ⟨_, Items.read_inside (hblank p) hb hread, .inside hcut _ _⟩
      · obtain ⟨items, hitems, hcut⟩ := Items.read_begins false js hjs.2 hrest
        exact ⟨_, Items.read_behind hreads hitems, .behind hpasses hcut⟩
    -- Any item but the first has a comma before it.
    cases first with
    | true => exact (hitem h).2.2
    | false =>
      obtain ⟨rfl, hcomma⟩ := h.of_cons
      cases p with
      | nil => exact ⟨_, Items.read_comma, .missing _ _⟩
      | cons c p =>
        obtain ⟨hskip, hc, items, hitems, hcut⟩ := hitem hcomma
        exact ⟨items, Items.read_next rfl hskip hc hitems, hcut⟩

/-- The beginning of written members is read as members cut short. -/
theorem Members.read_begins (first : Bool) (ms : List (String × Json)) (hms : MembersIntegral ms)
    {p : List Char} (h : Begins p (writeMembers first ms)) :
    ∃ members, Members.read first p = (members, none) ∧ Members.Cut ms members := by
  cases p with
  | nil => exact ⟨_, Members.read_nil first, .missing _ _⟩
  | cons c p =>
  match ms with
  | [] => exact absurd h.of_cons.2 not_begins_nil
  | (name, value) :: ms =>
    have hends : EndsNumber (writeMembers false ms) := by simpa using endsNumber_writeMembers ms []
    -- A member whose name has begun, and what is behind it.
    have hmember {p : List Char} (h : Begins p (name.toList.flatMap writeChar ++ ['"'] ++
        ':' :: (writeValue value ++ writeMembers false ms))) :
        ∃ members, Members.readMember p = (members, none) ∧
          Members.Cut ((name, value) :: ms) members := by
      rcases h.cases_append with hname | ⟨p, rfl, hcolon⟩
      · exact ⟨_, Members.readMember_name (Draft.readQuoted_begins hname), .name _ _ _ _ _⟩
      rw [List.append_assoc, List.singleton_append]
      have hskip := skipString_writeString name p
      cases p with
      | nil =>
        have hend := Members.readMember_end hskip
        rw [readString_writeString] at hend
        exact ⟨_, hend, .inside name (.missing value) _ _ _⟩
      | cons c p =>
        obtain ⟨rfl, hvalue⟩ := hcolon.of_cons
        rcases Draft.read_begins_append hms.1 (Draft.read_begins value hms.1)
          hends (writeMembers_ne_nil ms) hvalue with
          ⟨d, hread, hcut⟩ | ⟨d, rest, hreads, hpasses, hrest⟩
        · have hinside := Members.readMember_inside hskip rfl hread
          rw [readString_writeString] at hinside
          exact ⟨_, hinside, .inside name hcut _ _ _⟩
        · obtain ⟨members, hmembers, hcut⟩ := Members.read_begins false ms hms.2 hrest
          have hbehind := Members.readMember_behind hskip rfl hreads hmembers
          rw [readString_writeString] at hbehind
          exact ⟨_, hbehind, .behind name _ hpasses hcut⟩
    -- Any member but the first has a comma before it.
    cases first with
    | true =>
      obtain ⟨rfl, hquote⟩ := h.of_cons
      obtain ⟨members, hmembers, hcut⟩ := hmember (by simpa using hquote)
      exact ⟨members, Members.read_first rfl hmembers, hcut⟩
    | false =>
      obtain ⟨rfl, hcomma⟩ := h.of_cons
      cases p with
      | nil => exact ⟨_, Members.read_comma, .missing _ _⟩
      | cons c p =>
        obtain ⟨rfl, hquote⟩ := hcomma.of_cons
        obtain ⟨members, hmembers, hcut⟩ := hmember (by simpa using hquote)
        exact ⟨members, Members.read_next rfl rfl hmembers, hcut⟩

end

/-! ## Decoding texts cut short -/

/-- Every text that stops short of the end of this one is refused because it ends too early. -/
def NoticesCuts {α : Type} (read : String → Except Fault α) (text : String) : Prop :=
  ∀ p q : String, p ++ q = text → q ≠ "" → read p = .error .truncated

/-- Of all beginnings of the text only the whole text can be read. -/
theorem NoticesCuts.eq_of_ok {α : Type} {read : String → Except Fault α} {text p q : String}
    (hcuts : NoticesCuts read text) (h : p ++ q = text) {a : α} (hp : read p = .ok a) :
    p = text := by
  by_cases hq : q = ""
  · rw [← h, hq, String.append_empty]
  · cases (hcuts p q h hq).symm.trans hp

/-- A text without its end is a beginning of it. -/
private theorem begins_of_append {p q text : String} (h : p ++ q = text) (hq : q ≠ "") :
    Begins p.toList text.toList := by
  obtain ⟨c, t, htext⟩ := List.exists_cons_of_ne_nil (mt String.toList_eq_nil_iff.mp hq)
  exact ⟨c, t, by rw [← h, String.toList_append, htext]⟩

/-- A reader that finds the place where a draft ends notices where the text of the tree is cut. A
    number by itself is left out: its first digits are a number too. -/
theorem readText_noticesCuts {α : Type} {decode : Draft → Except Fault α} {j : Json}
    (hj : j.IsIntegral) (hnumber : ∀ n, j ≠ .number n)
    (hdecode : ∀ d, Draft.Cut j d → decode d = .error .truncated) :
    NoticesCuts (readText decode) j.write := by
  intro p q h hq
  have hbegins := begins_of_append h hq
  rw [toList_write] at hbegins
  rcases Draft.read_begins j hj hbegins with ⟨d, hread, hcut⟩ | ⟨m, n, hn, -⟩
  · simp only [readText, hread, hdecode d hcut]
    rfl
  · exact absurd hn (hnumber n)

/-- What passes for the draft of a tree has a tree, if there is room. -/
theorem Draft.Passes.exists_toJson {j : Json} {d : Draft} (h : Draft.Passes j d) {room : Nat}
    (hroom : j.depth ≤ room) : ∃ j', d.toJson room = .ok j' := by
  cases h with
  | whole => exact ⟨j, Draft.toJson_ofJson j hroom⟩
  | shorter => exact ⟨_, rfl⟩

mutual

/-- The tree of a draft that has been cut is sought up to the place where the text ends. -/
theorem Draft.Cut.toJson_eq {j : Json} {d : Draft} (h : Draft.Cut j d) {room : Nat}
    (hroom : j.depth ≤ room) : d.toJson room = .error .truncated := by
  match h, room with
  | .missing _, _ | .null _, _ | .bool _ _, _ | .number _ _, _ | .string _ _, _ => rfl
  | .array _, 0 | .object _, 0 => cases hroom
  | .array hitems, room + 1 =>
    rw [Draft.toJson, hitems.toJson_eq (Nat.le_of_succ_le_succ hroom)]
    rfl
  | .object hmembers, room + 1 =>
    rw [Draft.toJson, hmembers.toJson_eq (Nat.le_of_succ_le_succ hroom)]
    rfl

/-- Items cut short have no trees. -/
theorem Items.Cut.toJson_eq {js : List Json} {items : Items} (h : Items.Cut js items) {room : Nat}
    (hroom : depthOfItems js ≤ room) : items.toJson room = .error .truncated := by
  match h with
  | .missing _ _ => rfl
  | .inside hcut _ _ =>
    rw [Items.toJson, hcut.toJson_eq (Nat.max_le.mp hroom).1]
    rfl
  | .behind hpasses hrest =>
    obtain ⟨j', hj'⟩ := hpasses.exists_toJson (Nat.max_le.mp hroom).1
    rw [Items.toJson, hj', hrest.toJson_eq (Nat.max_le.mp hroom).2]
    rfl

/-- Members cut short have no trees. -/
theorem Members.Cut.toJson_eq {ms : List (String × Json)} {members : Members}
    (h : Members.Cut ms members) {room : Nat} (hroom : depthOfMembers ms ≤ room) :
    members.toJson room = .error .truncated := by
  match h with
  | .missing _ _ | .name _ _ _ _ _ => rfl
  | .inside _ hcut _ _ _ =>
    rw [Members.toJson, hcut.toJson_eq (Nat.max_le.mp hroom).1]
    rfl
  | .behind _ _ hpasses hrest =>
    obtain ⟨j', hj'⟩ := hpasses.exists_toJson (Nat.max_le.mp hroom).1
    rw [Members.toJson, hj', hrest.toJson_eq (Nat.max_le.mp hroom).2]
    rfl

end

end KvmConsole.Json
