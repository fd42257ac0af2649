import KvmConsole.Proofs.Json.Numerals
import KvmConsole.Proofs.Json.Strings
import KvmConsole.Json.Draft

/-!
# Values read back

The compact text of a tree has no blanks, and every value in it is followed by a comma or a closing
bracket. So each value is read up to where it was written, and the draft of the text is the tree
with nothing broken in it. All numbers have to be integers: those alone are written exactly.

Key results:
* `Draft.reads_writeValue`: the draft of a value that has been written.
* `readText_write`: decoding a text that has been written is decoding the draft of its tree.
* `parse_write`: a tree reads back, if it does not nest too deeply.
-/

namespace KvmConsole

namespace Json

/-! ## Drafts of trees -/

mutual

/-- The draft in which a tree can be read to its end. -/
def Draft.ofJson : Json → Draft
  | .null => .scalar (.ok .null) (.ok ())
  | .bool b => .scalar (.ok (.bool b)) (.ok ())
  | .number n => .scalar (.ok (.number n)) (.ok ())
  | .string s => .string (.ok s) (.ok ())
  | .array items => .array (Items.ofJson items)
  | .object members => .object (Members.ofJson members)

def Items.ofJson : List Json → Items
  | [] => .close
  | j :: rest => .item (Draft.ofJson j) (Items.ofJson rest)

def Members.ofJson : List (String × Json) → Members
  | [] => .close
  | (name, value) :: rest =>
    .member (.string (.ok name) (.ok ())) (Draft.ofJson value) (Members.ofJson rest)

end

mutual

/-- Every number of the tree is an integer. -/
def IsIntegral : Json → Prop
  | .number n => n.IsInteger
  | .array items => AreIntegral items
  | .object members => MembersIntegral members
  | .null | .bool _ | .string _ => True

def AreIntegral : List Json → Prop
  | [] => True
  | j :: rest => j.IsIntegral ∧ AreIntegral rest

def MembersIntegral : List (String × Json) → Prop
  | [] => True
  | (_, value) :: rest => value.IsIntegral ∧ MembersIntegral rest

end

/-! ## What a reader takes

Each of the four readers, when it finds its part of the text complete. The rules below follow the
branches that read something; blanks may stand wherever a reader drops them. -/

def Draft.Reads (s : List Char) (d : Draft) (rest : List Char) : Prop :=
  ∃ h, Draft.read s = (d, some ⟨rest, h⟩)

def Items.Reads (first : Bool) (s : List Char) (items : Items) (rest : List Char) : Prop :=
  ∃ h, Items.read first s = (items, some ⟨rest, h⟩)

def Members.Reads (first : Bool) (s : List Char) (members : Members) (rest : List Char) : Prop :=
  ∃ h, Members.read first s = (members, some ⟨rest, h⟩)

def Members.ReadsMember (s : List Char) (members : Members) (rest : List Char) : Prop :=
  ∃ h, Members.readMember s = (members, some ⟨rest, h⟩)

/-- Each reader looks at the first character that is no blank; this is its branch for one. -/
theorem match_skipBlanks {β : Type} {s : List Char} {c : Char} {t : List Char}
    (h : skipBlanks s = c :: t) (nil : skipBlanks s = [] → β)
    (cons : (c : Char) → (t : List Char) → skipBlanks s = c :: t → β) :
    (match h : skipBlanks s with
      | [] => nil h
      | c :: t => cons c t h) = cons c t h := by
  split
  · rename_i heq; rw [h] at heq; cases heq
  · rename_i heq
    obtain ⟨rfl, rfl⟩ := List.cons.inj (h.symm.trans heq)
    rfl

/-! ### Leaves -/

/-- The letters of a word are read off a text that starts with them. -/
theorem readLetters_append (word rest : List Char) :
    readLetters word (word ++ rest) = .ok rest := by
  induction word with
  | nil => rfl
  | cons c word ih => rw [List.cons_append, readLetters, if_pos rfl, ih]

/-- A word is read off a text that starts with it. -/
private theorem Draft.readWord_append (value : Scalar) (letters : List Char) (c : Char)
    (rest : List Char) :
    ∃ h, Draft.readWord value letters c (letters ++ rest) =
      (.scalar (.ok value) (.ok ()), some ⟨rest, h⟩) := by
  have hletters := readLetters_append letters rest
  refine ⟨length_lt_of_readLetters c hletters, ?_⟩
  unfold Draft.readWord
  split
  · rename_i heq; rw [hletters] at heq; cases heq
  · rename_i heq
    rw [hletters] at heq
    obtain rfl := Except.ok.inj heq
    rfl

/-- A numeral is read as the draft of its value. -/
private theorem Draft.readNumber_eq {s rest : List Char} {parts : Numeral}
    (hread : readNumeral s = .ok (parts, rest)) :
    ∃ h, Draft.readNumber s = (.scalar (parts.value.map .number) (.ok ()), some ⟨rest, h⟩) := by
  refine ⟨length_of_readNumeral hread, ?_⟩
  unfold Draft.readNumber
  split
  · rename_i heq; rw [hread] at heq; cases heq
  · rename_i heq
    rw [hread] at heq
    obtain ⟨rfl, rfl⟩ := Prod.mk.inj (Except.ok.inj heq)
    rfl

/-- A string is read as the draft of its characters. -/
theorem Draft.readQuoted_eq {s rest : List Char} (hskip : skipString s = .ok rest) :
    ∃ h, Draft.readQuoted s =
      (.string ((readString s).map (·.1)) (.ok ()), some ⟨rest, h⟩) := by
  refine ⟨length_of_skipString hskip, ?_⟩
  unfold Draft.readQuoted
  split
  · rename_i heq; rw [hskip] at heq; cases heq
  · rename_i heq
    rw [hskip] at heq
    obtain rfl := Except.ok.inj heq
    rfl

/-! ### Values -/

/-- The three words, each with its first letter and the others. -/
def words : List (Char × List Char × Scalar) :=
  [('n', ['u', 'l', 'l'], .null), ('t', ['r', 'u', 'e'], .bool true),
    ('f', ['a', 'l', 's', 'e'], .bool false)]

/-- A word is read behind blanks. -/
theorem Draft.reads_word {c : Char} {letters s rest : List Char} {value : Scalar}
    (hword : (c, letters, value) ∈ words) (h : skipBlanks s = c :: (letters ++ rest)) :
    Draft.Reads s (.scalar (.ok value) (.ok ())) rest := by
  obtain ⟨hlt, hread⟩ := Draft.readWord_append value letters c rest
  have hle : (c :: (letters ++ rest)).length ≤ s.length := h ▸ length_skipBlanks_le s
  refine ⟨Nat.lt_of_lt_of_le hlt hle, ?_⟩
  rw [Draft.read]
  refine (match_skipBlanks h _ _).trans ?_
  simp only [words, List.mem_cons, Prod.mk.injEq, List.not_mem_nil, or_false] at hword
  rcases hword with ⟨rfl, rfl, rfl⟩ | ⟨rfl, rfl, rfl⟩ | ⟨rfl, rfl, rfl⟩ <;>
    · simp only [Char.reduceEq, if_false, if_true, hread]
      rfl

/-- A number is read behind blanks. -/
theorem Draft.reads_number {c : Char} {s t rest : List Char} {parts : Numeral}
    (h : skipBlanks s = c :: t) (hc : c = '-' ∨ c.isDigit)
    (hread : readNumeral (c :: t) = .ok (parts, rest)) :
    Draft.Reads s (.scalar (parts.value.map .number) (.ok ())) rest := by
  obtain ⟨hlt, hnumber⟩ := Draft.readNumber_eq hread
  have hle : (c :: t).length ≤ s.length := h ▸ length_skipBlanks_le s
  -- None of the other values starts with such a character.
  have hother : ∀ b, b.isDigit = false → b ≠ '-' → c ≠ b := by
    rintro b hb hminus rfl
    rcases hc with hc | hc
    · exact hminus hc
    · rw [hb] at hc; cases hc
  refine ⟨Nat.lt_of_lt_of_le hlt hle, ?_⟩
  rw [Draft.read]
  refine (match_skipBlanks h _ _).trans ?_
  rw [if_neg (hother _ rfl (by decide)), if_neg (hother _ rfl (by decide)),
    if_neg (hother _ rfl (by decide)), if_neg (hother _ rfl (by decide)),
    if_neg (hother _ rfl (by decide)), if_neg (hother _ rfl (by decide)), if_pos hc, hnumber]
  rfl

/-- A string is read behind blanks. -/
theorem Draft.reads_string {s t rest : List Char} (h : skipBlanks s = '"' :: t)
    (hskip : skipString t = .ok rest) :
    Draft.Reads s (.string ((readString t).map (·.1)) (.ok ())) rest := by
  obtain ⟨hlt, hquoted⟩ := Draft.readQuoted_eq hskip
  refine ⟨Nat.lt_trans hlt (length_lt_of_skipBlanks h), ?_⟩
  rw [Draft.read]
  refine (match_skipBlanks h _ _).trans ?_
  rw [if_pos rfl, hquoted]
  rfl

/-- An array is read behind blanks and its bracket. -/
theorem Draft.reads_array {s t rest : List Char} {items : Items} (h : skipBlanks s = '[' :: t)
    (hitems : Items.Reads true t items rest) : Draft.Reads s (.array items) rest := by
  obtain ⟨hlt, hitems⟩ := hitems
  refine ⟨Nat.lt_trans hlt (length_lt_of_skipBlanks h), ?_⟩
  rw [Draft.read]
  refine (match_skipBlanks h _ _).trans ?_
  rw [if_neg (by decide), if_pos rfl, hitems]
  rfl

/-- An object is read behind blanks and its brace. -/
theorem Draft.reads_object {s t rest : List Char} {members : Members}
    (h : skipBlanks s = '\x7b' :: t) (hmembers : Members.Reads true t members rest) :
    Draft.Reads s (.object members) rest := by
  obtain ⟨hlt, hmembers⟩ := hmembers
  refine ⟨Nat.lt_trans hlt (length_lt_of_skipBlanks h), ?_⟩
  rw [Draft.read]
  refine (match_skipBlanks h _ _).trans ?_
  rw [if_neg (by decide), if_neg (by decide), if_pos rfl, hmembers]
  rfl

/-- No value starts with a closing bracket. -/
theorem Draft.Reads.exists_head {s rest : List Char} {d : Draft} (h : Draft.Reads s d rest) :
    ∃ c t, skipBlanks s = c :: t ∧ c ≠ ']' := by
  obtain ⟨hlt, hread⟩ := h
  rw [Draft.read] at hread
  split at hread
  · cases hread
  · rename_i c t heq
    refine ⟨c, t, heq, ?_⟩
    rintro rfl
    simp [Char.isDigit] at hread

/-! ### Arrays -/

/-- The closing bracket ends an array. -/
theorem Items.reads_close {s rest : List Char} (first : Bool) (h : skipBlanks s = ']' :: rest) :
    Items.Reads first s .close rest := by
  refine ⟨length_lt_of_skipBlanks h, ?_⟩
  rw [Items.read]
  refine (match_skipBlanks h _ _).trans ?_
  rw [if_pos rfl]

/-- The first item stands behind the bracket. -/
theorem Items.reads_first {s t rest : List Char} {d : Draft} {items : Items}
    (hvalue : Draft.Reads s d t) (hitems : Items.Reads false t items rest) :
    Items.Reads true s (.item d items) rest := by
  obtain ⟨c, u, hskip, hc⟩ := hvalue.exists_head
  obtain ⟨hlt, hvalue⟩ := hvalue
  obtain ⟨hlt', hitems⟩ := hitems
  refine ⟨Nat.lt_trans hlt' hlt, ?_⟩
  rw [Items.read]
  refine (match_skipBlanks hskip _ _).trans ?_
  rw [if_neg hc, if_pos rfl, hvalue]
  simp only [hitems]
  rfl

/-- Any other item stands behind a comma. -/
theorem Items.reads_next {s t u rest : List Char} {d : Draft} {items : Items}
    (h : skipBlanks s = ',' :: t) (hvalue : Draft.Reads t d u)
    (hitems : Items.Reads false u items rest) : Items.Reads false s (.item d items) rest := by
  obtain ⟨b, v, hskip, hb⟩ := hvalue.exists_head
  obtain ⟨hlt, hvalue⟩ := hvalue
  obtain ⟨hlt', hitems⟩ := hitems
  refine ⟨Nat.lt_trans (Nat.lt_trans hlt' hlt) (length_lt_of_skipBlanks h), ?_⟩
  rw [Items.read]
  refine (match_skipBlanks h _ _).trans ?_
  rw [if_neg (by decide), if_neg (by decide), if_pos rfl, hskip]
  simp only [if_neg hb, hvalue, hitems]
  rfl

/-! ### Objects -/

/-- The closing brace ends an object. -/
theorem Members.reads_close {s rest : List Char} (first : Bool)
    (h : skipBlanks s = '\x7d' :: rest) : Members.Reads first s .close rest := by
  refine ⟨length_lt_of_skipBlanks h, ?_⟩
  rw [Members.read]
  refine (match_skipBlanks h _ _).trans ?_
  rw [if_pos rfl]

/-- The first member stands behind the brace. -/
theorem Members.reads_first {s t rest : List Char} {members : Members}
    (h : skipBlanks s = '"' :: t) (hmember : Members.ReadsMember t members rest) :
    Members.Reads true s members rest := by
  obtain ⟨hlt, hmember⟩ := hmember
  refine ⟨Nat.lt_trans hlt (length_lt_of_skipBlanks h), ?_⟩
  rw [Members.read]
  refine (match_skipBlanks h _ _).trans ?_
  rw [if_neg (by decide), if_pos rfl, if_pos rfl, hmember]
  rfl

/-- Any other member stands behind a comma. -/
theorem Members.reads_next {s t u rest : List Char} {members : Members}
    (h : skipBlanks s = ',' :: t) (hquote : skipBlanks t = '"' :: u)
    (hmember : Members.ReadsMember u members rest) : Members.Reads false s members rest := by
  obtain ⟨hlt, hmember⟩ := hmember
  refine ⟨Nat.lt_trans hlt
    (Nat.lt_trans (length_lt_of_skipBlanks hquote) (length_lt_of_skipBlanks h)), ?_⟩
  rw [Members.read]
  refine (match_skipBlanks h _ _).trans ?_
  rw [if_neg (by decide), if_neg (by decide), if_pos rfl]
  refine (match_skipBlanks hquote _ _).trans ?_
  rw [if_pos rfl, hmember]
  rfl

/-- A member is a name, a colon and a value. -/
theorem Members.readsMember {s t u v rest : List Char} {d : Draft} {members : Members}
    (hskip : skipString s = .ok t) (hcolon : skipBlanks t = ':' :: u) (hvalue : Draft.Reads u d v)
    (hmembers : Members.Reads false v members rest) :
    Members.ReadsMember s (.member (.string ((readString s).map (·.1)) (.ok ())) d members)
      rest := by
  obtain ⟨hlt, hname⟩ := Draft.readQuoted_eq hskip
  obtain ⟨hlt', hvalue⟩ := hvalue
  obtain ⟨hlt'', hmembers⟩ := hmembers
  -- Each of the pieces takes something of the text.
  refine ⟨Nat.lt_trans (Nat.lt_trans hlt'' hlt')
    (Nat.lt_trans (length_lt_of_skipBlanks hcolon) hlt), ?_⟩
  rw [Members.readMember, hname]
  dsimp only
  refine (match_skipBlanks hcolon _ _).trans ?_
  rw [if_pos rfl, hvalue]
  simp only [hmembers]
  rfl

/-! ## What has been written -/

/-- A written name is read as the name of its member. -/
private theorem Members.readsMember_writeString (name : String) {u v rest : List Char} {d : Draft}
    {members : Members} (hvalue : Draft.Reads u d v)
    (hmembers : Members.Reads false v members rest) :
    Members.ReadsMember (name.toList.flatMap writeChar ++ '"' :: ':' :: u)
      (.member (.string (.ok name) (.ok ())) d members) rest := by
  have hmember := Members.readsMember (t := ':' :: u) (skipString_writeString name _) rfl hvalue
    hmembers
  rw [readString_writeString] at hmember
  exact hmember

/-- A written string starts with its quote. -/
private theorem skipBlanks_writeString (name : String) (u : List Char) :
    skipBlanks (writeString name ++ u) = '"' :: (name.toList.flatMap writeChar ++ '"' :: u) := by
  simp [writeString, skipBlanks, isBlank]

/-- A member whose name has been written, right after the opening brace. -/
theorem Members.reads_first_writeString (name : String) {u v rest : List Char} {d : Draft}
    {members : Members} (hvalue : Draft.Reads u d v)
    (hmembers : Members.Reads false v members rest) :
    Members.Reads true (writeString name ++ ':' :: u)
      (.member (.string (.ok name) (.ok ())) d members) rest :=
  Members.reads_first (skipBlanks_writeString name _)
    (Members.readsMember_writeString name hvalue hmembers)

/-- The same after another member. -/
theorem Members.reads_next_writeString (name : String) {u v rest : List Char} {d : Draft}
    {members : Members} (hvalue : Draft.Reads u d v)
    (hmembers : Members.Reads false v members rest) :
    Members.Reads false (',' :: (writeString name ++ ':' :: u))
      (.member (.string (.ok name) (.ok ())) d members) rest :=
  Members.reads_next rfl (skipBlanks_writeString name _)
    (Members.readsMember_writeString name hvalue hmembers)

/-- The rest of an array or object does not continue a number. -/
theorem endsNumber_writeItems (items : List Json) (rest : List Char) :
    EndsNumber (writeItems false items ++ rest) := by
  cases items <;> exact ⟨by decide, by decide, by decide, by decide⟩

/-- A comma or a brace ends a number. -/
theorem endsNumber_writeMembers (members : List (String × Json)) (rest : List Char) :
    EndsNumber (writeMembers false members ++ rest) := by
  cases members <;> exact ⟨by decide, by decide, by decide, by decide⟩

/-- A number starts with no blank. -/
theorem skipBlanks_of_startsNumber {c : Char} (hc : c = '-' ∨ c.isDigit) (t : List Char) :
    skipBlanks (c :: t) = c :: t := by
  have hblank : isBlank c = false := by
    rcases hc with rfl | hc
    · rfl
    · simp only [isBlank, Bool.or_eq_false_iff, decide_eq_false_iff_not]
      refine ⟨⟨⟨?_, ?_⟩, ?_⟩, ?_⟩ <;>
        · rintro rfl
          exact absurd hc (by decide)
  rw [skipBlanks, List.dropWhile_cons, hblank]
  rfl

mutual

/-- A value that has been written is read as the draft of its tree, up to where it ends. -/
theorem Draft.reads_writeValue (j : Json) (hj : j.IsIntegral) {rest : List Char}
    (hrest : EndsNumber rest) : Draft.Reads (writeValue j ++ rest) (Draft.ofJson j) rest := by
  cases j with
  | null => exact Draft.reads_word (c := 'n') (by decide) rfl
  | bool b =>
    cases b with
    | false => exact Draft.reads_word (c := 'f') (by decide) rfl
    | true => exact Draft.reads_word (c := 't') (by decide) rfl
  | number n =>
    obtain ⟨c, t, htext, hc⟩ := exists_writeNumber_eq_cons hj
    -- Only a number needs to know what follows it.
    obtain ⟨parts, hread, hvalue⟩ := readNumeral_writeNumber hj hrest
    rw [htext] at hread
    have hnumber := Draft.reads_number (skipBlanks_of_startsNumber hc _) hc hread
    rw [hvalue] at hnumber
    rw [writeValue, htext]
    exact hnumber
  -- A string is written character by character, and its end is found by its quote.
  | string s =>
    have hstring : Draft.Reads ('"' :: (s.toList.flatMap writeChar ++ '"' :: rest))
        (.string _ (.ok ())) rest := Draft.reads_string rfl (skipString_writeString s rest)
    rw [readString_writeString] at hstring
    rw [writeValue, writeString, List.cons_append, List.cons_append, List.append_assoc]
    exact hstring
  | array items =>
    exact Draft.reads_array rfl (Items.reads_writeItems true items hj rest)
  | object members =>
    exact Draft.reads_object rfl (Members.reads_writeMembers true members hj rest)

/-- Written items are read as the drafts of themselves. -/
private theorem Items.reads_writeItems (first : Bool) (items : List Json)
    (hitems : AreIntegral items)
    (rest : List Char) :
    Items.Reads first (writeItems first items ++ rest) (Items.ofJson items) rest := by
  cases items with
  | nil => exact Items.reads_close first rfl
  | cons j items =>
    -- After an item comes a comma or the bracket, and neither continues a number.
    have hvalue := Draft.reads_writeValue j hitems.1 (endsNumber_writeItems items rest)
    have htail := Items.reads_writeItems false items hitems.2 rest
    cases first with
    | true =>
      rw [writeItems, List.append_assoc]
      exact Items.reads_first hvalue htail
    | false =>
      rw [writeItems, List.append_assoc, List.append_assoc]
      exact Items.reads_next rfl hvalue htail

/-- Written members are read as the drafts of themselves. -/
private theorem Members.reads_writeMembers (first : Bool) (members : List (String × Json))
    (hmembers : MembersIntegral members) (rest : List Char) :
    Members.Reads first (writeMembers first members ++ rest) (Members.ofJson members) rest := by
  match members with
  | [] => exact Members.reads_close first rfl
  | (name, value) :: members =>
    -- After a member comes a comma or the brace, and neither continues a number.
    have hvalue := Draft.reads_writeValue value hmembers.1 (endsNumber_writeMembers members rest)
    have htail := Members.reads_writeMembers false members hmembers.2 rest
    cases first with
    | true =>
      rw [writeMembers, if_pos rfl, List.nil_append, List.append_assoc, List.append_assoc]
      exact Members.reads_first_writeString name hvalue htail
    | false =>
      rw [writeMembers, if_neg (by decide), List.append_assoc, List.append_assoc]
      exact Members.reads_next_writeString name hvalue htail

end

/-- Decoding a text is decoding its draft, if only blanks come after the value. -/
theorem readText_eq {α : Type} (decode : Draft → Except Fault α) {text : String} {d : Draft}
    {rest : List Char} (hreads : Draft.Reads text.toList d rest) (hblank : skipBlanks rest = []) :
    readText decode text = decode d := by
  obtain ⟨hlt, hread⟩ := hreads
  rw [readText, hread]
  cases hdecode : decode d with
  | error f => simp only [hdecode]; rfl
  | ok value => simp only [hdecode, hblank]; rfl

/-- The characters of a written tree. -/
theorem toList_write (j : Json) : j.write.toList = writeValue j := String.toList_ofList

/-- A written tree is read as the draft of itself. -/
theorem Draft.reads_write {j : Json} (hj : j.IsIntegral) :
    Draft.Reads j.write.toList (Draft.ofJson j) [] := by
  have hreads : Draft.Reads (writeValue j ++ []) (Draft.ofJson j) [] :=
    Draft.reads_writeValue j hj trivial
  rw [List.append_nil, ← toList_write] at hreads
  exact hreads

/-- Decoding a text that has been written is decoding the draft of its tree. -/
theorem readText_write {α : Type} (decode : Draft → Except Fault α) {j : Json}
    (hj : j.IsIntegral) : readText decode j.write = decode (Draft.ofJson j) :=
  readText_eq decode (Draft.reads_write hj) rfl

/-! ## Trees from drafts -/

mutual

/-- How many arrays and objects of the tree are nested at most. -/
def depth : Json → Nat
  | .array items => depthOfItems items + 1
  | .object members => depthOfMembers members + 1
  | .null | .bool _ | .number _ | .string _ => 0

def depthOfItems : List Json → Nat
  | [] => 0
  | j :: rest => max j.depth (depthOfItems rest)

def depthOfMembers : List (String × Json) → Nat
  | [] => 0
  | (_, value) :: rest => max value.depth (depthOfMembers rest)

end

mutual

/-- The draft of a tree holds the tree. -/
theorem Draft.toJson_ofJson (j : Json) {room : Nat} (hroom : j.depth ≤ room) :
    (Draft.ofJson j).toJson room = .ok j := by
  cases j with
  | null | bool _ | number _ | string _ => rfl
  -- Arrays and objects take up one level.
  | array items =>
    obtain ⟨room, rfl⟩ : ∃ n, room = n + 1 := Nat.exists_eq_add_one.mpr (by
      rw [depth] at hroom; omega)
    rw [Draft.ofJson, Draft.toJson, Items.toJson_ofJson items (Nat.le_of_succ_le_succ hroom)]
    rfl
  | object members =>
    obtain ⟨room, rfl⟩ : ∃ n, room = n + 1 := Nat.exists_eq_add_one.mpr (by
      rw [depth] at hroom; omega)
    rw [Draft.ofJson, Draft.toJson, Members.toJson_ofJson members (Nat.le_of_succ_le_succ hroom)]
    rfl

/-- Items come back from their drafts if there is room for them. -/
theorem Items.toJson_ofJson (items : List Json) {room : Nat} (hroom : depthOfItems items ≤ room) :
    (Items.ofJson items).toJson room = .ok items := by
  cases items with
  | nil => rfl
  | cons j items =>
    rw [depthOfItems, Nat.max_le] at hroom
    rw [Items.ofJson, Items.toJson, Draft.toJson_ofJson j hroom.1,
      Items.toJson_ofJson items hroom.2]
    rfl

/-- Members come back from their drafts if there is room for them. -/
theorem Members.toJson_ofJson (members : List (String × Json)) {room : Nat}
    (hroom : depthOfMembers members ≤ room) :
    (Members.ofJson members).toJson room = .ok members := by
  match members with
  | [] => rfl
  | (name, value) :: members =>
    rw [depthOfMembers, Nat.max_le] at hroom
    rw [Members.ofJson, Members.toJson, Draft.toJson_ofJson value hroom.1,
      Members.toJson_ofJson members hroom.2]
    rfl

end

/-- A tree reads back from its text, if it does not nest too deeply. -/
theorem parse_write {j : Json} (hj : j.IsIntegral) (hdepth : j.depth ≤ depthLimit) :
    parse j.write = .ok j := by
  rw [parse, readText_write _ hj, Draft.toJson_ofJson j hdepth]

end Json

end KvmConsole
