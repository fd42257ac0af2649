import KvmConsole.Proofs.Json.Extension
import KvmConsole.Proofs.Json.Values

/-!
# Values inside longer texts

A value is read the same wherever it stands: what comes behind it in a longer text does not change
its draft. So a text that is a value of its own can be put into the text of an array or an object
and is found there again.

Key results:
* `Draft.Reads.spelt`: the ways in which a text spells a value.
* `Draft.Reads.append`: a longer text has the same draft at its front.
* `IsText.exists_reads`: a JSON text is read to its end.
-/

namespace KvmConsole.Json

/-! ## How values are spelt

For each of the four readers, the cases in which it finds its part of a text complete. -/

/-- The text spells the draft, and goes on with `rest`. -/
inductive Draft.Spelt (s : List Char) : Draft → List Char → Prop where
  | word {c : Char} {letters rest : List Char} {value : Scalar}
      (hword : (c, letters, value) ∈ words) (h : skipBlanks s = c :: (letters ++ rest)) :
    Draft.Spelt s (.scalar (.ok value) (.ok ())) rest
  | number {c : Char} {t rest : List Char} {parts : Numeral} (h : skipBlanks s = c :: t)
      (hc : c = '-' ∨ c.isDigit) (hread : readNumeral (c :: t) = .ok (parts, rest)) :
    Draft.Spelt s (.scalar (parts.value.map .number) (.ok ())) rest
  | string {t rest : List Char} (h : skipBlanks s = '"' :: t) (hskip : skipString t = .ok rest) :
    Draft.Spelt s (.string ((readString t).map (·.1)) (.ok ())) rest
  | array {t rest : List Char} {items : Items} (h : skipBlanks s = '[' :: t)
      (hitems : Items.Reads true t items rest) :
    Draft.Spelt s (.array items) rest
  | object {t rest : List Char} {members : Members} (h : skipBlanks s = '\x7b' :: t)
      (hmembers : Members.Reads true t members rest) :
    Draft.Spelt s (.object members) rest

inductive Items.Spelt (s : List Char) : Bool → Items → List Char → Prop where
  | close (first : Bool) {rest : List Char} (h : skipBlanks s = ']' :: rest) :
    Items.Spelt s first .close rest
  | first {t rest : List Char} {d : Draft} {items : Items} (hvalue : Draft.Reads s d t)
      (hitems : Items.Reads false t items rest) :
    Items.Spelt s true (.item d items) rest
  | next {t u rest : List Char} {d : Draft} {items : Items} (h : skipBlanks s = ',' :: t)
      (hvalue : Draft.Reads t d u) (hitems : Items.Reads false u items rest) :
    Items.Spelt s false (.item d items) rest

inductive Members.Spelt (s : List Char) : Bool → Members → List Char → Prop where
  | close (first : Bool) {rest : List Char} (h : skipBlanks s = '\x7d' :: rest) :
    Members.Spelt s first .close rest
  | first {t rest : List Char} {members : Members} (h : skipBlanks s = '"' :: t)
      (hmember : Members.ReadsMember t members rest) :
    Members.Spelt s true members rest
  | next {t u rest : List Char} {members : Members} (h : skipBlanks s = ',' :: t)
      (hquote : skipBlanks t = '"' :: u) (hmember : Members.ReadsMember u members rest) :
    Members.Spelt s false members rest

inductive Members.SpeltMember (s : List Char) : Members → List Char → Prop where
  | member {t u v rest : List Char} {d : Draft} {members : Members} (hskip : skipString s = .ok t)
      (hcolon : skipBlanks t = ':' :: u) (hvalue : Draft.Reads u d v)
      (hmembers : Members.Reads false v members rest) :
    Members.SpeltMember s (.member (.string ((readString s).map (·.1)) (.ok ())) d members) rest

/-! ### Leaves -/

/-- The letters of a word are read off a text that starts with them, and off no other. -/
private theorem readLetters_eq_ok_iff {word s rest : List Char} :
    readLetters word s = .ok rest ↔ s = word ++ rest := by
  constructor
  · intro h
    fun_induction readLetters word s with
    | case1 => exact Except.ok.inj h
    | case2 => cases h
    | case3 w word s ih => rw [ih h, List.cons_append]
    | case4 => cases h
  · rintro rfl
    exact readLetters_append word rest

/-- A part of a text that is complete is one of the text around it. -/
private theorem exists_of_weaken {α β : Type} {s t rest : List Char} {h : s.length ≤ t.length}
    {p : α × Option (Shorter s)} {f : α → β} {d : β} {hrest : rest.length < t.length}
    (heq : (f p.1, Shorter.weaken h p.2) = (d, some ⟨rest, hrest⟩)) :
    ∃ a hrest', p = (a, some ⟨rest, hrest'⟩) ∧ d = f a := by
  obtain ⟨a, _ | ⟨left, hleft⟩⟩ := p
  · cases heq
  · obtain ⟨rfl, hr⟩ := Prod.mk.inj heq
    obtain rfl := Subtype.mk.inj (Option.some.inj hr)
    exact ⟨a, hleft, rfl, rfl⟩

/-- A word is read by its letters. -/
private theorem Draft.eq_of_readWord {value : Scalar} {letters s rest : List Char} {c : Char}
    {d : Draft}
    {hrest : rest.length < (c :: s).length}
    (h : Draft.readWord value letters c s = (d, some ⟨rest, hrest⟩)) :
    d = .scalar (.ok value) (.ok ()) ∧ s = letters ++ rest := by
  unfold Draft.readWord at h
  split at h
  · cases h
  · rename_i hletters
    obtain ⟨rfl, hr⟩ := Prod.mk.inj h
    obtain rfl := Subtype.mk.inj (Option.some.inj hr)
    exact ⟨rfl, readLetters_eq_ok_iff.mp hletters⟩

/-- A number that has been read has a numeral. -/
private theorem Draft.exists_of_readNumber {s rest : List Char} {d : Draft}
    {hrest : rest.length < s.length} (h : Draft.readNumber s = (d, some ⟨rest, hrest⟩)) :
    ∃ parts, readNumeral s = .ok (parts, rest) ∧
      d = .scalar (parts.value.map .number) (.ok ()) := by
  unfold Draft.readNumber at h
  split at h
  · cases h
  · rename_i parts left hread
    obtain ⟨rfl, hr⟩ := Prod.mk.inj h
    obtain rfl := Subtype.mk.inj (Option.some.inj hr)
    exact ⟨parts, hread, rfl⟩

/-- A string that has been read could be skipped. -/
private theorem Draft.eq_of_readQuoted {s rest : List Char} {d : Draft}
    {hrest : rest.length < s.length}
    (h : Draft.readQuoted s = (d, some ⟨rest, hrest⟩)) :
    skipString s = .ok rest ∧ d = .string ((readString s).map (·.1)) (.ok ()) := by
  unfold Draft.readQuoted at h
  split at h
  · cases h
  · rename_i left hskip
    obtain ⟨rfl, hr⟩ := Prod.mk.inj h
    obtain rfl := Subtype.mk.inj (Option.some.inj hr)
    exact ⟨hskip, rfl⟩

/-! ### Values -/

variable {s rest : List Char}

/-- A value that has been read is spelt in one of the ways. -/
theorem Draft.Reads.spelt {d : Draft} (h : Draft.Reads s d rest) : Draft.Spelt s d rest := by
  obtain ⟨hlt, hread⟩ := h
  rw [Draft.read] at hread
  -- The reader tries the first character in turn: blanks only, a quote, the brackets, the words, a
  -- number.
  split at hread
  · cases hread
  · rename_i c t heq
    split at hread
    · subst c
      obtain ⟨d, hrest, hquoted, rfl⟩ := exists_of_weaken (f := id) hread
      obtain ⟨hskip, rfl⟩ := Draft.eq_of_readQuoted hquoted
      exact .string heq hskip
    split at hread
    · subst c
      obtain ⟨items, hrest, hitems, rfl⟩ := exists_of_weaken hread
      exact .array heq ⟨hrest, hitems⟩
    split at hread
    · subst c
      obtain ⟨members, hrest, hmembers, rfl⟩ := exists_of_weaken hread
      exact .object heq ⟨hrest, hmembers⟩
    split at hread
    · subst c
      obtain ⟨d, hrest, hword, rfl⟩ := exists_of_weaken (f := id) hread
      obtain ⟨rfl, rfl⟩ := Draft.eq_of_readWord hword
      exact .word (show ('n', ['u', 'l', 'l'], Scalar.null) ∈ words by decide) heq
    split at hread
    · subst c
      obtain ⟨d, hrest, hword, rfl⟩ := exists_of_weaken (f := id) hread
      obtain ⟨rfl, rfl⟩ := Draft.eq_of_readWord hword
      exact .word (show ('t', ['r', 'u', 'e'], Scalar.bool true) ∈ words by decide) heq
    split at hread
    · subst c
      obtain ⟨d, hrest, hword, rfl⟩ := exists_of_weaken (f := id) hread
      obtain ⟨rfl, rfl⟩ := Draft.eq_of_readWord hword
      exact .word (show ('f', ['a', 'l', 's', 'e'], Scalar.bool false) ∈ words by decide) heq
    split at hread
    · rename_i hc
      obtain ⟨d, hrest, hnumber, rfl⟩ := exists_of_weaken (f := id) hread
      obtain ⟨parts, hparts, rfl⟩ := Draft.exists_of_readNumber hnumber
      exact .number heq hc hparts
    · cases hread

/-- Items that have been read are spelt in one of the ways. -/
theorem Items.Reads.spelt {first : Bool} {items : Items} (h : Items.Reads first s items rest) :
    Items.Spelt s first items rest := by
  obtain ⟨hlt, hread⟩ := h
  rw [Items.read] at hread
  -- The reader looks for the bracket, and then for an item.
  split at hread
  · cases hread
  · rename_i c t heq
    split at hread
    · subst c
      obtain ⟨rfl, hr⟩ := Prod.mk.inj hread
      obtain rfl := Subtype.mk.inj (Option.some.inj hr)
      exact .close first heq
    split at hread
    · rename_i hfirst
      subst hfirst
      split at hread
      · cases hread
      · rename_i d r hvalue
        obtain ⟨items, hrest, hitems, rfl⟩ := exists_of_weaken hread
        exact .first ⟨r.2, hvalue⟩ ⟨hrest, hitems⟩
    -- After a value there has to be a comma, and then a value again.
    · rename_i hfirst
      rw [Bool.not_eq_true] at hfirst
      subst hfirst
      split at hread
      · subst c
        split at hread
        · cases hread
        · split at hread
          · cases hread
          · split at hread
            · cases hread
            · rename_i d r hvalue
              obtain ⟨items, hrest, hitems, rfl⟩ := exists_of_weaken hread
              exact .next heq ⟨r.2, hvalue⟩ ⟨hrest, hitems⟩
      · cases hread

/-- Members that have been read are spelt in one of the ways. -/
theorem Members.Reads.spelt {first : Bool} {members : Members}
    (h : Members.Reads first s members rest) : Members.Spelt s first members rest := by
  obtain ⟨hlt, hread⟩ := h
  rw [Members.read] at hread
  split at hread
  · cases hread
  · rename_i c t heq
    split at hread
    · subst c
      obtain ⟨rfl, hr⟩ := Prod.mk.inj hread
      obtain rfl := Subtype.mk.inj (Option.some.inj hr)
      exact .close first heq
    split at hread
    · rename_i hfirst
      subst hfirst
      split at hread
      · subst c
        obtain ⟨members, hrest, hmember, rfl⟩ := exists_of_weaken (f := id) hread
        exact .first heq ⟨hrest, hmember⟩
      · cases hread
    · -- After a member there has to be a comma, and then a name in quotes.
      rename_i hfirst
      rw [Bool.not_eq_true] at hfirst
      subst hfirst
      split at hread
      · subst c
        split at hread
        · cases hread
        · rename_i b u hquote
          split at hread
          · subst b
            obtain ⟨members, hrest, hmember, rfl⟩ := exists_of_weaken (f := id) hread
            exact .next heq hquote ⟨hrest, hmember⟩
          · cases hread
      · cases hread

/-- A member that has been read is a name, a colon and a value. -/
theorem Members.ReadsMember.spelt {members : Members} (h : Members.ReadsMember s members rest) :
    Members.SpeltMember s members rest := by
  obtain ⟨hlt, hread⟩ := h
  rw [Members.readMember] at hread
  split at hread
  · cases hread
  · rename_i name r hname
    obtain ⟨hskip, rfl⟩ := Draft.eq_of_readQuoted hname
    split at hread
    · cases hread
    · rename_i c t hcolon
      split at hread
      · subst c
        split at hread
        · cases hread
        · rename_i d v hvalue
          obtain ⟨members, hrest, hmembers, rfl⟩ := exists_of_weaken hread
          exact .member hskip hcolon ⟨v.2, hvalue⟩ ⟨hrest, hmembers⟩
      · cases hread

/-! ## Longer texts -/

/-- A value takes up some of the text. -/
private theorem Draft.Reads.length_lt {d : Draft} (h : Draft.Reads s d rest) :
    rest.length < s.length :=
  h.1

mutual

/-- A longer text has the same value at its front. -/
theorem Draft.Reads.append {s rest : List Char} {d : Draft} (hreads : Draft.Reads s d rest)
    {after : List Char} (hafter : EndsNumber after) :
    Draft.Reads (s ++ after) d (rest ++ after) := by
  -- By recursion down the text, as the readers go: each part of the value starts further on.
  cases hreads.spelt with
  | word hword h =>
    have happend := skipBlanks_append h after
    rw [List.append_assoc] at happend
    exact Draft.reads_word hword happend
  | number h hc hread =>
    exact Draft.reads_number (skipBlanks_append h after) hc (readNumeral_append hafter hread)
  | string h hskip =>
    rw [← readString_append hskip after]
    exact Draft.reads_string (skipBlanks_append h after) (skipString_append hskip after)
  | array h hitems =>
    have := length_lt_of_skipBlanks h
    exact Draft.reads_array (skipBlanks_append h after) (hitems.append hafter)
  | object h hmembers =>
    have := length_lt_of_skipBlanks h
    exact Draft.reads_object (skipBlanks_append h after) (hmembers.append hafter)
termination_by (s.length, 0)

/-- Items are read alike in longer texts. -/
theorem Items.Reads.append {s rest : List Char} {first : Bool} {items : Items}
    (hreads : Items.Reads first s items rest) {after : List Char} (hafter : EndsNumber after) :
    Items.Reads first (s ++ after) items (rest ++ after) := by
  cases hreads.spelt with
  | close _ h => exact Items.reads_close first (skipBlanks_append h after)
  | first hvalue hitems =>
    have := hvalue.length_lt
    exact Items.reads_first (hvalue.append hafter) (hitems.append hafter)
  | next h hvalue hitems =>
    have := length_lt_of_skipBlanks h
    have := hvalue.length_lt
    exact Items.reads_next (skipBlanks_append h after) (hvalue.append hafter)
      (hitems.append hafter)
termination_by (s.length, 1)

/-- Members are read alike in longer texts. -/
theorem Members.Reads.append {s rest : List Char} {first : Bool} {members : Members}
    (hreads : Members.Reads first s members rest) {after : List Char} (hafter : EndsNumber after) :
    Members.Reads first (s ++ after) members (rest ++ after) := by
  cases hreads.spelt with
  | close _ h => exact Members.reads_close first (skipBlanks_append h after)
  | first h hmember =>
    have := length_lt_of_skipBlanks h
    exact Members.reads_first (skipBlanks_append h after) (hmember.append hafter)
  | next h hquote hmember =>
    have := length_lt_of_skipBlanks h
    have := length_lt_of_skipBlanks hquote
    exact Members.reads_next (skipBlanks_append h after) (skipBlanks_append hquote after)
      (hmember.append hafter)
termination_by (s.length, 1)

/-- A member is read alike in longer texts. -/
theorem Members.ReadsMember.append {s rest : List Char} {members : Members}
    (hreads : Members.ReadsMember s members rest) {after : List Char} (hafter : EndsNumber after) :
    Members.ReadsMember (s ++ after) members (rest ++ after) := by
  cases hreads.spelt with
  | member hskip hcolon hvalue hmembers =>
    have := length_of_skipString hskip
    have := length_lt_of_skipBlanks hcolon
    have := hvalue.length_lt
    rw [← readString_append hskip after]
    exact Members.readsMember (skipString_append hskip after) (skipBlanks_append hcolon after)
      (hvalue.append hafter) (hmembers.append hafter)
termination_by (s.length, 0)

end

/-! ## JSON texts -/

/-- An item is passed over with the rest. -/
theorem Items.skip_item_eq_ok_iff {d : Draft} {rest : Items} :
    (Items.item d rest).skip = .ok () ↔ d.skip = .ok () ∧ rest.skip = .ok () := by
  rw [Items.skip]
  cases d.skip <;> simp [bind, Except.bind]

/-- A member is passed over if its name is a string, and its value and the rest are passed over. -/
theorem Members.skip_member_eq_ok_iff {name value : Draft} {rest : Members} :
    (Members.member name value rest).skip = .ok () ↔
      (∃ strict, name = .string strict (.ok ())) ∧ value.skip = .ok () ∧ rest.skip = .ok () := by
  cases name with
  | string strict lax =>
    cases lax <;> cases hvalue : value.skip <;> simp [Members.skip, hvalue, bind, Except.bind]
  | broken _ | scalar _ _ | array _ | object _ => simp [Members.skip, bind, Except.bind]

/-- Where nothing is left in a part of the text, nothing is left in the whole. -/
theorem exists_of_weaken_none {α β : Type} {s t : List Char} {h : s.length ≤ t.length}
    {p : α × Option (Shorter s)} {f : α → β} {d : β}
    (heq : (f p.1, Shorter.weaken h p.2) = (d, none)) : ∃ a, p = (a, none) ∧ d = f a := by
  obtain ⟨a, _ | r⟩ := p
  · obtain ⟨rfl, -⟩ := Prod.mk.inj heq
    exact ⟨a, rfl, rfl⟩
  · cases heq

/-- A word that breaks off is not passed over. -/
private theorem Draft.skip_readWord {value : Scalar} {letters s : List Char} {c : Char} {d : Draft}
    (h : Draft.readWord value letters c s = (d, none)) : d.skip ≠ .ok () := by
  unfold Draft.readWord at h
  split at h
  · obtain ⟨rfl, -⟩ := Prod.mk.inj h
    intro hskip
    cases hskip
  · cases h

/-- A number that breaks off is not passed over. -/
private theorem Draft.skip_readNumber {s : List Char} {d : Draft}
    (h : Draft.readNumber s = (d, none)) :
    d.skip ≠ .ok () := by
  unfold Draft.readNumber at h
  split at h
  · obtain ⟨rfl, -⟩ := Prod.mk.inj h
    nofun
  · cases h

/-- A string that breaks off is marked so. -/
private theorem Draft.skip_readQuoted {s : List Char} {d : Draft}
    (h : Draft.readQuoted s = (d, none)) :
    ∃ strict fault, d = .string strict (.error fault) := by
  unfold Draft.readQuoted at h
  split at h
  · rename_i fault hskip
    obtain ⟨rfl, -⟩ := Prod.mk.inj h
    exact ⟨_, fault, rfl⟩
  · cases h

mutual

/-- A value that is not complete cannot be passed over. -/
private theorem Draft.skip_ne_ok {s : List Char} {d : Draft} (hread : Draft.read s = (d, none)) :
    d.skip ≠ .ok () := by
  -- Where the reader breaks off, the draft has a broken part, and passing over comes to that part.
  rw [Draft.read] at hread
  split at hread
  · obtain ⟨rfl, -⟩ := Prod.mk.inj hread
    nofun
  · rename_i c t heq
    have hlt := length_lt_of_skipBlanks heq
    split at hread
    · obtain ⟨d, hquoted, rfl⟩ := exists_of_weaken_none (f := id) hread
      obtain ⟨strict, fault, rfl⟩ := Draft.skip_readQuoted hquoted
      nofun
    split at hread
    · obtain ⟨items, hitems, rfl⟩ := exists_of_weaken_none hread
      exact Items.skip_ne_ok hitems
    split at hread
    · obtain ⟨members, hmembers, rfl⟩ := exists_of_weaken_none hread
      exact Members.skip_ne_ok hmembers
    split at hread
    · obtain ⟨d, hword, rfl⟩ := exists_of_weaken_none (f := id) hread
      exact Draft.skip_readWord hword
    split at hread
    · obtain ⟨d, hword, rfl⟩ := exists_of_weaken_none (f := id) hread
      exact Draft.skip_readWord hword
    split at hread
    · obtain ⟨d, hword, rfl⟩ := exists_of_weaken_none (f := id) hread
      exact Draft.skip_readWord hword
    split at hread
    · obtain ⟨d, hnumber, rfl⟩ := exists_of_weaken_none (f := id) hread
      exact Draft.skip_readNumber hnumber
    · obtain ⟨rfl, -⟩ := Prod.mk.inj hread
      nofun
termination_by (s.length, 0)

/-- Items that break off are not passed over. -/
private theorem Items.skip_ne_ok {s : List Char} {first : Bool} {items : Items}
    (hread : Items.read first s = (items, none)) : items.skip ≠ .ok () := by
  rw [Items.read] at hread
  split at hread
  · obtain ⟨rfl, -⟩ := Prod.mk.inj hread
    nofun
  · rename_i c t heq
    have hlt := length_lt_of_skipBlanks heq
    -- In front of the first item there is no comma, and behind every other one there is.
    split at hread
    · cases hread
    split at hread
    · split at hread
      · rename_i d hvalue
        obtain ⟨rfl, -⟩ := Prod.mk.inj hread
        exact fun hskip => Draft.skip_ne_ok hvalue (Items.skip_item_eq_ok_iff.mp hskip).1
      · rename_i d r hvalue
        have := r.2
        -- The item is whole, and it is the rest that breaks off.
        obtain ⟨items, hitems, rfl⟩ := exists_of_weaken_none hread
        exact fun hskip => Items.skip_ne_ok hitems (Items.skip_item_eq_ok_iff.mp hskip).2
    split at hread
    · split at hread
      · obtain ⟨rfl, -⟩ := Prod.mk.inj hread
        nofun
      · split at hread
        · obtain ⟨rfl, -⟩ := Prod.mk.inj hread
          nofun
        · split at hread
          · rename_i d hvalue
            obtain ⟨rfl, -⟩ := Prod.mk.inj hread
            exact fun hskip => Draft.skip_ne_ok hvalue (Items.skip_item_eq_ok_iff.mp hskip).1
          · rename_i d r hvalue
            have := r.2
            obtain ⟨items, hitems, rfl⟩ := exists_of_weaken_none hread
            exact fun hskip => Items.skip_ne_ok hitems (Items.skip_item_eq_ok_iff.mp hskip).2
    · obtain ⟨rfl, -⟩ := Prod.mk.inj hread
      nofun
termination_by (s.length, 1)

/-- Members that break off are not passed over. -/
private theorem Members.skip_ne_ok {s : List Char} {first : Bool} {members : Members}
    (hread : Members.read first s = (members, none)) : members.skip ≠ .ok () := by
  rw [Members.read] at hread
  split at hread
  · obtain ⟨rfl, -⟩ := Prod.mk.inj hread
    nofun
  · rename_i c t heq
    have hlt := length_lt_of_skipBlanks heq
    -- In front of the first member there is no comma, and behind every other one there is.
    split at hread
    · cases hread
    split at hread
    · split at hread
      · obtain ⟨members, hmember, rfl⟩ := exists_of_weaken_none (f := id) hread
        exact Members.skip_member_ne_ok hmember
      · obtain ⟨rfl, -⟩ := Prod.mk.inj hread
        exact fun hskip => nomatch (Members.skip_member_eq_ok_iff.mp hskip).2.1
    split at hread
    · split at hread
      · obtain ⟨rfl, -⟩ := Prod.mk.inj hread
        nofun
      · rename_i b u hquote
        have hlt' := length_lt_of_skipBlanks hquote
        split at hread
        · obtain ⟨members, hmember, rfl⟩ := exists_of_weaken_none (f := id) hread
          exact Members.skip_member_ne_ok hmember
        · obtain ⟨rfl, -⟩ := Prod.mk.inj hread
          nofun
    · obtain ⟨rfl, -⟩ := Prod.mk.inj hread
      nofun
termination_by (s.length, 1)

/-- A member that breaks off is not passed over. -/
private theorem Members.skip_member_ne_ok {s : List Char} {members : Members}
    (hread : Members.readMember s = (members, none)) : members.skip ≠ .ok () := by
  rw [Members.readMember] at hread
  intro hskip
  -- It may break off in its name, before or behind its colon, in its value, or among the members
  -- after it.
  split at hread
  · obtain ⟨rfl, -⟩ := Prod.mk.inj hread
    exact nomatch (Members.skip_member_eq_ok_iff.mp hskip).2.1
  · rename_i name r hname
    have := r.2
    split at hread
    · obtain ⟨rfl, -⟩ := Prod.mk.inj hread
      exact nomatch (Members.skip_member_eq_ok_iff.mp hskip).2.1
    · rename_i c t hcolon
      have hlt := length_lt_of_skipBlanks hcolon
      split at hread
      · split at hread
        · rename_i d hvalue
          obtain ⟨rfl, -⟩ := Prod.mk.inj hread
          exact Draft.skip_ne_ok hvalue (Members.skip_member_eq_ok_iff.mp hskip).2.1
        · rename_i d v hvalue
          have := v.2
          obtain ⟨members, hmembers, rfl⟩ := exists_of_weaken_none hread
          exact Members.skip_ne_ok hmembers (Members.skip_member_eq_ok_iff.mp hskip).2.2
      · obtain ⟨rfl, -⟩ := Prod.mk.inj hread
        exact nomatch (Members.skip_member_eq_ok_iff.mp hskip).2.1
termination_by (s.length, 0)

end

/-- The text is JSON: a single value that can be passed over, whatever it is. -/
def IsText (text : String) : Prop := readText Draft.skip text = .ok ()

/-- The draft at the front of a text. -/
def draftOf (text : String) : Draft := (Draft.read text.toList).1

/-- The draft of a text is what is read off it. -/
theorem Draft.Reads.draftOf_eq {text : String} {d : Draft} {rest : List Char}
    (h : Draft.Reads text.toList d rest) : draftOf text = d := by
  obtain ⟨hlt, hread⟩ := h
  rw [draftOf, hread]

/-- Only blanks come after the value at the front of a text, if that has an end. -/
def EndsInBlanks (text : String) : Prop :=
  ∀ r, (Draft.read text.toList).2 = some r → skipBlanks r.1 = []

/-- A whole text is read if its draft is, and nothing else comes after that. -/
theorem readText_eq_ok_iff {α : Type} {decode : Draft → Except Fault α} {text : String} {a : α} :
    readText decode text = .ok a ↔ decode (draftOf text) = .ok a ∧ EndsInBlanks text := by
  unfold readText draftOf EndsInBlanks
  rcases Draft.read text.toList with ⟨d, rest⟩
  cases hdecode : decode d with
  | error f => simp [hdecode, bind, Except.bind]
  | ok b =>
    cases rest with
    | none => simp [hdecode, bind, Except.bind, pure, Except.pure]
    | some r =>
      by_cases hblank : skipBlanks r.1 = []
      · simp [hdecode, hblank, bind, Except.bind, pure, Except.pure]
      · simp [hdecode, hblank, bind, Except.bind]

/-- What is read of a whole text is read off its draft. -/
theorem decode_of_readText {α : Type} {decode : Draft → Except Fault α} {text : String} {a : α}
    (h : readText decode text = .ok a) : decode (draftOf text) = .ok a :=
  (readText_eq_ok_iff.mp h).1

/-- The draft of a JSON text is passed over. -/
theorem IsText.skip_draftOf {text : String} (h : IsText text) : (draftOf text).skip = .ok () :=
  decode_of_readText h

/-- A JSON text is read to its end: what comes after the value is blank. -/
theorem IsText.exists_reads {text : String} (h : IsText text) :
    ∃ rest, Draft.Reads text.toList (draftOf text) rest ∧ skipBlanks rest = [] := by
  have hskip := h.skip_draftOf
  unfold IsText readText at h
  unfold draftOf at hskip ⊢
  rcases hread : Draft.read text.toList with ⟨d, rest⟩
  rw [hread] at h hskip
  simp only [hskip] at h
  cases rest with
  | none => exact absurd hskip (Draft.skip_ne_ok hread)
  | some r =>
    refine ⟨r.1, ⟨r.2, hread⟩, ?_⟩
    -- What is left must be blanks, as it was not refused.
    by_cases hblank : (skipBlanks r.1).isEmpty
    · exact List.isEmpty_iff.mp hblank
    · simp [bind, Except.bind, hblank] at h

/-- Whatever is to be read of a JSON text is read off its draft. -/
theorem IsText.readText_eq {text : String} (h : IsText text) {α : Type}
    (decode : Draft → Except Fault α) : readText decode text = decode (draftOf text) := by
  obtain ⟨rest, hreads, hblank⟩ := h.exists_reads
  exact Json.readText_eq decode hreads hblank

/-! ### Written texts -/

mutual

/-- The draft of a tree is passed over. -/
private theorem Draft.skip_ofJson (j : Json) : (Draft.ofJson j).skip = .ok () := by
  match j with
  | .null | .bool _ | .number _ | .string _ => rfl
  | .array items => exact Items.skip_ofJson items
  | .object members => exact Members.skip_ofJson members

/-- The drafts of trees are passed over. -/
private theorem Items.skip_ofJson (items : List Json) : (Items.ofJson items).skip = .ok () := by
  match items with
  | [] => rfl
  | j :: items => exact Items.skip_item_eq_ok_iff.mpr ⟨Draft.skip_ofJson j, Items.skip_ofJson items⟩

/-- The drafts of named trees are passed over. -/
private theorem Members.skip_ofJson (members : List (String × Json)) :
    (Members.ofJson members).skip = .ok () := by
  match members with
  | [] => rfl
  | (name, value) :: members =>
    exact Members.skip_member_eq_ok_iff.mpr
      ⟨⟨_, rfl⟩, Draft.skip_ofJson value, Members.skip_ofJson members⟩

end

/-- A written tree is a JSON text. -/
theorem isText_write {j : Json} (hj : j.IsIntegral) : IsText j.write :=
  (readText_write Draft.skip hj).trans (Draft.skip_ofJson j)

/-- The draft of a written tree is the draft of the tree. -/
theorem draftOf_write {j : Json} (hj : j.IsIntegral) : draftOf j.write = Draft.ofJson j :=
  (Draft.reads_write hj).draftOf_eq

end KvmConsole.Json
