import KvmConsole.Proofs.Wire.HidEventReading

/-!
# Input events there and back

Which texts are input events, said without the reader: the text has a tree, and the tree has exactly
one value for each field of the event, the tag included, by name in an object and by place in an
array. The text that an event is written as is one of them, so the reader gives the event back.

Key results:
* `HidEvent.shape_ofJson_iff_spells`: what the reader takes for an event.
* `HidEvent.spells_toJson`: the written tree spells its event.
* `HidEvent.not_spells_of_flawed`: a tree with a flaw spells no event.
* `HidEvent.texts_of_events`: the texts that are read, and those that are written.
-/

namespace KvmConsole

namespace Pointer

open Json (Shape Fields IntegerKind Yields offered)

namespace HidEvent

/-! ## What spells an event -/

/-- A tree names a button: by a string or, as a name with nothing to it, by an object with this name
    alone. -/
inductive SpellsButton (b : Button) : Json → Prop where
  | string : SpellsButton b (.string b.name)
  | object : SpellsButton b (.object [(b.name, .null)])
  | emptyObject : SpellsButton b (.object [(b.name, .object [])])

/-- A tree is a pair of integers. -/
def SpellsPair (x y : Int) (j : Json) : Prop :=
  j.Has "x" 0 (·.integer? = some x) ∧ j.Has "y" 1 (·.integer? = some y) ∧ j.HasAtMost 2

/-- A tree is an event. -/
def Spells (j : Json) : HidEvent → Prop
  | mouseButton button pressed =>
    j.Has "event_type" 0 (· = .string "mouse_button") ∧ j.Has "button" 1 (SpellsButton button) ∧
      j.Has "state" 2 (· = .bool pressed) ∧ j.HasAtMost 3
  | mouseMove x y =>
    j.Has "event_type" 0 (· = .string "mouse_move") ∧ j.Has "to" 1 (SpellsPair x.toInt y.toInt) ∧
      j.HasAtMost 2
  | mouseWheel x y =>
    j.Has "event_type" 0 (· = .string "mouse_wheel") ∧
      j.Has "delta" 1 (SpellsPair x.toInt y.toInt) ∧ j.HasAtMost 2

/-! ### Reading is spelling -/

/-- A button is read off what spells it. -/
private theorem readChoice_iff_spellsButton {j : Json} {b : Button} :
    (Shape.choice Button.names).ofJson .buffered j = .ok b.index ↔ SpellsButton b j := by
  have hchoose {s : String} : Json.choose Button.names s = .ok b.index ↔ s = b.name := by
    rw [Json.choose_eq_ok_iff (by decide), b.names_index, eq_comm]
  constructor
  · intro h
    -- Off any other tree the reader refuses to choose.
    match j, h with
    | .string s, h =>
      obtain rfl := hchoose.mp h
      exact .string
    | .object [(name, value)], h =>
      obtain ⟨i, hi, hnull⟩ := Json.bind_eq_ok_iff.mp h
      obtain ⟨-, hnull, hreturn⟩ := Json.bind_eq_ok_iff.mp hnull
      obtain rfl := Except.ok.inj hreturn
      obtain rfl := hchoose.mp hi
      match value, hnull with
      | .null, _ => exact .object
      | .object [], _ => exact .emptyObject
  · rintro (_ | _ | _)
    · exact hchoose.mpr rfl
    · exact Json.bind_eq_ok_iff.mpr ⟨_, hchoose.mpr rfl, rfl⟩
    · exact Json.bind_eq_ok_iff.mpr ⟨_, hchoose.mpr rfl, rfl⟩

/-- Two integers are read off what spells them. -/
private theorem ofJson_pair_iff {title : String} (integers : IntegerKind) {x y : integers.Value}
    {j : Json} :
    (Shape.record title <|
        .cons "x" (.integer integers) false <|
        .cons "y" (.integer integers) false .nil).ofJson .buffered j = .ok (x, y, ()) ↔
      SpellsPair (integers.toInt x) (integers.toInt y) j := by
  have hnames : (Fields.cons "x" (.integer integers) false <|
      .cons "y" (.integer integers) false .nil).names.Nodup := by
    show ["x", "y"].Nodup
    decide
  refine (Shape.ofJson_record_iff hnames).trans ?_
  refine (and_congr_left' (Fields.gather_cons_iff (fun _ => Shape.ofJson_integer_iff)
    (Fields.gather_last_iff fun _ => Shape.ofJson_integer_iff))).trans ?_
  exact and_assoc

/-- What the reader takes for an event. -/
theorem shape_ofJson_iff_spells {j : Json} {e : HidEvent} :
    e.shape.ofJson .buffered j = .ok e.taggedValues ↔ Spells j e := by
  refine (Shape.ofJson_record_iff e.nodup_names_taggedFields).trans ?_
  -- Each kind of event has its tag and its own fields.
  cases e with
  | mouseButton button pressed =>
    refine (and_congr_left' (Fields.gather_cons_iff (fun _ => Shape.ofJson_string_iff)
      (Fields.gather_cons_iff (fun _ => readChoice_iff_spellsButton)
        (Fields.gather_last_iff fun _ => Shape.ofJson_bool_iff)))).trans ?_
    exact and_assoc.trans (and_congr_right' and_assoc)
  | mouseMove x y =>
    refine (and_congr_left' (Fields.gather_cons_iff (fun _ => Shape.ofJson_string_iff)
      (Fields.gather_last_iff fun _ => ofJson_pair_iff .signed16))).trans ?_
    exact and_assoc
  | mouseWheel x y =>
    refine (and_congr_left' (Fields.gather_cons_iff (fun _ => Shape.ofJson_string_iff)
      (Fields.gather_last_iff fun _ => ofJson_pair_iff .signed8))).trans ?_
    exact and_assoc

/-- An event is read off the tree of its text. -/
private theorem ofText_eq_ok_iff_spells {text : String} {e : HidEvent} :
    ofText text = .ok e ↔ ∃ j, Json.parse text = .ok j ∧ Spells j e := by
  simp only [ofText_eq_ok_iff, shape_ofJson_iff_spells]

/-! ## What is written -/

section Writing

variable {i k : Int}

/-- A coordinate is written as the integer it is. -/
private theorem integer?_coordinate (h : -32768 ≤ i ∧ i < 32768) :
    (coordinate i).integer? = some i := by
  unfold coordinate
  split
  · rename_i hpos
    rw [Json.integer?, UInt64.toNat_ofNat_of_lt' (by simp only [UInt64.size]; omega),
      Int.toNat_of_nonneg hpos]
  · rw [Json.integer?, Int64.toInt_ofInt_of_le (by omega) (by omega)]

/-- A coordinate is written as an integer. -/
private theorem isIntegral_coordinate (h : -32768 ≤ i ∧ i < 32768) : (coordinate i).IsIntegral := by
  unfold coordinate
  split
  · trivial
  · rename_i hneg
    rw [Json.IsIntegral, Json.Number.IsInteger, Int64.toInt_ofInt_of_le (by omega) (by omega)]
    omega

/-- A coordinate has no depth. -/
private theorem depth_coordinate (i : Int) : (coordinate i).depth = 0 := by
  unfold coordinate
  split <;> rfl

/-- Two integers are spelled by what is written for them. -/
private theorem spellsPair_pair (hi : -32768 ≤ i ∧ i < 32768) (hk : -32768 ≤ k ∧ k < 32768) :
    SpellsPair i k (pair i k) :=
  ⟨⟨_, rfl, integer?_coordinate hi⟩, ⟨_, rfl, integer?_coordinate hk⟩, trivial⟩

/-- Two integers are written as integers. -/
private theorem isIntegral_pair (hi : -32768 ≤ i ∧ i < 32768) (hk : -32768 ≤ k ∧ k < 32768) :
    (pair i k).IsIntegral :=
  ⟨isIntegral_coordinate hi, isIntegral_coordinate hk, trivial⟩

/-- Two integers are one level deep. -/
private theorem depth_pair (i k : Int) : (pair i k).depth = 1 := by
  simp [pair, Json.depth, Json.depthOfMembers, depth_coordinate]

end Writing

/-- An integer of 16 bits is in range. -/
private theorem range16 (n : Int16) : -32768 ≤ n.toInt ∧ n.toInt < 32768 := ⟨n.le_toInt, n.toInt_lt⟩

/-- An integer of 8 bits is in range. -/
private theorem range8 (n : Int8) : -32768 ≤ n.toInt ∧ n.toInt < 32768 := by
  have hlow : -128 ≤ n.toInt := n.le_toInt
  have hhigh : n.toInt < 128 := n.toInt_lt
  omega

/-- The written tree spells its event. -/
theorem spells_toJson (e : HidEvent) : Spells e.toJson e := by
  cases e with
  | mouseButton button pressed =>
    exact ⟨⟨_, rfl, rfl⟩, ⟨_, rfl, .string⟩, ⟨_, rfl, rfl⟩, trivial⟩
  | mouseMove x y =>
    exact ⟨⟨_, rfl, rfl⟩, ⟨_, rfl, spellsPair_pair (range16 x) (range16 y)⟩, trivial⟩
  | mouseWheel x y =>
    exact ⟨⟨_, rfl, rfl⟩, ⟨_, rfl, spellsPair_pair (range8 x) (range8 y)⟩, trivial⟩

/-- The numbers of an event are integers. -/
theorem isIntegral_toJson (e : HidEvent) : e.toJson.IsIntegral := by
  cases e with
  | mouseButton button pressed => exact ⟨trivial, trivial, trivial, trivial⟩
  | mouseMove x y => exact ⟨trivial, isIntegral_pair (range16 x) (range16 y), trivial⟩
  | mouseWheel x y => exact ⟨trivial, isIntegral_pair (range8 x) (range8 y), trivial⟩

/-- The tree of an event is two levels deep at most. -/
theorem depth_toJson_le (e : HidEvent) : e.toJson.depth ≤ 2 := by
  cases e <;> simp [toJson, body, Json.depth, Json.depthOfMembers, depth_pair]

/-- The text of an event parses to its tree. -/
private theorem parse_text (e : HidEvent) : Json.parse e.text = .ok e.toJson :=
  Json.parse_write e.isIntegral_toJson (Nat.le_trans e.depth_toJson_le (by decide))

/-- The text of an event is read back. -/
theorem ofText_text (e : HidEvent) : ofText e.text = .ok e :=
  ofText_eq_ok_iff_spells.mpr ⟨e.toJson, e.parse_text, e.spells_toJson⟩

/-- No event is written as an empty text. -/
theorem text_ne_empty (e : HidEvent) : e.text ≠ "" := by
  intro h
  -- The text of an object has at least its opening brace.
  have htext : e.text.toList = Json.writeValue e.toJson := Json.toList_write e.toJson
  rw [h] at htext
  exact nomatch htext

/-! ## Flaws -/

/-- The fields of each kind of event besides the tag, with their places in an array. -/
def places : List (String × List (String × Nat)) :=
  [("mouse_button", [("button", 1), ("state", 2)]), ("mouse_move", [("to", 1)]),
    ("mouse_wheel", [("delta", 1)])]

/-- The kinds that have a pair of coordinates, with its field and the least and the greatest
    coordinate. -/
def ranges : List (String × String × Int × Int) :=
  [("mouse_move", "to", -32768, 32767), ("mouse_wheel", "delta", -128, 127)]

/-- The coordinates of a pair, with their places in an array. -/
def axes : List (String × Nat) := [("x", 0), ("y", 1)]

/-- A tree is not an event: its tag, or a field of the kind that the tag names, is missing,
    repeated or of no use. -/
inductive Flawed (j : Json) : Prop where
  | tagCount (h : (offered "event_type" 0 j).length ≠ 1)
  | tagUnknown {tag : Json} (htag : tag ∈ offered "event_type" 0 j)
      (h : ∀ kind ∈ places.map Prod.fst, tag ≠ .string kind)
  | fieldCount {kind name : String} {fields : List (String × Nat)} {place : Nat}
      (htag : .string kind ∈ offered "event_type" 0 j) (hkind : (kind, fields) ∈ places)
      (hfield : (name, place) ∈ fields) (h : (offered name place j).length ≠ 1)
  | buttonUnknown {value : Json} (htag : .string "mouse_button" ∈ offered "event_type" 0 j)
      (hvalue : value ∈ offered "button" 1 j) (h : ∀ b, ¬SpellsButton b value)
  | coordinateCount {kind name axis : String} {low high : Int} {place : Nat} {pair : Json}
      (htag : .string kind ∈ offered "event_type" 0 j) (hkind : (kind, name, low, high) ∈ ranges)
      (hpair : pair ∈ offered name 1 j) (haxis : (axis, place) ∈ axes)
      (h : (offered axis place pair).length ≠ 1)
  /-- A coordinate out of range, or no integer at all. -/
  | coordinateOutside {kind name axis : String} {low high : Int} {place : Nat} {pair value : Json}
      (htag : .string kind ∈ offered "event_type" 0 j) (hkind : (kind, name, low, high) ∈ ranges)
      (hpair : pair ∈ offered name 1 j) (haxis : (axis, place) ∈ axes)
      (hvalue : value ∈ offered axis place pair)
      (h : ∀ i, value.integer? = some i → i < low ∨ high < i)

section Spelling

variable {j : Json} {e : HidEvent}

/-- What spells an event offers its kind once. -/
private theorem Spells.tag_eq (h : Spells j e) :
    offered "event_type" 0 j = [.string e.kindName] := by
  cases e with
  | mouseButton _ _ | mouseMove _ _ | mouseWheel _ _ =>
    obtain ⟨⟨_, htag, rfl⟩, -⟩ := h
    exact htag

/-- All tags that the tree has are the kind of its event. -/
private theorem Spells.kind_eq (h : Spells j e) {kind : String}
    (htag : .string kind ∈ offered "event_type" 0 j) : kind = e.kindName := by
  rw [h.tag_eq, List.mem_singleton] at htag
  exact Json.string.inj htag

/-- What spells an event offers each of its fields once. -/
private theorem Spells.exists_field (h : Spells j e) {fields : List (String × Nat)}
    (hkind : (e.kindName, fields) ∈ places) {name : String} {place : Nat}
    (hfield : (name, place) ∈ fields) : ∃ value, offered name place j = [value] := by
  -- The table of the fields is the one of the kind.
  cases e with
  | mouseButton button pressed =>
    obtain ⟨-, ⟨b, hb, -⟩, ⟨s, hs, -⟩, -⟩ := h
    obtain rfl : fields = [("button", 1), ("state", 2)] := by simpa [places, kindName] using hkind
    obtain ⟨rfl, rfl⟩ | ⟨rfl, rfl⟩ :
        (name = "button" ∧ place = 1) ∨ (name = "state" ∧ place = 2) := by
      simpa using hfield
    · exact ⟨b, hb⟩
    · exact ⟨s, hs⟩
  | mouseMove x y =>
    obtain ⟨-, ⟨pair, hpair, -⟩, -⟩ := h
    obtain rfl : fields = [("to", 1)] := by simpa [places, kindName] using hkind
    obtain ⟨rfl, rfl⟩ : name = "to" ∧ place = 1 := by simpa using hfield
    exact ⟨pair, hpair⟩
  | mouseWheel x y =>
    obtain ⟨-, ⟨pair, hpair, -⟩, -⟩ := h
    obtain rfl : fields = [("delta", 1)] := by simpa [places, kindName] using hkind
    obtain ⟨rfl, rfl⟩ : name = "delta" ∧ place = 1 := by simpa using hfield
    exact ⟨pair, hpair⟩

/-- What spells two integers offers each of them once, in range. -/
private theorem SpellsPair.exists_coordinate {x y low high : Int} (h : SpellsPair x y j)
    (hx : low ≤ x ∧ x ≤ high) (hy : low ≤ y ∧ y ≤ high) {axis : String} {place : Nat}
    (haxis : (axis, place) ∈ axes) :
    j.Has axis place fun value => ∃ i, value.integer? = some i ∧ low ≤ i ∧ i ≤ high := by
  obtain ⟨⟨a, ha, hax⟩, ⟨b, hb, hby⟩, -⟩ := h
  obtain ⟨rfl, rfl⟩ | ⟨rfl, rfl⟩ : (axis = "x" ∧ place = 0) ∨ (axis = "y" ∧ place = 1) := by
    simpa [axes] using haxis
  · exact ⟨a, ha, x, hax, hx⟩
  · exact ⟨b, hb, y, hby, hy⟩

/-- What spells a movement offers each coordinate once, in range. -/
private theorem Spells.exists_coordinate (h : Spells j e) {name : String} {low high : Int}
    (hkind : (e.kindName, name, low, high) ∈ ranges) {pair : Json}
    (hpair : pair ∈ offered name 1 j) {axis : String} {place : Nat}
    (haxis : (axis, place) ∈ axes) :
    pair.Has axis place fun value => ∃ i, value.integer? = some i ∧ low ≤ i ∧ i ≤ high := by
  -- The two kinds of movements differ in the name of the pair and in its range.
  cases e with
  | mouseButton _ _ => simp [ranges, kindName] at hkind
  | mouseMove x y =>
    obtain ⟨-, ⟨p, hp, hspells⟩, -⟩ := h
    obtain ⟨rfl, rfl, rfl⟩ : name = "to" ∧ low = -32768 ∧ high = 32767 := by
      simpa [ranges, kindName] using hkind
    rw [hp, List.mem_singleton] at hpair
    subst hpair
    have hrange (n : Int16) : -32768 ≤ n.toInt ∧ n.toInt ≤ 32767 := by
      have := range16 n
      omega
    exact hspells.exists_coordinate (hrange x) (hrange y) haxis
  | mouseWheel x y =>
    obtain ⟨-, ⟨p, hp, hspells⟩, -⟩ := h
    obtain ⟨rfl, rfl, rfl⟩ : name = "delta" ∧ low = -128 ∧ high = 127 := by
      simpa [ranges, kindName] using hkind
    rw [hp, List.mem_singleton] at hpair
    subst hpair
    have hrange (n : Int8) : -128 ≤ n.toInt ∧ n.toInt ≤ 127 :=
      ⟨n.le_toInt, Int.le_of_lt_add_one n.toInt_lt⟩
    exact hspells.exists_coordinate (hrange x) (hrange y) haxis

/-- A tree with a flaw is no event. -/
theorem not_spells_of_flawed (hflawed : Flawed j) : ¬Spells j e := by
  intro h
  -- The kind that the flaw is about is the one of the event, since there is only one tag.
  cases hflawed with
  | tagCount hcount => exact hcount (congrArg List.length h.tag_eq)
  | @tagUnknown tag htag hunknown =>
    rw [h.tag_eq, List.mem_singleton] at htag
    refine hunknown e.kindName ?_ htag
    cases e with
    | mouseButton _ _ => exact .head _
    | mouseMove _ _ => exact .tail _ (.head _)
    | mouseWheel _ _ => exact .tail _ (.tail _ (.head _))
  -- A field is missing or comes twice.
  | fieldCount htag hkind hfield hcount =>
    obtain rfl := h.kind_eq htag
    obtain ⟨value, hvalue⟩ := h.exists_field hkind hfield
    exact hcount (congrArg List.length hvalue)
  -- There is no such button.
  | buttonUnknown htag hvalue hunknown =>
    have hkind := h.kind_eq htag
    cases e with
    | mouseButton button pressed =>
      obtain ⟨-, ⟨b, hb, hspells⟩, -⟩ := h
      rw [hb, List.mem_singleton] at hvalue
      exact hunknown button (hvalue ▸ hspells)
    | mouseMove _ _ | mouseWheel _ _ => simp [kindName] at hkind
  | coordinateCount htag hkind hpair haxis hcount =>
    obtain rfl := h.kind_eq htag
    obtain ⟨value, hvalue, -⟩ := h.exists_coordinate hkind hpair haxis
    exact hcount (congrArg List.length hvalue)
  -- The coordinate is there, and it is out of range.
  | coordinateOutside htag hkind hpair haxis hcoordinate houtside =>
    obtain rfl := h.kind_eq htag
    obtain ⟨value, hvalue, i, hi, hlow, hhigh⟩ := h.exists_coordinate hkind hpair haxis
    rw [hvalue, List.mem_singleton] at hcoordinate
    subst hcoordinate
    rcases houtside i hi with hout | hout <;> omega

end Spelling

/-- The texts of events. The text that an event is written as is never empty, it is read as this
    event and so belongs to it alone. Any text that is read as an event has a tree that spells the
    event, by the names of its members in any order and among others, or by the order of its values
    in an array; writing the event again and reading that gives the same event. A tree with a flaw
    is read as no event. -/
theorem texts_of_events :
    (∀ e : HidEvent, ofText e.text = .ok e ∧ e.text ≠ "") ∧
    Function.Injective HidEvent.text ∧
    (∀ text e, ofText text = .ok e ↔ ∃ j, Json.parse text = .ok j ∧ Spells j e) ∧
    (∀ text e, ofText text = .ok e → ofText e.text = .ok e) ∧
    ∀ text j, Json.parse text = .ok j → Flawed j → ∀ e, ofText text ≠ .ok e := by
  refine ⟨fun e => ⟨e.ofText_text, e.text_ne_empty⟩, ?_, fun text e => ofText_eq_ok_iff_spells,
    fun _ e _ => e.ofText_text, ?_⟩
  · -- One text cannot read back as two events.
    intro e e' htext
    have hread := e.ofText_text
    rw [htext, e'.ofText_text] at hread
    exact (Except.ok.inj hread).symm
  · intro text j hj hflawed e hread
    obtain ⟨j', hj', hspells⟩ := ofText_eq_ok_iff_spells.mp hread
    obtain rfl := Except.ok.inj (hj.symm.trans hj')
    exact not_spells_of_flawed hflawed hspells

/-- A wheel event with its tag last, another member among the fields and the pair as an array. -/
theorem texts_of_events_tag_last :
    ofText (Json.write (.object [("delta", .array [coordinate 5, coordinate (-128)]),
      ("comment", .null), ("event_type", .string "mouse_wheel")])) =
        .ok (mouseWheel 5 (-128)) := by
  refine (texts_of_events.2.2.1 _ _).mpr ⟨_, Json.parse_write ?_ (by decide), ?_⟩
  · exact ⟨⟨trivial, isIntegral_coordinate (by decide), trivial⟩, trivial, trivial, trivial⟩
  · exact ⟨⟨_, rfl, rfl⟩,
      ⟨_, rfl, ⟨_, rfl, by decide⟩, ⟨_, rfl, by decide⟩, Nat.le_refl 2⟩, trivial⟩

end HidEvent

end Pointer

end KvmConsole
