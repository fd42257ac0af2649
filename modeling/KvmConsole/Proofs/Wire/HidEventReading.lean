import KvmConsole.Proofs.Json.RecordLookup
import KvmConsole.Wire.HidEvent

/-!
# Input events as records

An input event is read in two steps: its tag is looked for while everything else is put aside, and
then its fields are read off what was put aside. That comes to reading a record that has the tag as
one more field, off the tree of the whole draft.

Key results:
* `collect_eq_ok_iff`: what is put aside.
* `ofBody_eq_ok_iff`: the fields of each kind of event.
* `ofDraft_eq_ok_iff`, `ofText_eq_ok_iff`: an event is read off the tree, as a record with its tag.
-/

namespace KvmConsole.Pointer

open Json (Draft Items Members Shape Fields Fault Mismatch Yields under)

namespace Button

def index : Button → Fin names.length
  | left => ⟨0, by decide⟩
  | right => ⟨1, by decide⟩

/-- The name of a button is at its index. -/
theorem names_index (b : Button) : names[b.index] = b.name := by
  cases b <;> rfl

/-- A button is the one at its index. -/
private theorem ofIndex_eq_iff (i : Fin names.length) (b : Button) :
    ofIndex i = b ↔ i = b.index := by
  cases b <;> (revert i; decide)

end Button

namespace HidEvent

/-! ## The fields of an event -/

def fields : HidEvent → Fields
  | mouseButton _ _ => buttonFields
  | mouseMove _ _ => moveFields
  | mouseWheel _ _ => wheelFields

def values : (e : HidEvent) → e.fields.Values
  | mouseButton button pressed => (button.index, pressed, ())
  | mouseMove x y => ((x, y, ()), ())
  | mouseWheel x y => ((x, y, ()), ())

def kindIndex : HidEvent → Fin kindNames.length
  | mouseButton _ _ => ⟨0, by decide⟩
  | mouseMove _ _ => ⟨1, by decide⟩
  | mouseWheel _ _ => ⟨2, by decide⟩

/-- The name of a kind is at its index. -/
theorem kindNames_kindIndex (e : HidEvent) : kindNames[e.kindIndex] = e.kindName := by
  cases e <;> rfl

/-- What messages call the fields of an event. -/
def variantTitle : HidEvent → String
  | mouseButton _ _ => "struct variant HidEvent::MouseButton"
  | mouseMove _ _ => "struct variant HidEvent::MouseMove"
  | mouseWheel _ _ => "struct variant HidEvent::MouseWheel"

/-- The fields of an event with its tag in front of them. -/
def taggedFields (e : HidEvent) : Fields := .cons tagName .string false e.fields

def taggedValues (e : HidEvent) : e.taggedFields.Values := (e.kindName, e.values)

/-- An event as a record with its tag. -/
def shape (e : HidEvent) : Shape := .record "HidEvent" e.taggedFields

/-- No field has the name of another one, or that of the tag. -/
theorem nodup_names_taggedFields (e : HidEvent) : e.taggedFields.names.Nodup := by
  have hbutton : (Fields.cons tagName .string false buttonFields).names.Nodup := by decide
  have hmove : (Fields.cons tagName .string false moveFields).names.Nodup := by decide
  have hwheel : (Fields.cons tagName .string false wheelFields).names.Nodup := by decide
  cases e with
  | mouseButton _ _ => exact hbutton
  | mouseMove _ _ => exact hmove
  | mouseWheel _ _ => exact hwheel

/-- The tag is none of the fields. -/
private theorem tagName_not_mem_names (e : HidEvent) : tagName ∉ e.fields.names :=
  (List.nodup_cons.mp e.nodup_names_taggedFields).1

/-- No field has the name of another one. -/
private theorem nodup_names_fields (e : HidEvent) : e.fields.names.Nodup :=
  (List.nodup_cons.mp e.nodup_names_taggedFields).2

/-! ### The fields of each kind -/

section Kinds

variable (fields : Json)

/-- The fields of a button event. -/
private theorem ofBody_button (h : 0 < kindNames.length) :
    ofBody ⟨0, h⟩ fields =
      (buttonFields.ofRecord .buffered "struct variant HidEvent::MouseButton" fields).map
        fun (v : Fin Button.names.length × Bool × Unit) => mouseButton (.ofIndex v.1) v.2.1 := by
  unfold ofBody
  rw [if_pos rfl]
  cases buttonFields.ofRecord .buffered "struct variant HidEvent::MouseButton" fields <;> rfl

/-- The fields of a movement. -/
private theorem ofBody_move (h : 1 < kindNames.length) :
    ofBody ⟨1, h⟩ fields =
      (moveFields.ofRecord .buffered "struct variant HidEvent::MouseMove" fields).map
        fun (v : (Int16 × Int16 × Unit) × Unit) => mouseMove v.1.1 v.1.2.1 := by
  unfold ofBody
  rw [if_neg (show ¬1 = 0 by decide), if_pos rfl]
  cases moveFields.ofRecord .buffered "struct variant HidEvent::MouseMove" fields <;> rfl

/-- The fields of a turn of the wheel. -/
private theorem ofBody_wheel (h : 2 < kindNames.length) :
    ofBody ⟨2, h⟩ fields =
      (wheelFields.ofRecord .buffered "struct variant HidEvent::MouseWheel" fields).map
        fun (v : (Int8 × Int8 × Unit) × Unit) => mouseWheel v.1.1 v.1.2.1 := by
  unfold ofBody
  rw [if_neg (show ¬2 = 0 by decide), if_neg (show ¬2 = 1 by decide)]
  cases wheelFields.ofRecord .buffered "struct variant HidEvent::MouseWheel" fields <;> rfl

end Kinds

/-- The fields of a kind are read as an event of this kind. -/
theorem ofBody_eq_ok_iff {kind : Fin kindNames.length} {j : Json} {e : HidEvent} :
    ofBody kind j = .ok e ↔
      kind = e.kindIndex ∧ e.fields.ofRecord .buffered e.variantTitle j = .ok e.values := by
  constructor
  · intro h
    -- There are three kinds, and each has its own fields.
    match kind, h with
    | ⟨0, hkind⟩, h =>
      rw [ofBody_button] at h
      obtain ⟨⟨button, pressed, ⟨⟩⟩, hread, rfl⟩ := Json.exists_of_map_eq_ok h
      refine ⟨rfl, ?_⟩
      rw [values, ← (Button.ofIndex_eq_iff button _).mp rfl]
      exact hread
    | ⟨1, hkind⟩, h =>
      rw [ofBody_move] at h
      obtain ⟨⟨⟨x, y, ⟨⟩⟩, ⟨⟩⟩, hread, rfl⟩ := Json.exists_of_map_eq_ok h
      exact ⟨rfl, hread⟩
    | ⟨2, hkind⟩, h =>
      rw [ofBody_wheel] at h
      obtain ⟨⟨⟨x, y, ⟨⟩⟩, ⟨⟩⟩, hread, rfl⟩ := Json.exists_of_map_eq_ok h
      exact ⟨rfl, hread⟩
  · rintro ⟨rfl, hread⟩
    cases e with
    | mouseButton button pressed =>
      refine (ofBody_button j _).trans ?_
      refine (congrArg (Except.map _) hread).trans ?_
      exact congrArg (fun b => Except.ok (mouseButton b pressed))
        ((Button.ofIndex_eq_iff _ button).mpr rfl)
    | mouseMove x y => exact (ofBody_move j _).trans (congrArg (Except.map _) hread)
    | mouseWheel x y => exact (ofBody_wheel j _).trans (congrArg (Except.map _) hread)

/-! ## What is put aside -/

/-- A tree names a kind. -/
def NamesKind (j : Json) (kind : Fin kindNames.length) : Prop := j = .string kindNames[kind]

/-- A kind is read off a string with its name. -/
private theorem readVariant_kindNames_iff (room : Nat) {d : Draft} {kind : Fin kindNames.length} :
    d.readVariant kindNames = .ok kind ↔ d.toJson room = .ok (.string kindNames[kind]) := by
  rw [Json.readVariant_eq_ok_iff]
  constructor
  · rintro ⟨s, lax, rfl, hchoose⟩
    rw [(Json.choose_eq_ok_iff (by decide)).mp hchoose]
    rfl
  · intro hj
    generalize hs : kindNames[kind] = s at hj
    generalize hstring : Json.string s = j at hj
    -- Of the drafts only a string has a string as its tree.
    cases Draft.holds hj with
    | string _ s lax =>
      obtain rfl := Json.string.inj hstring
      exact ⟨_, lax, rfl, (Json.choose_eq_ok_iff (by decide)).mpr hs⟩
    | scalar _ s _ => cases s <;> cases hstring
    | array _ | object _ => cases hstring

section Collecting

variable {room : Nat} {tag tag' : Option (Fin kindNames.length)}
  {fields fields' : List (String × Json)} {name : String} {d : Draft}

/-- The first tag is kept, and a second one is refused. -/
private theorem collectMember_tag_iff :
    collectMember room tagName d (tag, fields) = .ok (tag', fields') ↔
      tag = none ∧ ∃ kind, d.toJson room = .ok (.string kindNames[kind]) ∧ tag' = some kind ∧
        fields' = fields := by
  rw [collectMember, if_pos rfl]
  cases tag with
  | some kind => simp
  | none =>
    simp only [Option.isSome_none, Bool.false_eq_true, if_false, true_and,
      ← readVariant_kindNames_iff room]
    cases d.readVariant kindNames <;> simp [Except.map, eq_comm]

/-- Any other member is put aside. -/
private theorem collectMember_field_iff (h : name ≠ tagName) :
    collectMember room name d (tag, fields) = .ok (tag', fields') ↔
      ∃ j, d.toJson room = .ok j ∧ tag' = tag ∧ fields' = (name, j) :: fields := by
  rw [collectMember, if_neg h]
  cases d.toJson room <;> simp [Except.map, eq_comm]

/-- The fields that have been put aside, last first, and the tag among the members. -/
private theorem foldlM_collectMember_iff (ms : List (String × Draft)) :
    ms.foldlM (fun state m => collectMember room m.1 m.2 state) (tag, fields) =
        .ok (tag', fields') ↔
      ∃ js, List.Forall₂ (fun m j => m.1 = j.1 ∧ m.2.toJson room = .ok j.2) ms js ∧
        Fields.FillsSlot NamesKind (under tagName js) tag tag' ∧
        fields' = (js.filter (·.1 ≠ tagName)).reverse ++ fields := by
  induction ms generalizing tag fields with
  | nil =>
    constructor
    · intro h
      obtain ⟨rfl, rfl⟩ := Prod.mk.inj (Except.ok.inj h)
      exact ⟨[], .nil, rfl, rfl⟩
    · rintro ⟨js, hjs, htag, rfl⟩
      cases hjs
      obtain rfl := htag
      rfl
  | cons m ms ih =>
    obtain ⟨name, d⟩ := m
    rw [List.foldlM_cons, Json.bind_eq_ok_iff]
    -- The member is the tag, or it is put in front of the others.
    by_cases hname : name = tagName
    · subst hname
      constructor
      · rintro ⟨⟨tag₁, fields₁⟩, hstep, hrest⟩
        obtain ⟨rfl, kind, hd, rfl, rfl⟩ := collectMember_tag_iff.mp hstep
        obtain ⟨js, hjs, htag, rfl⟩ := ih.mp hrest
        refine ⟨(tagName, .string kindNames[kind]) :: js, .cons ⟨rfl, hd⟩ hjs, ?_, by simp⟩
        rw [Json.under_cons_self, Fields.fillsSlot_cons_iff]
        exact ⟨rfl, kind, rfl, htag⟩
      · rintro ⟨_, hall, htag, rfl⟩
        cases hall with
        | @cons _ m _ js hd hjs =>
          obtain ⟨name, j⟩ := m
          obtain ⟨rfl, hd⟩ := hd
          rw [Json.under_cons_self, Fields.fillsSlot_cons_iff] at htag
          obtain ⟨rfl, kind, rfl, htag⟩ := htag
          refine ⟨(some kind, fields), collectMember_tag_iff.mpr ⟨rfl, kind, hd, rfl, rfl⟩,
            ih.mpr ⟨js, hjs, htag, by simp⟩⟩
    · constructor
      · rintro ⟨⟨tag₁, fields₁⟩, hstep, hrest⟩
        obtain ⟨j, hd, rfl, rfl⟩ := (collectMember_field_iff hname).mp hstep
        obtain ⟨js, hjs, htag, rfl⟩ := ih.mp hrest
        refine ⟨(name, j) :: js, .cons ⟨rfl, hd⟩ hjs, ?_, by simp [hname]⟩
        rw [Json.under_cons_of_ne hname]
        exact htag
      · rintro ⟨_, hall, htag, rfl⟩
        cases hall with
        | @cons _ m _ js hd hjs =>
          obtain ⟨name, j⟩ := m
          obtain ⟨rfl, hd⟩ := hd
          rw [Json.under_cons_of_ne hname] at htag
          exact ⟨(tag, (_, j) :: fields), (collectMember_field_iff hname).mpr ⟨j, hd, rfl, rfl⟩,
            ih.mpr ⟨js, hjs, htag, by simp [hname]⟩⟩

/-- An object is put aside without its tag. -/
private theorem collect_object_iff {members : Members} {kind : Fin kindNames.length} {j : Json} :
    collect (room + 1) (.object members) = .ok (kind, j) ↔
      ∃ js, members.toJson room = .ok js ∧ under tagName js = [.string kindNames[kind]] ∧
        j = .object (js.filter (·.1 ≠ tagName)) := by
  rw [collect, Json.bind_eq_ok_iff]
  constructor
  · rintro ⟨⟨tag, fields⟩, hfold, hreturn⟩
    obtain ⟨ms, hms⟩ := Members.exists_entries_of_fold members hfold
    rw [Members.fold_eq_foldlM _ members hms, foldlM_collectMember_iff] at hfold
    obtain ⟨js, hjs, htag, rfl⟩ := hfold
    cases tag with
    | none => cases hreturn
    | some kind' =>
      obtain ⟨rfl, rfl⟩ := Prod.mk.inj (Except.ok.inj hreturn)
      refine ⟨js, (Members.toJson_eq_ok_iff members).mpr ⟨ms, hms, hjs⟩, ?_, by simp⟩
      -- There must have been a tag, and exactly one.
      obtain ⟨value, hvalue, rfl⟩ := Fields.fillsSlot_some_iff.mp htag
      exact hvalue
  · rintro ⟨js, hjs, htag, rfl⟩
    obtain ⟨ms, hms, hjs⟩ := (Members.toJson_eq_ok_iff members).mp hjs
    refine ⟨(some kind, (js.filter (·.1 ≠ tagName)).reverse ++ []), ?_, by simp; rfl⟩
    rw [Members.fold_eq_foldlM _ members hms, foldlM_collectMember_iff]
    exact ⟨js, hjs, Fields.fillsSlot_some_iff.mpr ⟨_, htag, rfl⟩, rfl⟩

/-- An array is put aside without its first value. -/
private theorem collect_array_iff {items : Items} {kind : Fin kindNames.length} {j : Json} :
    collect (room + 1) (.array items) = .ok (kind, j) ↔
      ∃ js, items.toJson room = .ok (.string kindNames[kind] :: js) ∧ j = .array js := by
  cases items with
  | close => exact ⟨nofun, by rintro ⟨js, hjs, -⟩; cases hjs⟩
  | broken afterComma f => exact ⟨nofun, by rintro ⟨js, hjs, -⟩; cases hjs⟩
  | item d rest =>
    -- The tag is the first item.
    simp only [collect, Json.bind_eq_ok_iff, readVariant_kindNames_iff room]
    constructor
    · rintro ⟨kind', hkind, js, hjs, hreturn⟩
      obtain ⟨rfl, rfl⟩ := Prod.mk.inj (Except.ok.inj hreturn)
      refine ⟨js, ?_, rfl⟩
      rw [Items.toJson, hkind, hjs]
      rfl
    · rintro ⟨js, hjs, rfl⟩
      cases Items.hold hjs with
      | item hkind hjs => exact ⟨kind, hkind, js, hjs, rfl⟩

end Collecting

/-! ## Reading an event -/

/-- A string is read off one string only. -/
private theorem gets_string_iff {values : List Json} {s : String} :
    Json.Gets (Yields fun shape j => shape.ofJson .buffered j) .string false values s ↔
      values = [.string s] := by
  refine Json.gets_required_iff.trans ?_
  exact (exists_congr fun j => and_congr_right' Shape.ofJson_string_iff).trans exists_eq_right

/-- Leaving out other members does not change what is under a name. -/
private theorem under_filter_of_ne {name other : String} (h : name ≠ other)
    (js : List (String × Json)) :
    under name (js.filter (·.1 ≠ other)) = under name js := by
  induction js with
  | nil => rfl
  | cons m js ih =>
    obtain ⟨n, j⟩ := m
    -- A member that is left out has another name, and one that stays counts on both sides.
    by_cases hn : n = other
    · subst hn
      rw [List.filter_cons_of_neg (by simp), ih, Json.under_cons_of_ne h.symm]
    · rw [List.filter_cons_of_pos (by simpa using hn)]
      by_cases hname : n = name
      · subst hname
        rw [Json.under_cons_self, Json.under_cons_self, ih]
      · rw [Json.under_cons_of_ne hname, Json.under_cons_of_ne hname, ih]

/-- The tag is one more field to an object. -/
private theorem shape_ofJson_object_iff {e : HidEvent} {js : List (String × Json)} :
    e.shape.ofJson .buffered (.object js) = .ok e.taggedValues ↔
      under tagName js = [.string e.kindName] ∧
        e.fields.ofRecord .buffered e.variantTitle (.object (js.filter (·.1 ≠ tagName))) =
          .ok e.values := by
  have hfields : e.fields.Finds (Yields fun shape j => shape.ofJson .buffered j)
      (js.filter (·.1 ≠ tagName)) e.values ↔
        e.fields.Finds (Yields fun shape j => shape.ofJson .buffered j) js e.values := by
    refine Fields.finds_congr e.fields fun name hname => under_filter_of_ne ?_ js
    rintro rfl
    exact e.tagName_not_mem_names hname
  refine (Fields.ofRecord_object_iff e.nodup_names_taggedFields).trans ?_
  rw [Fields.ofRecord_object_iff e.nodup_names_fields, hfields, ← gets_string_iff]
  exact Iff.rfl

/-- To an array it is the first one. -/
private theorem shape_ofJson_array_iff {e : HidEvent} {js : List Json} :
    e.shape.ofJson .buffered (.array js) = .ok e.taggedValues ↔
      ∃ rest, js = .string e.kindName :: rest ∧
        e.fields.ofRecord .buffered e.variantTitle (.array rest) = .ok e.values := by
  have hrest {rest : List Json} :
      e.fields.ofRecord .buffered e.variantTitle (.array rest) = .ok e.values ↔
        e.fields.Takes (Yields fun shape j => shape.ofJson .buffered j) rest e.values :=
    Fields.ofItems_iff e.fields
  refine (Fields.ofItems_iff e.taggedFields).trans ?_
  simp only [hrest]
  constructor
  · rintro ⟨htag, htakes⟩
    cases js with
    | nil => exact nomatch htag
    | cons j rest =>
      obtain rfl := (List.cons.inj (gets_string_iff.mp htag)).1
      exact ⟨rest, rfl, htakes⟩
  · rintro ⟨rest, rfl, htakes⟩
    exact ⟨gets_string_iff.mpr rfl, htakes⟩

/-- An object with its tag has been put aside, and the fields are read. -/
private theorem collect_object_shape_iff {room : Nat} {members : Members} {e : HidEvent} :
    (∃ found, collect (room + 1) (.object members) = .ok found ∧ found.1 = e.kindIndex ∧
        e.fields.ofRecord .buffered e.variantTitle found.2 = .ok e.values) ↔
      ∃ j, (Draft.object members).toJson (room + 1) = .ok j ∧
        e.shape.ofJson .buffered j = .ok e.taggedValues := by
  constructor
  · rintro ⟨⟨kind, j⟩, hcollect, rfl, hread⟩
    obtain ⟨js, hjs, htag, rfl⟩ := collect_object_iff.mp hcollect
    rw [kindNames_kindIndex] at htag
    exact ⟨.object js, by rw [Draft.toJson, hjs]; rfl, shape_ofJson_object_iff.mpr ⟨htag, hread⟩⟩
  · rintro ⟨j, hj, hread⟩
    cases Draft.holds hj with
    | object hjs =>
      obtain ⟨htag, hfields⟩ := shape_ofJson_object_iff.mp hread
      rw [← kindNames_kindIndex] at htag
      exact ⟨_, collect_object_iff.mpr ⟨_, hjs, htag, rfl⟩, rfl, hfields⟩

/-- An array is read as a tag and the rest. -/
private theorem collect_array_shape_iff {room : Nat} {items : Items} {e : HidEvent} :
    (∃ found, collect (room + 1) (.array items) = .ok found ∧ found.1 = e.kindIndex ∧
        e.fields.ofRecord .buffered e.variantTitle found.2 = .ok e.values) ↔
      ∃ j, (Draft.array items).toJson (room + 1) = .ok j ∧
        e.shape.ofJson .buffered j = .ok e.taggedValues := by
  constructor
  · -- What has been collected is the tag and an array of what stood behind it.
    rintro ⟨⟨kind, j⟩, hcollect, rfl, hread⟩
    obtain ⟨js, hjs, rfl⟩ := collect_array_iff.mp hcollect
    rw [kindNames_kindIndex] at hjs
    exact ⟨.array _, by rw [Draft.toJson, hjs]; rfl,
      shape_ofJson_array_iff.mpr ⟨js, rfl, hread⟩⟩
  · rintro ⟨j, hj, hread⟩
    cases Draft.holds hj with
    | array hjs =>
      obtain ⟨rest, rfl, hfields⟩ := shape_ofJson_array_iff.mp hread
      rw [← kindNames_kindIndex] at hjs
      exact ⟨_, collect_array_iff.mpr ⟨rest, hjs, rfl⟩, rfl, hfields⟩

/-- An event is read off the tree of a draft as a record with its tag. -/
theorem ofDraft_eq_ok_iff {room : Nat} {d : Draft} {e : HidEvent} :
    (collect (room + 1) d >>= fun found => (ofBody found.1 found.2).mapError Fault.mismatch) =
        .ok e ↔
      ∃ j, d.toJson (room + 1) = .ok j ∧ e.shape.ofJson .buffered j = .ok e.taggedValues := by
  simp only [Json.bind_eq_ok_iff, Json.mapError_eq_ok_iff, ofBody_eq_ok_iff]
  cases d with
  | object members => exact collect_object_shape_iff
  | array items => exact collect_array_shape_iff
  -- No event is a scalar or a string.
  | broken f =>
    constructor
    · rintro ⟨_, hcollect, -⟩
      cases hcollect
    · rintro ⟨j, hj, -⟩
      cases hj
  | scalar strict lax =>
    constructor
    · rintro ⟨_, hcollect, -⟩
      cases hcollect
    · rintro ⟨j, hj, hread⟩
      cases Draft.holds hj with
      | scalar _ s _ => cases s <;> cases hread
  | string strict lax =>
    constructor
    · rintro ⟨_, hcollect, -⟩
      cases hcollect
    · rintro ⟨j, hj, hread⟩
      cases Draft.holds hj with
      | string _ s _ => cases hread

/-- The text of an event has a tree, and the event is read off it. -/
theorem ofText_eq_ok_iff {text : String} {e : HidEvent} :
    ofText text = .ok e ↔
      ∃ j, Json.parse text = .ok j ∧ e.shape.ofJson .buffered j = .ok e.taggedValues := by
  rw [ofText, Json.readText_eq_ok_iff]
  refine (and_congr_left' ofDraft_eq_ok_iff).trans ?_
  simp only [Json.parse, Json.readText_eq_ok_iff]
  constructor
  · rintro ⟨⟨j, hj, hread⟩, hends⟩
    exact ⟨j, ⟨hj, hends⟩, hread⟩
  · rintro ⟨j, ⟨hj, hends⟩, hread⟩
    exact ⟨⟨j, hj, hread⟩, hends⟩

end HidEvent

end KvmConsole.Pointer
