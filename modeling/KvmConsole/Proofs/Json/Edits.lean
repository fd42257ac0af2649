import KvmConsole.Proofs.Json.RecordLookup
import KvmConsole.Proofs.Json.Wholeness
import Mathlib.Logic.Relation

/-!
# Edits that records do not notice

The members of an object that is read as a record may change their order, members of unknown names
may come in, and a field that may be left out may be null instead. All of that can happen at any
depth. A reader that looks the fields of records up reads the same off the edited draft.

Key results:
* `Reader.ofDrafts`, `Reader.ofTrees`: reading off drafts and off trees is looking up.
* `Reader.reads_iff_of_recordEdit`: one edit of a record.
* `Reader.reads_iff_of_edit`: one edit at any depth.
-/

namespace KvmConsole.Json

/-! ## Fields by name -/

namespace Fields

/-- The fields have one of a name, with its shape. -/
inductive Has (name : String) (shape : Shape) (mayBeLeftOut : Bool) : Fields → Prop where
  | head {rest : Fields} : Has name shape mayBeLeftOut (.cons name shape mayBeLeftOut rest)
  | tail {other : String} {otherShape : Shape} {otherMayBeLeftOut : Bool} {rest : Fields}
      (h : Has name shape mayBeLeftOut rest) :
      Has name shape mayBeLeftOut (.cons other otherShape otherMayBeLeftOut rest)

/-- The fields have one in a place, with its shape. -/
inductive HasAt (shape : Shape) : Nat → Fields → Prop where
  | head {name : String} {mayBeLeftOut : Bool} {rest : Fields} :
      HasAt shape 0 (.cons name shape mayBeLeftOut rest)
  | tail {name : String} {other : Shape} {mayBeLeftOut : Bool} {rest : Fields} {place : Nat}
      (h : HasAt shape place rest) : HasAt shape (place + 1) (.cons name other mayBeLeftOut rest)

variable {name : String} {shape : Shape} {mayBeLeftOut : Bool} {fields : Fields}

/-- A field is among the fields. -/
theorem Has.mem_names (h : fields.Has name shape mayBeLeftOut) : name ∈ fields.names := by
  induction h with
  | head => exact List.mem_cons_self
  | tail _ ih => exact List.mem_cons_of_mem _ ih

variable {α : Type} {reads : (shape : Shape) → α → shape.Value → Prop}

/-- Members that differ at the name of one field only, where this field gets the same. -/
private theorem finds_congr_at (hnames : fields.names.Nodup)
    (hfield : fields.Has name shape mayBeLeftOut)
    {members members' : List (String × α)}
    (hothers : ∀ other, other ≠ name → under other members = under other members')
    (hgets : ∀ v, Gets reads shape mayBeLeftOut (under name members) v ↔
      Gets reads shape mayBeLeftOut (under name members') v) {vs : fields.Values} :
    fields.Finds reads members vs ↔ fields.Finds reads members' vs := by
  induction hfield with
  -- The field is the first one, and the others find what they found.
  | @head rest =>
    obtain ⟨v, vs⟩ := vs
    obtain ⟨hfresh, -⟩ := List.nodup_cons.mp hnames
    refine and_congr (hgets v) (finds_congr rest fun other hother => hothers other ?_)
    rintro rfl
    exact hfresh hother
  -- The field is a later one, and the first has another name.
  | @tail other otherShape _ rest hfield ih =>
    obtain ⟨v, vs⟩ := vs
    obtain ⟨hfresh, hnames⟩ := List.nodup_cons.mp hnames
    have hne : other ≠ name := by
      rintro rfl
      exact hfresh hfield.mem_names
    rw [Finds, Finds, hothers other hne]
    exact and_congr_right' (ih hnames)

/-- Values of an array that differ in one place only, where the field gets the same. -/
private theorem takes_congr_at {place : Nat} (hfield : fields.HasAt shape place) {a b : α}
    (hreads : ∀ v, reads shape a v ↔ reads shape b v) {before after : List α}
    (hplace : before.length = place) {vs : fields.Values} :
    fields.Takes reads (before ++ a :: after) vs ↔
      fields.Takes reads (before ++ b :: after) vs := by
  induction hfield generalizing before with
  | @head name mayBeLeftOut rest =>
    obtain ⟨v, vs⟩ := vs
    obtain rfl := List.eq_nil_of_length_eq_zero hplace
    exact and_congr_left' (hreads v)
  | @tail name other mayBeLeftOut rest place hfield ih =>
    obtain ⟨v, vs⟩ := vs
    match before, hplace with
    | c :: before, hplace => exact and_congr_right' (ih (Nat.succ.inj hplace))

end Fields

/-! ## Edits -/

/-- The value null. -/
def Draft.null : Draft := .scalar (.ok .null) (.ok ())

section Edits

variable (inner : Shape → Draft → Draft → Prop) (passes : Draft → Prop) (fields : Fields)

/-- An edit of the members of an object that is read as a record. Values of fields are edited by
    `inner`, and the values of new members have to satisfy `passes`. -/
inductive Fields.MembersEdit : List (String × Draft) → List (String × Draft) → Prop where
  | reorder {members members' : List (String × Draft)} (h : members.Perm members') :
      MembersEdit members members'
  | insert {before after : List (String × Draft)} {name : String} {value : Draft}
      (hunknown : name ∉ fields.names) (hfresh : name ∉ (before ++ after).map Prod.fst)
      (hvalue : passes value) :
      MembersEdit (before ++ after) (before ++ (name, value) :: after)
  | leaveOut {before after : List (String × Draft)} {name : String} {shape : Shape}
      (hfield : fields.Has name shape true) :
      MembersEdit (before ++ (name, .null) :: after) (before ++ after)
  | value {before after : List (String × Draft)} {name : String} {shape : Shape}
      {mayBeLeftOut : Bool} {d d' : Draft} (hfield : fields.Has name shape mayBeLeftOut)
      (h : inner shape d d') :
      MembersEdit (before ++ (name, d) :: after) (before ++ (name, d') :: after)

/-- An edit of a draft that is read as a record. The members of an object must not repeat names, and
    in an array only the values of fields can be edited. -/
inductive Fields.RecordEdit : Draft → Draft → Prop where
  | object {members members' : Members} {ms ms' : List (String × Draft)}
      (hms : members.entries? = some ms) (hms' : members'.entries? = some ms')
      (hdistinct : (ms.map Prod.fst).Nodup) (h : fields.MembersEdit inner passes ms ms') :
      RecordEdit (.object members) (.object members')
  | array {items items' : Items} {before after : List Draft} {shape : Shape} {d d' : Draft}
      (hds : items.list? = some (before ++ d :: after))
      (hds' : items'.list? = some (before ++ d' :: after))
      (hfield : fields.HasAt shape before.length) (h : inner shape d d') :
      RecordEdit (.array items) (.array items')

end Edits

/-- The fields of a record, also of one that may be null. -/
def Shape.fields? : Shape → Option Fields
  | .record _ fields => some fields
  | .optional shape => shape.fields?
  | .bool | .string | .integer _ | .choice _ | .anything => none

/-- An edit of one record at any depth, `room` being what is left for nested arrays and objects. -/
def Shape.Edit (passes : Nat → Draft → Prop) : (room : Nat) → Shape → Draft → Draft → Prop
  | 0, _, _, _ => False
  | room + 1, shape, d, d' =>
    ∃ fields, shape.fields? = some fields ∧
      fields.RecordEdit (Shape.Edit passes room) (passes room) d d'

mutual

/-- No record of the shape has two fields of one name. -/
def Shape.IsProper : Shape → Prop
  | .record _ fields => fields.names.Nodup ∧ fields.AreProper
  | .optional shape => shape.IsProper
  | .bool | .string | .integer _ | .choice _ | .anything => True

def Fields.AreProper : Fields → Prop
  | .nil => True
  | .cons _ shape _ rest => shape.IsProper ∧ rest.AreProper

end

/-- The shape of a proper field is proper. -/
private theorem Fields.Has.isProper {name : String} {shape : Shape} {mayBeLeftOut : Bool}
    {fields : Fields}
    (h : fields.Has name shape mayBeLeftOut) (hproper : fields.AreProper) : shape.IsProper := by
  induction h with
  | head => exact hproper.1
  | tail _ ih => exact ih hproper.2

/-- The shape in a proper place is proper. -/
private theorem Fields.HasAt.isProper {shape : Shape} {place : Nat} {fields : Fields}
    (h : fields.HasAt shape place) (hproper : fields.AreProper) : shape.IsProper := by
  induction h with
  | head => exact hproper.1
  | tail _ ih => exact ih hproper.2

/-! ## One record -/

section Middle

variable {α : Type} {before after : List (String × α)} {name other : String} {a : α}

/-- Among distinct names there is one value under a name, and none without its member. -/
private theorem under_middle_self (h : ((before ++ (name, a) :: after).map Prod.fst).Nodup) :
    under name (before ++ (name, a) :: after) = [a] ∧ under name (before ++ after) = [] := by
  rw [List.map_append, List.map_cons, List.nodup_middle, ← List.map_append] at h
  have hothers := under_eq_nil (List.nodup_cons.mp h).1
  refine ⟨?_, hothers⟩
  rw [under_append, List.append_eq_nil_iff] at hothers
  rw [under_append, under_cons_self, hothers.1, hothers.2, List.nil_append]

/-- Under another name nothing changes. -/
private theorem under_middle_of_ne (h : name ≠ other) :
    under other (before ++ (name, a) :: after) = under other (before ++ after) := by
  rw [under_append, under_append, under_cons_of_ne h]

/-- What holds of all members holds of the one in the middle and of the others. -/
private theorem forall_mem_middle {p : String × α → Prop} :
    (∀ m ∈ before ++ (name, a) :: after, p m) ↔ p (name, a) ∧ ∀ m ∈ before ++ after, p m := by
  rw [List.forall_mem_append, List.forall_mem_cons, List.forall_mem_append]
  exact and_left_comm

end Middle

/-- What is read off a draft as the fields of a record is looked up among its parts. -/
structure LooksUp (fields : Fields) (outer : Draft → fields.Values → Prop)
    (reads : (shape : Shape) → Draft → shape.Value → Prop) (passes : Draft → Prop) : Prop where
  object_iff {members : Members} {ms : List (String × Draft)}
      (hms : members.entries? = some ms) (hdistinct : (ms.map Prod.fst).Nodup)
      {vs : fields.Values} :
      outer (.object members) vs ↔
        fields.Finds reads ms vs ∧ ∀ m ∈ ms, m.1 ∉ fields.names → passes m.2
  array_iff {items : Items} {ds : List Draft} (hds : items.list? = some ds) {vs : fields.Values} :
      outer (.array items) vs ↔ fields.Takes reads ds vs

section Record

variable {inner : Shape → Draft → Draft → Prop} {passes : Draft → Prop} {fields : Fields}
  {ms ms' : List (String × Draft)}

/-- An edit leaves names distinct. -/
theorem Fields.MembersEdit.nodup (h : fields.MembersEdit inner passes ms ms')
    (hdistinct : (ms.map Prod.fst).Nodup) : (ms'.map Prod.fst).Nodup := by
  cases h with
  | reorder hperm => exact (hperm.map Prod.fst).nodup_iff.mp hdistinct
  | insert _ hfresh _ =>
    rw [List.map_append, List.map_cons, List.nodup_middle, ← List.map_append]
    exact List.nodup_cons.mpr ⟨hfresh, hdistinct⟩
  | leaveOut _ =>
    rw [List.map_append, List.map_cons, List.nodup_middle, ← List.map_append] at hdistinct
    exact (List.nodup_cons.mp hdistinct).2
  | value _ _ =>
    rw [List.map_append, List.map_cons] at hdistinct ⊢
    exact hdistinct

variable {reads : (shape : Shape) → Draft → shape.Value → Prop}
  (hnames : fields.names.Nodup)
  (hnull : ∀ (shape : Shape) (v : shape.Value), reads shape .null v ↔ shape.null? = some v)

include hnames hnull

/-- Lookups do not notice an edit of the members, if they do not notice edits of the values. -/
private theorem Fields.MembersEdit.finds_iff (h : fields.MembersEdit inner passes ms ms')
    (hdistinct : (ms.map Prod.fst).Nodup) (hproper : fields.AreProper)
    (hinner : ∀ (shape : Shape) (d d' : Draft), shape.IsProper → inner shape d d' →
      ∀ v, reads shape d v ↔ reads shape d' v) {vs : fields.Values} :
    (fields.Finds reads ms vs ∧ ∀ m ∈ ms, m.1 ∉ fields.names → passes m.2) ↔
      fields.Finds reads ms' vs ∧ ∀ m ∈ ms', m.1 ∉ fields.names → passes m.2 := by
  have hdistinct' := h.nodup hdistinct
  cases h with
  | reorder hperm =>
    -- Under each name there is one value at most, and so the same one in any order.
    refine and_congr (finds_congr fields fun name _ => (under_of_perm hperm hdistinct).symm) ?_
    exact forall_congr' fun m => imp_congr_left hperm.mem_iff
  -- No field looks under the new name.
  | @insert before after name value hunknown hfresh hvalue =>
    rw [forall_mem_middle]
    refine and_congr (finds_congr fields fun other hother => ?_)
      (and_iff_right fun _ => hvalue).symm
    refine (under_middle_of_ne ?_).symm
    rintro rfl
    exact hunknown hother
  | @leaveOut before after name shape hfield =>
    -- Null was all that there was under the name.
    obtain ⟨hself, hnone⟩ := under_middle_self hdistinct
    rw [forall_mem_middle]
    refine and_congr
      (finds_congr_at hnames hfield (fun other hne => under_middle_of_ne hne.symm) ?_)
      (and_iff_right fun hunknown => absurd hfield.mem_names hunknown)
    intro v
    rw [hself, hnone]
    exact hnull shape v
  | @value before after name shape mayBeLeftOut d d' hfield h =>
    rw [forall_mem_middle, forall_mem_middle]
    -- The name is known, so neither value has to be passed over.
    have hknown (d : Draft) : (name ∉ fields.names → passes d) ↔ True :=
      iff_true_intro fun hunknown => absurd hfield.mem_names hunknown
    refine and_congr (finds_congr_at hnames hfield (fun other hne => ?_) ?_)
      (and_congr_left' ((hknown d).trans (hknown d').symm))
    · rw [under_middle_of_ne hne.symm, under_middle_of_ne hne.symm]
    · intro v
      rw [(under_middle_self hdistinct).1, (under_middle_self hdistinct').1]
      exact hinner shape d d' (hfield.isProper hproper) h v

/-- What looks up the fields of a record does not notice an edit of the record. -/
theorem LooksUp.iff_of_recordEdit {outer : Draft → fields.Values → Prop}
    (hlooks : LooksUp fields outer reads passes) {d d' : Draft}
    (h : fields.RecordEdit inner passes d d') (hproper : fields.AreProper)
    (hinner : ∀ (shape : Shape) (d d' : Draft), shape.IsProper → inner shape d d' →
      ∀ v, reads shape d v ↔ reads shape d' v) {vs : fields.Values} :
    outer d vs ↔ outer d' vs := by
  cases h with
  | object hms hms' hdistinct h =>
    rw [hlooks.object_iff hms hdistinct, hlooks.object_iff hms' (h.nodup hdistinct)]
    exact h.finds_iff hnames hnull hdistinct hproper hinner
  | array hds hds' hfield h =>
    rw [hlooks.array_iff hds, hlooks.array_iff hds']
    exact Fields.takes_congr_at hfield (hinner _ _ _ (hfield.isProper hproper) h) rfl

end Record

/-! ## Readers -/

/-- A way to read shapes off drafts, with room for so many nested arrays and objects, that looks up
    the fields of records. -/
structure Reader where
  reads : (room : Nat) → (shape : Shape) → Draft → shape.Value → Prop
  /-- The value of a member of an unknown name can be passed over. -/
  passes : (room : Nat) → Draft → Prop
  reads_null_iff {room : Nat} (shape : Shape) (v : shape.Value) :
    reads room shape .null v ↔ shape.null? = some v
  reads_optional_object_iff {room : Nat} {shape : Shape} {members : Members}
    {v : Option shape.Value} :
    reads room (.optional shape) (.object members) v ↔
      ∃ w, reads room shape (.object members) w ∧ v = some w
  reads_optional_array_iff {room : Nat} {shape : Shape} {items : Items} {v : Option shape.Value} :
    reads room (.optional shape) (.array items) v ↔
      ∃ w, reads room shape (.array items) w ∧ v = some w
  looksUp {room : Nat} {title : String} {fields : Fields} (hnames : fields.names.Nodup) :
    LooksUp fields (reads (room + 1) (.record title fields)) (reads room) (passes room)

namespace Reader

variable (r : Reader)

/-- An edit of a record is not noticed where the record may be null, either. -/
theorem reads_iff_of_recordEdit {room : Nat} (hinner : ∀ (shape : Shape) (d d' : Draft),
      shape.IsProper → shape.Edit r.passes room d d' →
        ∀ v, r.reads room shape d v ↔ r.reads room shape d' v) :
    (shape : Shape) → shape.IsProper → {fields : Fields} → shape.fields? = some fields →
      {d d' : Draft} → fields.RecordEdit (Shape.Edit r.passes room) (r.passes room) d d' →
        ∀ v, r.reads (room + 1) shape d v ↔ r.reads (room + 1) shape d' v
  | .record title fields, hproper, _, hfields, d, d', h, v => by
    obtain rfl := Option.some.inj hfields
    exact (r.looksUp hproper.1).iff_of_recordEdit hproper.1 r.reads_null_iff h hproper.2 hinner
  -- An optional record is there before the edit and after it.
  | .optional shape, hproper, fields, hfields, d, d', h, v => by
    have hshape := reads_iff_of_recordEdit hinner shape hproper hfields h
    cases h with
    | object _ _ _ _ =>
      refine r.reads_optional_object_iff.trans (Iff.trans ?_ r.reads_optional_object_iff.symm)
      exact exists_congr fun w => and_congr_left' (hshape w)
    | array _ _ _ _ =>
      refine r.reads_optional_array_iff.trans (Iff.trans ?_ r.reads_optional_array_iff.symm)
      exact exists_congr fun w => and_congr_left' (hshape w)
  | .bool, _, _, hfields, _, _, _, _ | .string, _, _, hfields, _, _, _, _
  | .integer _, _, _, hfields, _, _, _, _ | .choice _, _, _, hfields, _, _, _, _
  | .anything, _, _, hfields, _, _, _, _ => nomatch hfields

/-- A reader does not notice an edit at any depth. -/
theorem reads_iff_of_edit {room : Nat} (shape : Shape) (d d' : Draft) (hproper : shape.IsProper)
    (h : shape.Edit r.passes room d d') (v : shape.Value) :
    r.reads room shape d v ↔ r.reads room shape d' v := by
  -- The values of the fields have less room than the record around them.
  induction room generalizing shape d d' with
  | zero => exact h.elim
  | succ room ih =>
    obtain ⟨fields, hfields, h⟩ := h
    exact r.reads_iff_of_recordEdit (fun shape d d' hproper h v => ih shape d d' hproper h v) shape
      hproper hfields h v

end Reader

/-! ## The readers of drafts and of trees -/

/-- Two results are the same if their values are. -/
private theorem ok_eq_ok_iff {α ε : Type} {a b : α} :
    (.ok a : Except ε α) = .ok b ↔ some a = some b := by
  rw [Except.ok.injEq, Option.some.injEq]

/-- What may be missing is read off the draft of null. -/
private theorem Shape.read_null_iff {room : Nat} (shape : Shape) (v : shape.Value) :
    shape.read room .null = .ok v ↔ shape.null? = some v := by
  cases shape with
  | optional _ | anything => exact ok_eq_ok_iff
  | bool | string | integer _ | choice _ | record _ _ => exact ⟨nofun, nofun⟩

/-- What may be missing is read off null. -/
theorem Shape.ofJson_null_iff (kind : TreeKind) (shape : Shape) (v : shape.Value) :
    shape.ofJson kind .null = .ok v ↔ shape.null? = some v := by
  cases shape with
  | optional _ | anything => exact ok_eq_ok_iff
  | bool | string | integer _ | choice _ | record _ _ => exact ⟨nofun, nofun⟩

/-- Off anything but null an optional value is the value. -/
private theorem Shape.ofJson_optional_iff {kind : TreeKind} {shape : Shape} {j : Json}
    (hj : j ≠ .null)
    {v : Option shape.Value} :
    (Shape.optional shape).ofJson kind j = .ok v ↔
      ∃ w, shape.ofJson kind j = .ok w ∧ v = some w := by
  cases j with
  | null => exact absurd rfl hj
  | bool _ | number _ | string _ | array _ | object _ => exact map_eq_ok_iff

/-- Null is seen as null. -/
private theorem TreeKind.view_null (kind : TreeKind) : kind.view .null = .null := by
  cases kind <;> rfl

/-- Nothing else is seen as null. -/
private theorem TreeKind.view_ne_null (kind : TreeKind) {j : Json} (hj : j ≠ .null) :
    kind.view j ≠ .null := by
  cases kind with
  | collapsed => exact mt collapse_eq_null hj
  | buffered => exact hj

section Instances

variable {kind : TreeKind} {room : Nat} {title : String} {fields : Fields}

/-- What may be missing is read off the draft of null, by way of its tree. -/
theorem Shape.readsTree_null_iff (shape : Shape) (v : shape.Value) :
    shape.ReadsTree kind room .null v ↔ shape.null? = some v := by
  rw [← Shape.ofJson_null_iff kind]
  constructor
  · rintro ⟨j, hj, hread⟩
    obtain rfl : Json.null = j := Except.ok.inj hj
    rw [kind.view_null] at hread
    exact hread
  · intro hread
    rw [← kind.view_null] at hread
    exact ⟨.null, rfl, hread⟩

/-- Off any other draft an optional value is the value. -/
private theorem Shape.readsTree_optional_iff {shape : Shape} {d : Draft}
    (hd : d.toJson room ≠ .ok .null) {v : Option shape.Value} :
    (Shape.optional shape).ReadsTree kind room d v ↔
      ∃ w, shape.ReadsTree kind room d w ∧ v = some w := by
  have hoptional {j : Json} (hj : d.toJson room = .ok j) :
      (Shape.optional shape).ofJson kind (kind.view j) = .ok v ↔ _ :=
    Shape.ofJson_optional_iff (kind.view_ne_null fun hnull : j = .null => hd (hnull ▸ hj))
  constructor
  · rintro ⟨j, hj, hread⟩
    obtain ⟨w, hw, hv⟩ := (hoptional hj).mp hread
    exact ⟨w, ⟨j, hj, hw⟩, hv⟩
  · rintro ⟨w, ⟨j, hj, hw⟩, hv⟩
    exact ⟨j, hj, (hoptional hj).mpr ⟨w, hw, hv⟩⟩

/-- An object is not null. -/
private theorem Draft.toJson_ne_null_of_object (members : Members) :
    (Draft.object members).toJson room ≠ .ok .null := by
  intro h
  generalize hnull : Json.null = j at h
  cases Draft.holds h with
  | object _ => cases hnull

/-- An array is not null. -/
private theorem Draft.toJson_ne_null_of_array (items : Items) :
    (Draft.array items).toJson room ≠ .ok .null := by
  intro h
  generalize hnull : Json.null = j at h
  cases Draft.holds h with
  | array _ => cases hnull

/-- A record is looked up in its draft. Members of unknown names are passed over. -/
theorem Shape.looksUp_read (hnames : fields.names.Nodup) :
    LooksUp fields (fun d vs => (Shape.record title fields).read (room + 1) d = .ok vs)
      (fun shape d v => shape.read room d = .ok v) (fun d => d.skip = .ok ()) where
  object_iff hms _ := by
    refine (Shape.read_object_iff hnames).trans ⟨?_, fun h => ⟨_, hms, h⟩⟩
    rintro ⟨_, hms', h⟩
    obtain rfl := Option.some.inj (hms.symm.trans hms')
    exact h
  array_iff hds := by
    refine Shape.read_array_iff.trans ⟨?_, fun h => ⟨_, hds, h⟩⟩
    rintro ⟨_, hds', h⟩
    obtain rfl := Option.some.inj (hds.symm.trans hds')
    exact h

/-- A record is looked up in its tree. Members of unknown names need to have trees. -/
private theorem Shape.looksUp_readsTree (hnames : fields.names.Nodup) :
    LooksUp fields ((Shape.record title fields).ReadsTree kind (room + 1))
      (fun shape => shape.ReadsTree kind room) (fun d => d.IsWhole ∧ d.depth ≤ room) where
  object_iff hms hdistinct := by
    simp only [← Draft.exists_toJson_iff]
    exact Shape.readsTree_object_iff hnames hms hdistinct
  array_iff hds := Shape.readsTree_array_iff hds

end Instances

/-- Reading off drafts at once. -/
def Reader.ofDrafts : Reader where
  reads room shape d v := shape.read room d = .ok v
  passes _ d := d.skip = .ok ()
  reads_null_iff := Shape.read_null_iff
  reads_optional_object_iff := map_eq_ok_iff
  reads_optional_array_iff := map_eq_ok_iff
  looksUp := Shape.looksUp_read

/-- Reading off trees. -/
def Reader.ofTrees (kind : TreeKind) : Reader where
  reads room shape := shape.ReadsTree kind room
  passes room d := d.IsWhole ∧ d.depth ≤ room
  reads_null_iff := Shape.readsTree_null_iff
  reads_optional_object_iff := Shape.readsTree_optional_iff (Draft.toJson_ne_null_of_object _)
  reads_optional_array_iff := Shape.readsTree_optional_iff (Draft.toJson_ne_null_of_array _)
  looksUp := Shape.looksUp_readsTree

end KvmConsole.Json
