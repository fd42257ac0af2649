import KvmConsole.Proofs.Json.Agreement
import KvmConsole.Proofs.Json.Lookup
import Mathlib.Data.List.Nodup

/-!
# Records off drafts and off trees

What a record is read as, for each of its readers: off a draft at once, or off the tree of the
draft, as it stands or collapsed. From an object the fields look up the members of their names; from
an array they take the values in order.

Key results:
* `Shape.read_object_iff`, `Shape.read_array_iff`: a record off a draft.
* `Shape.readsTree_object_iff`, `Shape.readsTree_array_iff`: a record off the tree of a draft.
* `Members.toJson_eq_ok_iff`: the tree of an object.
-/

namespace KvmConsole.Json

/-- A computation in two steps succeeds if both of them do. -/
theorem bind_eq_ok_iff {α β ε : Type} {x : Except ε α} {f : α → Except ε β} {b : β} :
    x >>= f = .ok b ↔ ∃ a, x = .ok a ∧ f a = .ok b := by
  cases x <;> simp [bind, Except.bind]

/-- A result that has been mapped comes from a result. -/
theorem map_eq_ok_iff {α β ε : Type} {f : α → β} {x : Except ε α} {b : β} :
    x.map f = .ok b ↔ ∃ a, x = .ok a ∧ b = f a := by
  cases x <;> simp [Except.map, eq_comm]

/-- Another word for a fault makes no difference to success. -/
theorem mapError_eq_ok_iff {α ε ε' : Type} {f : ε → ε'} {x : Except ε α} {a : α} :
    x.mapError f = .ok a ↔ x = .ok a :=
  ⟨eq_ok_of_mapError, fun h => by rw [h]; rfl⟩

/-! ## Names -/

/-- A name is chosen by its place among the names. -/
theorem choose_eq_ok_iff {names : List String} (hnames : names.Nodup) {name : String}
    {i : Fin names.length} : choose names name = .ok i ↔ names[i] = name := by
  have hindex : choose names name = .ok i ↔ names.finIdxOf? name = some i := by
    unfold choose
    cases names.finIdxOf? name <;> simp
  rw [hindex, List.finIdxOf?_eq_some_iff]
  refine ⟨And.left, fun h => ⟨h, fun j hj hsame => ?_⟩⟩
  -- No other place has the same name.
  have hij : j.val = i.val := (List.Nodup.getElem_inj_iff hnames).mp (hsame.trans h.symm)
  omega

/-- A variant is named by a string. -/
theorem readVariant_eq_ok_iff {names : List String} {d : Draft} {i : Fin names.length} :
    d.readVariant names = .ok i ↔
      ∃ s lax, d = .string (.ok s) lax ∧ choose names s = .ok i := by
  constructor
  · intro h
    unfold Draft.readVariant at h
    split at h
    · exact ⟨_, _, rfl, eq_ok_of_mapError h⟩
    · cases h
  · rintro ⟨s, lax, rfl, h⟩
    simp only [Draft.readVariant, h]
    rfl

/-! ## Records off drafts -/

/-- The members of an object that is closed and whose names can be decoded. -/
def Members.entries? : Members → Option (List (String × Draft))
  | .close => some []
  | .member (.string (.ok name) _) value rest => rest.entries?.map ((name, value) :: ·)
  | _ => none

/-- The values of an array that is closed. -/
def Items.list? : Items → Option (List Draft)
  | .close => some []
  | .item d rest => rest.list?.map (d :: ·)
  | .broken _ _ => none

/-- To walk the members of an object is to go through the list of them, as long as all of their
    names can be read. -/
theorem Members.fold_eq_foldlM {σ : Type} (step : String → Draft → σ → Except Fault σ)
    (members : Members) {ms : List (String × Draft)} (h : members.entries? = some ms) (state : σ) :
    members.fold step state = ms.foldlM (fun state m => step m.1 m.2 state) state := by
  match members with
  | .close =>
    obtain rfl := Option.some.inj h
    rfl
  | .broken _ f => cases h
  | .member (.string (.ok name) lax) value rest =>
    obtain ⟨ms, hms, rfl⟩ := Option.map_eq_some_iff.mp h
    rw [Members.fold, List.foldlM_cons]
    cases step name value state with
    | error f => rfl
    | ok state => exact Members.fold_eq_foldlM step rest hms state
  -- A name that cannot be read ends the list.
  | .member (.string (.error f) _) _ _ | .member (.broken _) _ _ | .member (.scalar _ _) _ _
  | .member (.array _) _ _ | .member (.object _) _ _ => cases h

/-- An object whose members have been gone through is closed, and its names can be decoded. -/
theorem Members.exists_entries_of_fold {σ : Type} {step : String → Draft → σ → Except Fault σ}
    (members : Members) {state state' : σ} (h : members.fold step state = .ok state') :
    ∃ ms, members.entries? = some ms := by
  match members with
  | .close => exact ⟨[], rfl⟩
  | .broken _ f => cases h
  | .member (.string (.ok name) lax) value rest =>
    simp only [Members.fold] at h
    split at h
    · cases h
    · obtain ⟨ms, hms⟩ := Members.exists_entries_of_fold rest h
      exact ⟨(name, value) :: ms, Option.map_eq_some_iff.mpr ⟨ms, hms, rfl⟩⟩
  -- The walk would have stopped at the name.
  | .member (.string (.error f) _) _ _ | .member (.broken _) _ _ | .member (.scalar _ _) _ _
  | .member (.array _) _ _ | .member (.object _) _ _ => cases h

section Drafts

variable {room : Nat} {title : String} {fields : Fields}

/-- A record is read off an object if every field finds its value among the members, and every other
    member can be passed over. -/
theorem Shape.read_object_iff (hnames : fields.names.Nodup) {members : Members}
    {vs : fields.Values} :
    (Shape.record title fields).read (room + 1) (.object members) = .ok vs ↔
      ∃ ms, members.entries? = some ms ∧
        fields.Finds (Yields fun shape d => shape.read room d) ms vs ∧
        ∀ m ∈ ms, m.1 ∉ fields.names → m.2.skip = .ok () := by
  -- The walk over the members places each of them, and does nothing else.
  have hall {ms : List (String × Draft)} (hms : members.entries? = some ms) :
      members.fold (fun name value slots => fields.readMember room name value slots)
          fields.noSlots =
        fields.placeAll (fun shape d => shape.read room d) Draft.skip
          (fun name => .mismatch (.duplicateField name)) ms fields.noSlots := by
    rw [Members.fold_eq_foldlM _ members hms, Fields.placeAll]
    congr 1
    funext slots m
    exact Fields.readMember_eq_place room id m.1 m.2 fields slots
  rw [Shape.read_object]
  constructor
  · intro h
    split at h
    · cases h
    · rename_i slots hfold
      -- The walk has come to its end, so that all names have been read.
      obtain ⟨ms, hms⟩ := Members.exists_entries_of_fold members hfold
      rw [hall hms] at hfold
      exact ⟨ms, hms, (Fields.placeAll_finish_iff hnames).mp ⟨slots, hfold, eq_ok_of_mapError h⟩⟩
  · rintro ⟨ms, hms, hfinds⟩
    obtain ⟨slots, hfold, hfinish⟩ := (Fields.placeAll_finish_iff hnames).mpr hfinds
    rw [hall hms, hfold]
    simp only [hfinish]
    rfl

/-- A result that is paired with a value. -/
private theorem map_pair_eq_ok_iff {α β ε : Type} {x : Except ε β} {a a' : α} {b : β} :
    (x.map fun b => (a, b)) = .ok (a', b) ↔ a = a' ∧ x = .ok b := by
  cases x with
  | error e => simp [Except.map]
  | ok c => simp [Except.map]

section Items

variable {total count : Nat} {name : String} {shape : Shape} {mayBeLeftOut : Bool} {rest : Fields}
  {v : shape.Value} {vs : rest.Values}

/-- At the end of an array, a field is left out. -/
private theorem Fields.readItems_close_iff :
    (Fields.cons name shape mayBeLeftOut rest).readItems title total room count .close =
        .ok (v, vs) ↔
      shape.leftOut? mayBeLeftOut = some v ∧
        rest.readItems title total room (count + 1) .close = .ok vs := by
  rw [Fields.readItems]
  cases shape.leftOut? mayBeLeftOut with
  | none => exact ⟨nofun, fun h => nomatch h.1⟩
  | some w => exact map_pair_eq_ok_iff.trans (and_congr_left' Option.some_inj.symm)

/-- An item that is there is for the first field, and the other items are for the other fields. -/
private theorem Fields.readItems_item_iff {d : Draft} {items : Items} :
    (Fields.cons name shape mayBeLeftOut rest).readItems title total room count (.item d items) =
        .ok (v, vs) ↔
      shape.read room d = .ok v ∧
        rest.readItems title total room (count + 1) items = .ok vs := by
  rw [Fields.readItems]
  cases shape.read room d with
  | error f => exact ⟨nofun, fun h => nomatch h.1⟩
  | ok w => exact map_pair_eq_ok_iff.trans (and_congr_left' (Except.ok.injEq _ _).symm.to_iff)

end Items

/-- The fields take the items of an array in order. The induction is on the fields. -/
private theorem Fields.readItems_iff {total : Nat} : (fields : Fields) → {count : Nat} →
    {items : Items} → {vs : fields.Values} →
      (fields.readItems title total room count items = .ok vs ↔
        ∃ ds, items.list? = some ds ∧
          fields.Takes (Yields fun shape d => shape.read room d) ds vs)
  | .nil, _, items, () => by
    -- Without a field there must be no item either.
    rw [Fields.readItems]
    cases items with
    | close => exact ⟨fun _ => ⟨[], rfl, rfl⟩, fun _ => rfl⟩
    | broken afterComma f => cases afterComma <;> exact ⟨nofun, nofun⟩
    | item d rest =>
      refine ⟨nofun, ?_⟩
      rintro ⟨ds, hds, rfl⟩
      obtain ⟨_, -, hcons⟩ := Option.map_eq_some_iff.mp hds
      cases hcons
  | .cons _ _ _ rest, _, .close, (_, _) => by
    -- What is left for the other fields is nothing, too.
    refine Fields.readItems_close_iff.trans ((and_congr_right' (readItems_iff rest)).trans ?_)
    constructor
    · rintro ⟨hfirst, ds, hds, htakes⟩
      obtain rfl := Option.some.inj hds
      exact ⟨[], rfl, hfirst, htakes⟩
    · rintro ⟨ds, hds, hfirst, htakes⟩
      obtain rfl := Option.some.inj hds
      exact ⟨hfirst, [], rfl, htakes⟩
  | .cons _ _ _ _, _, .broken _ _, (_, _) => ⟨nofun, nofun⟩
  | .cons _ _ _ rest, _, .item d items, (_, _) => by
    refine Fields.readItems_item_iff.trans ((and_congr_right' (readItems_iff rest)).trans ?_)
    constructor
    · rintro ⟨hfirst, ds, hds, htakes⟩
      exact ⟨d :: ds, Option.map_eq_some_iff.mpr ⟨ds, hds, rfl⟩, hfirst, htakes⟩
    · rintro ⟨_, hitems, hfirst, htakes⟩
      obtain ⟨ds, hds, rfl⟩ := Option.map_eq_some_iff.mp hitems
      exact ⟨hfirst, ds, hds, htakes⟩

/-- A record is read off an array if its fields take the items in order. -/
theorem Shape.read_array_iff {items : Items} {vs : fields.Values} :
    (Shape.record title fields).read (room + 1) (.array items) = .ok vs ↔
      ∃ ds, items.list? = some ds ∧
        fields.Takes (Yields fun shape d => shape.read room d) ds vs :=
  Fields.readItems_iff fields

end Drafts

/-! ## Records off trees -/

section Trees

variable {room : Nat} {kind : TreeKind}

/-- The members of a draft have trees if each of their values has one. -/
theorem Members.toJson_eq_ok_iff (members : Members) {js : List (String × Json)} :
    members.toJson room = .ok js ↔
      ∃ ms, members.entries? = some ms ∧
        List.Forall₂ (fun m j => m.1 = j.1 ∧ m.2.toJson room = .ok j.2) ms js := by
  match members with
  | .close =>
    constructor
    · intro h
      obtain rfl := Except.ok.inj h
      exact ⟨[], rfl, .nil⟩
    · rintro ⟨ms, hms, hjs⟩
      obtain rfl := Option.some.inj hms
      cases hjs
      rfl
  | .broken _ f => exact ⟨nofun, nofun⟩
  | .member (.string (.ok name) lax) value rest =>
    constructor
    · intro h
      -- The first member and the others have their trees separately.
      cases Members.hold h with
      | member hvalue hrest =>
        obtain ⟨ms, hms, hjs⟩ := (Members.toJson_eq_ok_iff rest).mp hrest
        exact ⟨_, Option.map_eq_some_iff.mpr ⟨ms, hms, rfl⟩, .cons ⟨rfl, hvalue⟩ hjs⟩
    · rintro ⟨_, hmembers, hjs⟩
      obtain ⟨ms, hms, rfl⟩ := Option.map_eq_some_iff.mp hmembers
      cases hjs with
      | @cons _ j _ js hfirst hjs =>
        obtain ⟨other, j⟩ := j
        obtain ⟨rfl, hvalue⟩ := hfirst
        rw [Members.toJson]
        simp only [hvalue, (Members.toJson_eq_ok_iff rest).mpr ⟨ms, hms, hjs⟩]
        rfl
  | .member (.string (.error f) _) _ _ | .member (.broken _) _ _ | .member (.scalar _ _) _ _
  | .member (.array _) _ _ | .member (.object _) _ _ => exact ⟨nofun, nofun⟩

/-- The items of a draft have trees if each of them has one. -/
theorem Items.toJson_eq_ok_iff (items : Items) {js : List Json} :
    items.toJson room = .ok js ↔
      ∃ ds, items.list? = some ds ∧ List.Forall₂ (fun d j => d.toJson room = .ok j) ds js := by
  match items with
  | .close =>
    constructor
    · intro h
      obtain rfl := Except.ok.inj h
      exact ⟨[], rfl, .nil⟩
    · rintro ⟨ds, hds, hjs⟩
      obtain rfl := Option.some.inj hds
      cases hjs
      rfl
  | .broken _ f => exact ⟨nofun, nofun⟩
  | .item d rest =>
    constructor
    · intro h
      -- The first item and the others have their trees separately.
      cases Items.hold h with
      | item hvalue hrest =>
        obtain ⟨ds, hds, hjs⟩ := (Items.toJson_eq_ok_iff rest).mp hrest
        exact ⟨d :: ds, Option.map_eq_some_iff.mpr ⟨ds, hds, rfl⟩, .cons hvalue hjs⟩
    · rintro ⟨_, hitems, hjs⟩
      obtain ⟨ds, hds, rfl⟩ := Option.map_eq_some_iff.mp hitems
      cases hjs with
      | cons hvalue hjs =>
        rw [Items.toJson]
        simp only [hvalue, (Items.toJson_eq_ok_iff rest).mpr ⟨ds, hds, hjs⟩]
        rfl

/-- A record is read off the tree of an object if every field finds its value among the members.
    Members of other names do not matter. -/
theorem Fields.ofRecord_object_iff {title : String} {fields : Fields} (hnames : fields.names.Nodup)
    {ms : List (String × Json)} {vs : fields.Values} :
    fields.ofRecord kind title (.object ms) = .ok vs ↔
      fields.Finds (Yields fun shape j => shape.ofJson kind j) ms vs := by
  have hall := Fields.foldlM_ofMember_eq kind fields ms fields.noSlots
  -- Nothing is done with members of unknown names, so each of them can be passed over.
  have hfinds : (∃ slots, fields.placeAll (fun shape j => shape.ofJson kind j) (fun _ => .ok ())
      Mismatch.duplicateField ms fields.noSlots = .ok slots ∧ fields.finish slots = .ok vs) ↔ _ :=
    Fields.placeAll_finish_iff hnames
  rw [Fields.ofRecord, readRecord, hall]
  constructor
  · intro h
    split at h
    · cases h
    · rename_i slots hslots
      exact (hfinds.mp ⟨slots, hslots, h⟩).1
  · intro h
    obtain ⟨slots, hslots, hfinish⟩ := hfinds.mpr ⟨h, fun _ _ _ => rfl⟩
    rw [hslots]
    exact hfinish

section Items

variable {expected : String} {length count : Nat} {name : String} {shape : Shape}
  {mayBeLeftOut : Bool} {rest : Fields} {v : shape.Value} {vs : rest.Values}

/-- A field for which there is no item has to be one that may be left out. -/
private theorem Fields.ofItems_nil_iff :
    (Fields.cons name shape mayBeLeftOut rest).ofItems kind expected length count [] =
        .ok (v, vs) ↔
      shape.leftOut? mayBeLeftOut = some v ∧
        rest.ofItems kind expected length (count + 1) [] = .ok vs := by
  rw [Fields.ofItems]
  cases shape.leftOut? mayBeLeftOut with
  | none => exact ⟨nofun, fun h => nomatch h.1⟩
  | some w => exact map_pair_eq_ok_iff.trans (and_congr_left' Option.some_inj.symm)

/-- The first item is for the first field. -/
private theorem Fields.ofItems_cons_iff {j : Json} {js : List Json} :
    (Fields.cons name shape mayBeLeftOut rest).ofItems kind expected length count (j :: js) =
        .ok (v, vs) ↔
      shape.ofJson kind j = .ok v ∧
        rest.ofItems kind expected length (count + 1) js = .ok vs := by
  rw [Fields.ofItems]
  cases shape.ofJson kind j with
  | error e => exact ⟨nofun, fun h => nomatch h.1⟩
  | ok w => exact map_pair_eq_ok_iff.trans (and_congr_left' (Except.ok.injEq _ _).symm.to_iff)

end Items

/-- The fields take the items of the tree of an array in order. -/
theorem Fields.ofItems_iff {expected : String} {length : Nat} : (fields : Fields) →
    {count : Nat} → {js : List Json} → {vs : fields.Values} →
      (fields.ofItems kind expected length count js = .ok vs ↔
        fields.Takes (Yields fun shape j => shape.ofJson kind j) js vs)
  | .nil, _, js, () => by
    rw [Fields.ofItems]
    cases js with
    | nil => exact ⟨fun _ => rfl, fun _ => rfl⟩
    | cons j js => exact ⟨nofun, nofun⟩
  | .cons _ _ _ rest, _, [], (_, _) =>
    Fields.ofItems_nil_iff.trans (and_congr_right' (Fields.ofItems_iff rest))
  | .cons _ _ _ rest, _, _ :: _, (_, _) =>
    Fields.ofItems_cons_iff.trans (and_congr_right' (Fields.ofItems_iff rest))

/-- Members are collapsed one by one, before they are sorted. -/
private theorem collapseMembers_eq_map (ms : List (String × Json)) :
    collapseMembers ms = ms.map fun m => (m.1, m.2.collapse) := by
  induction ms with
  | nil => rfl
  | cons m ms ih => rw [collapseMembers, List.map_cons, ih]

/-- Items are collapsed one by one. -/
private theorem collapseItems_eq_map (js : List Json) : collapseItems js = js.map collapse := by
  induction js with
  | nil => rfl
  | cons j js ih => rw [collapseItems, List.map_cons, ih]

/-- A tree as a reader of its kind gets it. -/
def TreeKind.view : TreeKind → Json → Json
  | .collapsed, j => j.collapse
  | .buffered, j => j

/-- A value is read off the tree of a draft. -/
def Shape.ReadsTree (kind : TreeKind) (room : Nat) (shape : Shape) (d : Draft) (v : shape.Value) :
    Prop :=
  ∃ j, d.toJson room = .ok j ∧ shape.ofJson kind (kind.view j) = .ok v

variable {title : String} {fields : Fields}

/-- A record off an object as a kind of tree shows it: collapsing only changes the order of the
    members if their names are distinct. -/
private theorem Shape.ofJson_view_object_iff (hnames : fields.names.Nodup)
    {js : List (String × Json)}
    (hdistinct : (js.map Prod.fst).Nodup) {vs : fields.Values} :
    (Shape.record title fields).ofJson kind (kind.view (.object js)) = .ok vs ↔
      fields.Finds (fun shape j v => shape.ofJson kind (kind.view j) = .ok v) js vs := by
  cases kind with
  | buffered => exact Fields.ofRecord_object_iff hnames
  | collapsed =>
    rw [← map_fst_collapseMembers] at hdistinct
    obtain ⟨members, hcollapse, hperm⟩ := collapse_object hdistinct
    rw [TreeKind.view, hcollapse]
    -- Sorted members are found under the same names.
    refine (Fields.ofRecord_object_iff hnames).trans ?_
    rw [Fields.finds_congr fields fun name _ => under_of_perm hperm hdistinct,
      collapseMembers_eq_map, Fields.finds_map_iff]
    exact Iff.rfl

/-- A record off an array as a kind of tree shows it. -/
private theorem Shape.ofJson_view_array_iff {js : List Json} {vs : fields.Values} :
    (Shape.record title fields).ofJson kind (kind.view (.array js)) = .ok vs ↔
      fields.Takes (fun shape j v => shape.ofJson kind (kind.view j) = .ok v) js vs := by
  cases kind with
  | buffered => exact Fields.ofItems_iff fields
  | collapsed =>
    rw [TreeKind.view, collapse, collapseItems_eq_map]
    exact (Fields.ofItems_iff fields).trans (Fields.takes_map_iff collapse fields)

/-- A draft has one tree at most. -/
theorem Draft.toJson_functional (room : Nat) (d : Draft) (j j' : Json)
    (h : d.toJson room = .ok j) (h' : d.toJson room = .ok j') : j = j' :=
  Except.ok.inj (h.symm.trans h')

/-- A record off the members of a draft, through its tree. -/
theorem Shape.readsTree_object_iff (hnames : fields.names.Nodup) {members : Members}
    {ms : List (String × Draft)} (hms : members.entries? = some ms)
    (hdistinct : (ms.map Prod.fst).Nodup) {vs : fields.Values} :
    (Shape.record title fields).ReadsTree kind (room + 1) (.object members) vs ↔
      fields.Finds (fun shape => shape.ReadsTree kind room) ms vs ∧
        ∀ m ∈ ms, m.1 ∉ fields.names → ∃ j, m.2.toJson room = .ok j := by
  -- The tree has the same names, and at each of them the tree of the value.
  have hfinds {js : List (String × Json)}
      (hjs : List.Forall₂ (fun m j => m.1 = j.1 ∧ m.2.toJson room = .ok j.2) ms js) :
      (Shape.record title fields).ofJson kind (kind.view (.object js)) = .ok vs ↔
        fields.Finds (fun shape => shape.ReadsTree kind room) ms vs := by
    rw [Fields.map_fst_of_forall₂ (R := fun d j => d.toJson room = .ok j) hjs] at hdistinct
    rw [Shape.ofJson_view_object_iff hnames hdistinct]
    exact Fields.finds_forall₂_iff (Draft.toJson_functional room) fields hjs
  constructor
  · -- The tree of an object has a tree for each member, also for those that are passed over.
    rintro ⟨j, hj, hread⟩
    cases Draft.holds hj with
    | @object _ _ js htree =>
      obtain ⟨_, hms', hjs⟩ := (Members.toJson_eq_ok_iff members).mp htree
      obtain rfl := Option.some.inj (hms.symm.trans hms')
      refine ⟨(hfinds hjs).mp hread, fun m hm _ => ?_⟩
      obtain ⟨⟨_, j⟩, -, hvalue⟩ := Fields.forall₂_exists_iff.mp ⟨js, hjs⟩ m hm
      exact ⟨j, hvalue⟩
  · rintro ⟨hread, hpasses⟩
    -- A member has a tree because a field finds its value there, or because it can be passed over.
    have htrees : ∀ m ∈ ms, ∃ j : String × Json, m.1 = j.1 ∧ m.2.toJson room = .ok j.2 := by
      intro m hm
      by_cases hname : m.1 ∈ fields.names
      · obtain ⟨shape, v, j, hj, -⟩ := Fields.exists_of_finds fields hread m hm hname
        exact ⟨(m.1, j), rfl, hj⟩
      · obtain ⟨j, hj⟩ := hpasses m hm hname
        exact ⟨(m.1, j), rfl, hj⟩
    obtain ⟨js, hjs⟩ := Fields.forall₂_exists_iff.mpr htrees
    refine ⟨.object js, ?_, (hfinds hjs).mpr hread⟩
    rw [Draft.toJson, (Members.toJson_eq_ok_iff members).mpr ⟨ms, hms, hjs⟩]
    rfl

/-- A record off the values of an array, through its tree. -/
theorem Shape.readsTree_array_iff {items : Items} {ds : List Draft} (hds : items.list? = some ds)
    {vs : fields.Values} :
    (Shape.record title fields).ReadsTree kind (room + 1) (.array items) vs ↔
      fields.Takes (fun shape => shape.ReadsTree kind room) ds vs := by
  -- The items and their trees are taken by the same fields.
  have htakes {js : List Json} (hjs : List.Forall₂ (fun d j => d.toJson room = .ok j) ds js) :
      (Shape.record title fields).ofJson kind (kind.view (.array js)) = .ok vs ↔
        fields.Takes (fun shape => shape.ReadsTree kind room) ds vs := by
    rw [Shape.ofJson_view_array_iff]
    exact Fields.takes_forall₂_iff (Draft.toJson_functional room) fields hjs
  constructor
  · rintro ⟨j, hj, hread⟩
    cases Draft.holds hj with
    | array htree =>
      obtain ⟨_, hds', hjs⟩ := (Items.toJson_eq_ok_iff items).mp htree
      obtain rfl := Option.some.inj (hds.symm.trans hds')
      exact (htakes hjs).mp hread
  · intro hread
    -- Every item is taken by a field, so that it has a tree.
    have htrees : ∀ d ∈ ds, ∃ j, d.toJson room = .ok j := by
      intro d hd
      obtain ⟨shape, v, j, hj, -⟩ := Fields.exists_of_takes fields hread d hd
      exact ⟨j, hj⟩
    obtain ⟨js, hjs⟩ := Fields.forall₂_exists_iff.mpr htrees
    refine ⟨.array js, ?_, (htakes hjs).mpr hread⟩
    rw [Draft.toJson, (Items.toJson_eq_ok_iff items).mpr ⟨ds, hds, hjs⟩]
    rfl

end Trees

/-! ## Leaves off trees -/

/-- The integer that a tree spells. A number with a point or an exponent is none. -/
def integer? : Json → Option Int
  | .number (.natural n) => some n.toNat
  | .number (.negative n) => some n.toInt
  | .null | .bool _ | .number (.float _) | .string _ | .array _ | .object _ => none

def IntegerKind.toInt : (kind : IntegerKind) → kind.Value → Int
  | .unsigned64, n => n.toNat
  | .signed16, n => n.toInt
  | .signed8, n => n.toInt

/-- An integer has a value of a kind if it is in the range of that kind, and then it is the
    value. -/
private theorem IntegerKind.ofInt?_eq_some_iff {kind : IntegerKind} {i : Int} {v : kind.Value} :
    kind.ofInt? i = some v ↔ i = kind.toInt v := by
  -- Each kind has its own bounds, within which the conversion is exact.
  cases kind with
  | unsigned64 =>
    rw [ofInt?, Option.ite_none_right_eq_some, toInt, Option.some.injEq]
    constructor
    · rintro ⟨⟨hlow, hhigh⟩, rfl⟩
      rw [UInt64.toNat_ofNat_of_lt' (by simpa [UInt64.size] using (Int.toNat_lt hlow).mpr hhigh)]
      exact (Int.toNat_of_nonneg hlow).symm
    · rintro rfl
      refine ⟨⟨Int.natCast_nonneg _, Int.ofNat_lt.mpr v.toNat_lt⟩, ?_⟩
      rw [Int.toNat_natCast, UInt64.ofNat_toNat]
  | signed16 =>
    rw [ofInt?, Option.ite_none_right_eq_some, toInt, Option.some.injEq]
    constructor
    · rintro ⟨⟨hlow, hhigh⟩, rfl⟩
      exact (Int16.toInt_ofInt_of_le hlow hhigh).symm
    · rintro rfl
      exact ⟨⟨v.le_toInt, v.toInt_lt⟩, Int16.ofInt_toInt v⟩
  | signed8 =>
    rw [ofInt?, Option.ite_none_right_eq_some, toInt, Option.some.injEq]
    constructor
    · rintro ⟨⟨hlow, hhigh⟩, rfl⟩
      exact (Int8.toInt_ofInt_of_le hlow hhigh).symm
    · rintro rfl
      exact ⟨⟨v.le_toInt, v.toInt_lt⟩, Int8.ofInt_toInt v⟩

/-- A number has a value of a kind if it is an integer in range. One that was written with a point
    or an exponent is none. -/
private theorem IntegerKind.ofNumber_eq_ok_iff {kind : IntegerKind} {n : Number} {v : kind.Value} :
    kind.ofNumber n = .ok v ↔ (Json.number n).integer? = some (kind.toInt v) := by
  cases n with
  | natural n =>
    rw [integer?, Option.some.injEq, ← ofInt?_eq_some_iff]
    simp only [ofNumber]
    cases kind.ofInt? n.toNat <;> simp
  | negative n =>
    rw [integer?, Option.some.injEq, ← ofInt?_eq_some_iff]
    simp only [ofNumber]
    cases kind.ofInt? n.toInt <;> simp
  | float x =>
    -- A floating point number is refused whatever its value is.
    constructor
    · intro h
      cases h
    · intro h
      cases h

/-- A tree is read as an integer if it is a number with that value. -/
theorem Shape.ofJson_integer_iff {kind : TreeKind} {integers : IntegerKind} {j : Json}
    {v : integers.Value} :
    (Shape.integer integers).ofJson kind j = .ok v ↔ j.integer? = some (integers.toInt v) := by
  cases j with
  | number n => exact IntegerKind.ofNumber_eq_ok_iff
  | null | bool _ | string _ | array _ | object _ => exact ⟨nofun, nofun⟩

/-- A tree is read as a string if it is that string. -/
theorem Shape.ofJson_string_iff {kind : TreeKind} {j : Json} {s : String} :
    Shape.string.ofJson kind j = .ok s ↔ j = .string s := by
  cases j with
  | string s' =>
    exact ⟨fun h => congrArg Json.string (Except.ok.inj h),
      fun h => congrArg Except.ok (string.inj h)⟩
  | null | bool _ | number _ | array _ | object _ => exact ⟨nofun, nofun⟩

/-- A tree is read as a truth value if it is that value. -/
theorem Shape.ofJson_bool_iff {kind : TreeKind} {j : Json} {b : Bool} :
    Shape.bool.ofJson kind j = .ok b ↔ j = .bool b := by
  cases j with
  | bool b' =>
    exact ⟨fun h => congrArg Json.bool (Except.ok.inj h), fun h => congrArg Except.ok (bool.inj h)⟩
  | null | string _ | number _ | array _ | object _ => exact ⟨nofun, nofun⟩

/-! ## Objects and arrays alike -/

/-- The values that a tree has for a field: those under its name in an object, the one in its place
    in an array. -/
def offered (name : String) (place : Nat) : Json → List Json
  | .object ms => under name ms
  | .array js => js[place]?.toList
  | .null | .bool _ | .number _ | .string _ => []

/-- If the tree is an array, it has at most `n` values. -/
def HasAtMost (n : Nat) : Json → Prop
  | .array js => js.length ≤ n
  | .null | .bool _ | .number _ | .string _ | .object _ => True

namespace Fields

/-- What the fields get off what a tree has for them, the first one having the given place. -/
def Gather (reads : (shape : Shape) → Json → shape.Value → Prop) (j : Json) :
    (place : Nat) → (fields : Fields) → fields.Values → Prop
  | _, .nil, () => True
  | place, .cons name shape mayBeLeftOut rest, (v, vs) =>
    Gets reads shape mayBeLeftOut (offered name place j) v ∧ rest.Gather reads j (place + 1) vs

variable {reads : (shape : Shape) → Json → shape.Value → Prop}

/-- Among the members of an object, gathering is finding. -/
private theorem gather_object_iff {ms : List (String × Json)} : (place : Nat) → (fields : Fields) →
    {vs : fields.Values} → (fields.Gather reads (.object ms) place vs ↔ fields.Finds reads ms vs)
  | _, .nil, () => Iff.rfl
  | place, .cons _ _ _ rest, (_, _) => and_congr_right' (gather_object_iff (place + 1) rest)

/-- Among the items of an array, gathering is taking them in order, and leaves none if there are not
    more items than fields. -/
private theorem gather_array_iff {js : List Json} : (place : Nat) → (fields : Fields) →
    {vs : fields.Values} →
      (fields.Gather reads (.array js) place vs ∧ js.length ≤ place + fields.length ↔
        fields.Takes reads (js.drop place) vs)
  | place, .nil, () => by
    rw [Gather, Takes, List.drop_eq_nil_iff, true_and]
    exact Iff.rfl
  | place, .cons name shape mayBeLeftOut rest, (v, vs) => by
    have hrest : rest.Gather reads (.array js) (place + 1) vs ∧ _ ↔ _ :=
      gather_array_iff (place + 1) rest
    -- What is offered at a place is the item there, if there is one.
    have hfirst : offered name place (.array js) = (js.drop place).take 1 := by
      rw [offered, List.take_one, List.head?_drop]
    have hlength :
        place + (cons name shape mayBeLeftOut rest).length = place + 1 + rest.length := by
      rw [length]
      omega
    rw [Gather, Takes, and_assoc, hlength, hrest, hfirst, List.drop_drop]

end Fields

/-- A record whose first field cannot be left out is read off an object or an array, and in both of
    them off what there is for each field. -/
theorem Shape.ofJson_record_iff {kind : TreeKind} {title name : String} {shape : Shape}
    {rest : Fields} (hnames : (Fields.cons name shape false rest).names.Nodup) {j : Json}
    {vs : (Fields.cons name shape false rest).Values} :
    (Shape.record title (.cons name shape false rest)).ofJson kind j = .ok vs ↔
      (Fields.cons name shape false rest).Gather (Yields fun shape j => shape.ofJson kind j) j 0
          vs ∧
        j.HasAtMost (rest.length + 1) := by
  cases j with
  | object ms =>
    refine (Fields.ofRecord_object_iff hnames).trans ?_
    exact (Fields.gather_object_iff 0 _).symm.trans (and_iff_left trivial).symm
  | array js =>
    -- The fields take all items from the first one on.
    have hgather : (Fields.cons name shape false rest).Gather
        (Yields fun shape j => shape.ofJson kind j) (.array js) 0 vs ∧ _ ↔ _ :=
      Fields.gather_array_iff 0 _
    rw [Nat.zero_add, List.drop_zero] at hgather
    exact (Fields.ofItems_iff _).trans hgather.symm
  | null | bool _ | number _ | string _ =>
    -- There is nothing for the first field.
    obtain ⟨v, vs⟩ := vs
    exact ⟨nofun, fun h => nomatch h.1.1⟩

/-- The tree has one value for a field, with the given property. -/
def Has (j : Json) (name : String) (place : Nat) (p : Json → Prop) : Prop :=
  ∃ value, offered name place j = [value] ∧ p value

namespace Fields

variable {reads : (shape : Shape) → Json → shape.Value → Prop} {j : Json} {place : Nat}
  {name : String} {shape : Shape} {v : shape.Value} {p : Json → Prop}

/-- A record gathers its first field and then the others, whatever form the object has. -/
theorem gather_cons_iff {rest : Fields} {vs : rest.Values} {q : Prop}
    (hfirst : ∀ value, reads shape value v ↔ p value)
    (hrest : rest.Gather reads j (place + 1) vs ↔ q) :
    (cons name shape false rest).Gather reads j place (v, vs) ↔ j.Has name place p ∧ q := by
  refine and_congr (gets_required_iff.trans ?_) hrest
  simp only [hfirst]
  exact Iff.rfl

/-- The last field is gathered alone. -/
theorem gather_last_iff (hfirst : ∀ value, reads shape value v ↔ p value) :
    (cons name shape false .nil).Gather reads j place (v, ()) ↔ j.Has name place p :=
  (gather_cons_iff (q := True) hfirst Iff.rfl).trans (and_iff_left trivial)

end Fields

end KvmConsole.Json
