import KvmConsole.Json.Shape
import KvmConsole.Proofs.Json.Values

/-!
# Records read back

Both readers of records go through the members of an object and put each value into the slot of its
name. `Fields.place` is that step for either of them. Where no name is repeated, two steps can
change places, so what the slots hold in the end does not depend on the order of the members; and in
the order of declaration the slots fill from front to back.

Key results:
* `Fields.placeAll_of_perm`: members whose names differ may come in any order.
* `Shape.read_record`, `Shape.ofJson_record`: a record is read off members that match its fields, in
  any order, by either reader.
* `collapse_object`: collapsing an object whose names differ only changes the order.
* `Shape.ofJson_collapse_record`: a record is read off its collapsed object.
-/

namespace KvmConsole.Json

/-! ## Numbers in fields -/

/-- A natural number becomes an integer of a kind if it is in the range of the kind. -/
private theorem ofNumber_of_ofInt? {kind : IntegerKind} {n : UInt64} {v : kind.Value}
    (h : kind.ofInt? n.toNat = some v) : kind.ofNumber (.natural n) = .ok v := by
  simp only [IntegerKind.ofNumber, h]

/-- The range of 64 bits without a sign. -/
private theorem ofInt?_unsigned64 {i : Int} (hi : 0 ≤ i ∧ i < 18446744073709551616) :
    IntegerKind.unsigned64.ofInt? i = some (UInt64.ofNat i.toNat) := by
  simp only [IntegerKind.ofInt?, if_pos hi]

/-- A number without a sign fits a field of 64 bits. -/
private theorem ofNumber_natural (n : UInt64) :
    IntegerKind.unsigned64.ofNumber (.natural n) = .ok n := by
  have hlt : n.toNat < 18446744073709551616 := n.toNat_lt
  have hfits := ofInt?_unsigned64 ⟨Int.natCast_nonneg n.toNat, Int.ofNat_lt.mpr hlt⟩
  rw [Int.toNat_natCast, UInt64.ofNat_toNat] at hfits
  exact ofNumber_of_ofInt? hfits

/-! ## Members in slots -/

namespace Fields

def names : Fields → List String
  | .nil => []
  | .cons name _ _ rest => name :: rest.names

/-- Puts a member into the slot of its name: the common form of the two readers of members. `read`
    reads its value, `pass` passes over a member of an unknown name, and `twice` refuses a name that
    came before. -/
def place {α ε : Type} (read : (shape : Shape) → α → Except ε shape.Value)
    (pass : α → Except ε Unit) (twice : String → ε) (name : String) (value : α) :
    (fields : Fields) → fields.Slots → Except ε fields.Slots
  | .nil, () => pass value
  | .cons n shape _ rest, (slot, slots) =>
    if name = n then
      if slot.isSome then .error (twice name) else (read shape value).map fun v => (some v, slots)
    else (rest.place read pass twice name value slots).map fun slots => (slot, slots)

/-- The reader of drafts places its members. -/
theorem readMember_eq_place {α : Type} (room : Nat) (draft : α → Draft) (name : String) (a : α) :
    (fields : Fields) → (slots : fields.Slots) →
      fields.readMember room name (draft a) slots =
        fields.place (fun shape a => shape.read room (draft a)) (fun a => (draft a).skip)
          (fun name => .mismatch (.duplicateField name)) name a slots
  | .nil, () => by
    rw [readMember, place]
    cases (draft a).skip <;> rfl
  | .cons n shape _ rest, (slot, slots) => by
    rw [readMember, place, readMember_eq_place room draft name a rest slots]

/-- The reader of trees places its members. -/
theorem ofMember_eq_place (kind : TreeKind) (name : String) (value : Json) :
    (fields : Fields) → (slots : fields.Slots) →
      fields.ofMember kind name value slots =
        fields.place (fun shape j => shape.ofJson kind j) (fun _ => .ok ()) .duplicateField name
          value slots
  | .nil, () => by
    rw [ofMember, place]
    rfl
  | .cons n shape _ rest, (slot, slots) => by
    rw [ofMember, place, ofMember_eq_place kind name value rest slots]

variable {α ε : Type} {read : (shape : Shape) → α → Except ε shape.Value}
  {pass : α → Except ε Unit} {twice : String → ε}

/-- A member goes into the slot of the first field, or is placed among the others. -/
theorem place_cons_eq_ok_iff {n name : String} {shape : Shape} {mayBeLeftOut : Bool}
    {rest : Fields} {a : α} {slot slot' : Option shape.Value} {slots slots' : rest.Slots} :
    (cons name shape mayBeLeftOut rest).place read pass twice n a (slot, slots) =
        .ok (slot', slots') ↔
      (n = name ∧ slot = none ∧ (∃ v, read shape a = .ok v ∧ slot' = some v) ∧ slots' = slots) ∨
      (n ≠ name ∧ slot' = slot ∧ rest.place read pass twice n a slots = .ok slots') := by
  -- The slots of a record with a field are pairs.
  have hpair (s : Option shape.Value) (t : rest.Slots) :
      (Except.ok (s, t) : Except ε (cons name shape mayBeLeftOut rest).Slots) =
        .ok (slot', slots') ↔ slot' = s ∧ slots' = t :=
    ⟨fun h => by obtain ⟨rfl, rfl⟩ := Prod.mk.inj (Except.ok.inj h); exact ⟨rfl, rfl⟩,
      fun ⟨hs, ht⟩ => by rw [hs, ht]⟩
  rw [place]
  by_cases hname : n = name
  · rw [if_pos hname]
    cases slot with
    | some v => simp [hname]
    | none => cases read shape a <;> simp [hname, Except.map, hpair]
  · rw [if_neg hname]
    cases rest.place read pass twice n a slots <;> simp [hname, Except.map, hpair, eq_comm]

/-- Members of two names can change places. -/
private theorem place_comm {n m : String} (hne : n ≠ m) (a b : α) :
    (fields : Fields) → {slots slots' slots'' : fields.Slots} →
      fields.place read pass twice n a slots = .ok slots' →
      fields.place read pass twice m b slots' = .ok slots'' →
      ∃ between, fields.place read pass twice m b slots = .ok between ∧
        fields.place read pass twice n a between = .ok slots''
  | .nil, (), (), (), hn, hm => ⟨(), hm, hn⟩
  | .cons name shape _ rest, (slot, slots), (slot', slots'), (slot'', slots''), hn, hm => by
    rw [place_cons_eq_ok_iff] at hn hm
    -- Either member may be the one of the first field, but not both.
    rcases hn with ⟨hname, hslot, hread, hslots⟩ | ⟨hname, hslot, hplace⟩ <;>
      rcases hm with ⟨hname', hslot', hread', hslots'⟩ | ⟨hname', hslot', hplace'⟩
    · exact absurd (hname.trans hname'.symm) hne
    · subst hslots hslot'
      exact ⟨(slot, slots''), place_cons_eq_ok_iff.mpr (.inr ⟨hname', rfl, hplace'⟩),
        place_cons_eq_ok_iff.mpr (.inl ⟨hname, hslot, hread, rfl⟩)⟩
    · subst hslot hslots'
      exact ⟨(slot'', slots), place_cons_eq_ok_iff.mpr (.inl ⟨hname', hslot', hread', rfl⟩),
        place_cons_eq_ok_iff.mpr (.inr ⟨hname, rfl, hplace⟩)⟩
    · obtain ⟨between, hfirst, hsecond⟩ := place_comm hne a b rest hplace hplace'
      exact ⟨(slot, between), place_cons_eq_ok_iff.mpr (.inr ⟨hname', rfl, hfirst⟩),
        place_cons_eq_ok_iff.mpr (.inr ⟨hname, hslot'.trans hslot, hsecond⟩)⟩

/-- Places members one after the other. -/
def placeAll (read : (shape : Shape) → α → Except ε shape.Value) (pass : α → Except ε Unit)
    (twice : String → ε) (fields : Fields) (members : List (String × α)) (slots : fields.Slots) :
    Except ε fields.Slots :=
  members.foldlM (fun slots m => fields.place read pass twice m.1 m.2 slots) slots

/-- Members are placed one after the other. -/
theorem placeAll_cons_eq_ok_iff {fields : Fields} {m : String × α} {members : List (String × α)}
    {slots slots' : fields.Slots} :
    fields.placeAll read pass twice (m :: members) slots = .ok slots' ↔
      ∃ between, fields.place read pass twice m.1 m.2 slots = .ok between ∧
        fields.placeAll read pass twice members between = .ok slots' := by
  rw [placeAll, List.foldlM_cons]
  cases fields.place read pass twice m.1 m.2 slots <;>
    simp [placeAll, bind, Except.bind]

/-- Members whose names differ may come in any order. -/
theorem placeAll_of_perm {fields : Fields} {members members' : List (String × α)}
    (hperm : members.Perm members') (hnames : (members.map Prod.fst).Nodup)
    {slots slots' : fields.Slots}
    (hall : fields.placeAll read pass twice members slots = .ok slots') :
    fields.placeAll read pass twice members' slots = .ok slots' := by
  -- A permutation is made of swaps of neighbours, and each of those is `place_comm`.
  induction hperm generalizing slots with
  | nil => exact hall
  | cons m hperm ih =>
    obtain ⟨between, hplace, hall⟩ := placeAll_cons_eq_ok_iff.mp hall
    exact placeAll_cons_eq_ok_iff.mpr ⟨between, hplace, ih (List.nodup_cons.mp hnames).2 hall⟩
  | swap m m' members =>
    obtain ⟨between, hplace, hall⟩ := placeAll_cons_eq_ok_iff.mp hall
    obtain ⟨between', hplace', hall⟩ := placeAll_cons_eq_ok_iff.mp hall
    have hne : m'.1 ≠ m.1 := by
      intro heq
      exact (List.nodup_cons.mp hnames).1 (heq ▸ List.mem_cons_self)
    obtain ⟨other, hfirst, hsecond⟩ := place_comm hne m'.2 m.2 fields hplace hplace'
    exact placeAll_cons_eq_ok_iff.mpr
      ⟨other, hfirst, placeAll_cons_eq_ok_iff.mpr ⟨between', hsecond, hall⟩⟩
  | trans hperm _ ih ih' =>
    exact ih' ((hperm.map Prod.fst).nodup hnames) (ih hnames hall)

/-- Each field of a record has its member, in the order of declaration, and its value is what the
    member reads as. -/
def Matches (read : (shape : Shape) → α → Except ε shape.Value) :
    (fields : Fields) → List (String × α) → fields.Values → Prop
  | .nil, members, () => members = []
  | .cons name shape _ rest, members, (v, vs) =>
    ∃ a members', members = (name, a) :: members' ∧ read shape a = .ok v ∧
      rest.Matches read members' vs

/-- No members match no fields. -/
theorem Matches.nil : Fields.nil.Matches read [] () := rfl

/-- One more member that matches one more field. -/
theorem Matches.cons {name : String} {shape : Shape} {mayBeLeftOut : Bool} {rest : Fields} {a : α}
    {members : List (String × α)} {v : shape.Value} {vs : rest.Values}
    (hread : read shape a = .ok v) (hrest : rest.Matches read members vs) :
    (Fields.cons name shape mayBeLeftOut rest).Matches read ((name, a) :: members) (v, vs) :=
  ⟨a, members, rfl, hread, hrest⟩

/-- Members that match have the names of the fields. -/
theorem Matches.names_eq : (fields : Fields) → {members : List (String × α)} →
    {vs : fields.Values} → fields.Matches read members vs →
      members.map Prod.fst = fields.names
  | .nil, _, (), rfl => rfl
  | .cons name _ _ rest, _, (_, _), ⟨a, members', rfl, _, hrest⟩ => by
    rw [List.map_cons, hrest.names_eq rest, names]

/-- A slot stays as it is while no member has its name. -/
private theorem placeAll_cons_of_not_mem {name : String} {shape : Shape} {mayBeLeftOut : Bool}
    {rest : Fields} {members : List (String × α)} (hname : name ∉ members.map Prod.fst)
    {slot : Option shape.Value} {slots slots' : rest.Slots}
    (hrest : rest.placeAll read pass twice members slots = .ok slots') :
    (cons name shape mayBeLeftOut rest).placeAll read pass twice members (slot, slots) =
      .ok (slot, slots') := by
  induction members generalizing slots with
  | nil =>
    obtain rfl := Except.ok.inj hrest
    rfl
  | cons m members ih =>
    obtain ⟨hhead, htail⟩ := not_or.mp (mt List.mem_cons.mpr hname)
    obtain ⟨between, hplace, hall⟩ := placeAll_cons_eq_ok_iff.mp hrest
    exact placeAll_cons_eq_ok_iff.mpr ⟨(slot, between),
      place_cons_eq_ok_iff.mpr (.inr ⟨Ne.symm hhead, rfl, hplace⟩), ih htail hall⟩

/-- In the order of declaration the members fill the slots with their values. -/
theorem Matches.placeAll : (fields : Fields) → fields.names.Nodup →
    {members : List (String × α)} → {vs : fields.Values} → fields.Matches read members vs →
      ∃ slots, fields.placeAll read pass twice members fields.noSlots = .ok slots ∧
        fields.finish slots = .ok vs
  | .nil, _, _, (), rfl => ⟨(), rfl, rfl⟩
  | .cons name shape _ rest, hnames, _, (v, vs), ⟨a, members, rfl, hread, hrest⟩ => by
    obtain ⟨hname, hnames⟩ := List.nodup_cons.mp hnames
    obtain ⟨slots, hall, hfinish⟩ := Matches.placeAll rest hnames hrest
    -- The later members have the names of the later fields, so none disturbs the first slot.
    rw [← hrest.names_eq rest] at hname
    refine ⟨(some v, slots), placeAll_cons_eq_ok_iff.mpr ⟨(some v, rest.noSlots),
      place_cons_eq_ok_iff.mpr (.inl ⟨rfl, rfl, ⟨v, hread, rfl⟩, rfl⟩),
      placeAll_cons_of_not_mem hname hall⟩, ?_⟩
    simp only [finish, hfinish]
    rfl

/-- Members that match can be placed in any order. -/
theorem Matches.placeAll_of_perm {fields : Fields} {members members' : List (String × α)}
    {vs : fields.Values} (hmatches : fields.Matches read members vs) (pass : α → Except ε Unit)
    (twice : String → ε) (hnames : fields.names.Nodup) (hperm : members.Perm members') :
    ∃ slots, fields.placeAll read pass twice members' fields.noSlots = .ok slots ∧
      fields.finish slots = .ok vs := by
  obtain ⟨slots, hall, hfinish⟩ := Matches.placeAll fields hnames hmatches
  rw [← hmatches.names_eq fields] at hnames
  exact ⟨slots, Fields.placeAll_of_perm hperm hnames hall, hfinish⟩

end Fields

/-! ## The two readers of records -/

/-- The draft of an object is gone through member by member. -/
private theorem fold_ofJson {σ : Type} (step : String → Draft → σ → Except Fault σ) :
    (members : List (String × Json)) → (state : σ) →
      (Members.ofJson members).fold step state =
        members.foldlM (fun state m => step m.1 (Draft.ofJson m.2) state) state
  | [], _ => rfl
  | (name, value) :: members, state => by
    rw [Members.ofJson, Members.fold, List.foldlM_cons]
    cases step name (Draft.ofJson value) state with
    | error f => rfl
    | ok state => exact fold_ofJson step members state

/-- A record is read off an object by placing its members. -/
theorem Shape.read_object (title : String) (fields : Fields) (room : Nat) (members : Members) :
    (Shape.record title fields).read (room + 1) (.object members) =
      match members.fold (fun name value slots => fields.readMember room name value slots)
        fields.noSlots with
      | .error f => .error f
      | .ok slots => (fields.finish slots).mapError .mismatch := rfl

/-- A record is read off a tree as an object or as an array. -/
theorem Shape.ofJson_eq_readRecord (kind : TreeKind) (title : String) (fields : Fields) (j : Json) :
    (Shape.record title fields).ofJson kind j =
      readRecord ("struct " ++ title) fields.length
        (fun expected length items => fields.ofItems kind expected length 0 items)
        fields.noSlots (fun name value slots => fields.ofMember kind name value slots)
        fields.finish j := rfl

/-- A record is read off the draft of its members, in any order. -/
theorem Shape.read_record {title : String} {fields : Fields} {room : Nat}
    {members members' : List (String × Json)} {vs : fields.Values} (hnames : fields.names.Nodup)
    (hmatches : fields.Matches (fun shape j => shape.read room (Draft.ofJson j)) members vs)
    (hperm : members.Perm members') :
    (Shape.record title fields).read (room + 1) (Draft.ofJson (.object members')) = .ok vs := by
  obtain ⟨slots, hall, hfinish⟩ := hmatches.placeAll_of_perm (fun j => (Draft.ofJson j).skip)
    (fun name => .mismatch (.duplicateField name)) hnames hperm
  have hfold : (Members.ofJson members').fold
      (fun name d slots => fields.readMember room name d slots) fields.noSlots = .ok slots := by
    simp only [fold_ofJson, Fields.readMember_eq_place, ← hall, Fields.placeAll]
  rw [Draft.ofJson, Shape.read_object, hfold]
  simp only [hfinish]
  rfl

/-- A record is read off a tree of its members, in any order. -/
theorem Shape.ofJson_record {kind : TreeKind} {title : String} {fields : Fields}
    {members members' : List (String × Json)} {vs : fields.Values} (hnames : fields.names.Nodup)
    (hmatches : fields.Matches (fun shape j => shape.ofJson kind j) members vs)
    (hperm : members.Perm members') :
    (Shape.record title fields).ofJson kind (.object members') = .ok vs := by
  obtain ⟨slots, hall, hfinish⟩ := hmatches.placeAll_of_perm (fun _ => .ok ()) .duplicateField
    hnames hperm
  have hfold : members'.foldlM (fun slots m => fields.ofMember kind m.1 m.2 slots) fields.noSlots =
      .ok slots := by
    simp only [Fields.ofMember_eq_place, ← hall, Fields.placeAll]
  rw [Shape.ofJson_eq_readRecord, readRecord, hfold]
  exact hfinish

/-- An integer is read off the draft of a number. -/
private theorem Shape.read_integer (kind : IntegerKind) (room : Nat) (n : Number) :
    (Shape.integer kind).read room (Draft.ofJson (.number n)) =
      (kind.ofNumber n).mapError .mismatch := rfl

/-- An integer is read off a number. -/
private theorem Shape.ofJson_integer (kind : TreeKind) (integers : IntegerKind) (n : Number) :
    (Shape.integer integers).ofJson kind (.number n) = integers.ofNumber n := rfl

/-- A natural number is read off its draft. -/
theorem Shape.read_natural (room : Nat) (n : UInt64) :
    (Shape.integer .unsigned64).read room (Draft.ofJson (.number (.natural n))) = .ok n := by
  rw [Shape.read_integer, ofNumber_natural]
  rfl

/-- A natural number is read off its tree. -/
theorem Shape.ofJson_natural (kind : TreeKind) (n : UInt64) :
    (Shape.integer .unsigned64).ofJson kind (.number (.natural n)) = .ok n := by
  rw [Shape.ofJson_integer, ofNumber_natural]
  rfl

/-- Only null is read as nothing. -/
theorem Shape.read_optional {shape : Shape} {room : Nat} {j : Json} {v : shape.Value}
    (hj : j ≠ .null) (hread : shape.read room (Draft.ofJson j) = .ok v) :
    (Shape.optional shape).read room (Draft.ofJson j) = .ok (some v) := by
  cases j with
  | null => exact absurd rfl hj
  | bool _ | number _ | string _ | array _ | object _ => exact congrArg (Except.map some) hread

/-- What is there is read as something that may be missing. -/
theorem Shape.ofJson_optional {kind : TreeKind} {shape : Shape} {j : Json} {v : shape.Value}
    (hj : j ≠ .null) (hread : shape.ofJson kind j = .ok v) :
    (Shape.optional shape).ofJson kind j = .ok (some v) := by
  cases j with
  | null => exact absurd rfl hj
  | bool _ | number _ | string _ | array _ | object _ => exact congrArg (Except.map some) hread

/-- A value of any shape is kept as a tree. -/
theorem Shape.read_anything {room : Nat} {d : Draft} {j : Json} (hj : d.toJson room = .ok j) :
    Shape.anything.read room d = .ok j.collapse :=
  congrArg (Except.map Json.collapse) hj

/-! ## Collapsed objects -/

/-- A new name is inserted somewhere. -/
private theorem insertMember_perm {name : String} (value : Json) {members : List (String × Json)}
    (hname : name ∉ members.map Prod.fst) :
    (insertMember name value members).Perm ((name, value) :: members) := by
  induction members with
  | nil => exact List.Perm.refl _
  | cons m members ih =>
    obtain ⟨n, v⟩ := m
    obtain ⟨hhead, htail⟩ := not_or.mp (mt List.mem_cons.mpr hname)
    rw [insertMember, if_neg hhead]
    split
    · exact List.Perm.refl _
    · exact ((ih htail).cons _).trans (List.Perm.swap _ _ _)

/-- A member of another kind is not seen among those of one kind. -/
private theorem filter_insertMember_of_neg {p : String → Bool} {name : String} (hname : ¬ p name)
    (value : Json) (members : List (String × Json)) :
    (insertMember name value members).filter (fun m => p m.1) =
      members.filter (fun m => p m.1) := by
  induction members with
  | nil => simp [insertMember, hname]
  | cons m members ih =>
    obtain ⟨n, v⟩ := m
    rw [insertMember]
    -- The inserted member takes the place of one of its name, stops before a greater one, or goes
    -- further.
    by_cases hn : name = n
    · subst hn
      simp [hname]
    · rw [if_neg hn]
      split
      · simp [hname]
      · rw [List.filter_cons, List.filter_cons, ih]

/-- Of the members whose names are of one kind, none is lost if no such name is repeated. -/
theorem filter_foldl_insertMember_perm (p : String → Bool) (members acc : List (String × Json))
    (hnames : (((members ++ acc).filter fun m => p m.1).map Prod.fst).Nodup) :
    ((members.foldl (fun acc m => insertMember m.1 m.2 acc) acc).filter fun m => p m.1).Perm
      ((members ++ acc).filter fun m => p m.1) := by
  induction members generalizing acc with
  | nil => exact List.Perm.refl _
  | cons m members ih =>
    rw [List.foldl_cons]
    by_cases hm : p m.1
    · rw [List.cons_append, List.filter_cons, if_pos hm, List.map_cons, List.nodup_cons] at hnames
      have hfresh : m.1 ∉ acc.map Prod.fst := by
        intro hmem
        obtain ⟨x, hx, hname⟩ := List.mem_map.mp hmem
        refine hnames.1 (List.mem_map.mpr ⟨x, List.mem_filter.mpr ⟨?_, ?_⟩, hname⟩)
        · exact List.mem_append_right _ hx
        · rw [hname]
          exact hm
      -- The member goes somewhere into the list, and the others follow it there.
      have hmoved : ((members ++ insertMember m.1 m.2 acc).filter fun m => p m.1).Perm
          (m :: (members ++ acc).filter fun m => p m.1) := by
        have hperm := (((insertMember_perm m.2 hfresh).append_left members).trans
          List.perm_middle).filter fun m => p m.1
        rwa [List.filter_cons, if_pos hm] at hperm
      rw [List.cons_append, List.filter_cons, if_pos hm]
      refine (ih _ ((hmoved.map Prod.fst).symm.nodup ?_)).trans hmoved
      rw [List.map_cons]
      exact List.nodup_cons.mpr hnames
    · have hsame : (members ++ insertMember m.1 m.2 acc).filter (fun m => p m.1) =
          ((m :: members) ++ acc).filter fun m => p m.1 := by
        rw [List.cons_append, List.filter_cons, if_neg hm, List.filter_append, List.filter_append,
          filter_insertMember_of_neg hm]
      rw [← hsame] at hnames ⊢
      exact ih _ hnames

/-- Where no name is repeated, an object keeps its members, though in another order. -/
theorem collapse_object {members : List (String × Json)}
    (hnames : ((collapseMembers members).map Prod.fst).Nodup) :
    ∃ members', (Json.object members).collapse = .object members' ∧
      (collapseMembers members).Perm members' := by
  refine ⟨_, by rw [collapse], ?_⟩
  have htrue (l : List (String × Json)) : (l.filter fun _ => true) = l :=
    List.filter_eq_self.mpr fun _ _ => rfl
  have hperm := filter_foldl_insertMember_perm (fun _ => true) (collapseMembers members) []
    (by rwa [htrue, List.append_nil])
  rw [htrue, htrue, List.append_nil] at hperm
  exact hperm.symm

/-- A record is read off a collapsed object, which has its members sorted. -/
theorem Shape.ofJson_collapse_record {title : String} {fields : Fields}
    {members : List (String × Json)} {vs : fields.Values} (hnames : fields.names.Nodup)
    (hmatches : fields.Matches (fun shape j => shape.ofJson .collapsed j)
      (collapseMembers members) vs) :
    (Shape.record title fields).ofJson .collapsed (Json.object members).collapse = .ok vs := by
  obtain ⟨members', hcollapse, hperm⟩ := collapse_object (hmatches.names_eq fields ▸ hnames)
  rw [hcollapse]
  exact Shape.ofJson_record hnames hmatches hperm

end KvmConsole.Json
