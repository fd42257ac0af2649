import KvmConsole.Proofs.Json.Records

/-!
# Records in collapsed objects

A collapsed object has lost the order of its members, and of members that share a name all but the
last. A record looks at the members that have the names of its fields, and it refuses such a name
when it comes again. So if those names do not repeat, a record reads the same off an object and off
the collapsed one, however often other names do.

Key results:
* `Fields.placeAll_filter`: members of unknown names do not matter.
* `Fields.nodup_of_placeAll`: the names of the fields do not repeat in what can be read.
* `Fields.placeAll_collapse_iff`: a record reads the same off the collapsed object.
-/

namespace KvmConsole.Json

namespace Fields

/-- The member has the name of a field. -/
def knows {α : Type} (fields : Fields) (m : String × α) : Bool := m.1 ∈ fields.names

variable {α ε : Type} {read : (shape : Shape) → α → Except ε shape.Value} {twice : String → ε}

/-- A record knows the names of its fields. -/
private theorem knows_iff {fields : Fields} {m : String × α} :
    fields.knows m = true ↔ m.1 ∈ fields.names :=
  decide_eq_true_iff

/-! ## Unknown names -/

/-- A member of an unknown name is only passed over. -/
private theorem place_of_unknown {pass : α → Except ε Unit} {name : String} {a : α} :
    (fields : Fields) → name ∉ fields.names → (slots : fields.Slots) →
      fields.place read pass twice name a slots = (pass a).map fun _ => slots
  | .nil, _, () => by
    rw [place]
    cases pass a <;> rfl
  | .cons n shape _ rest, hname, (slot, slots) => by
    obtain ⟨hhead, htail⟩ := not_or.mp (mt List.mem_cons.mpr hname)
    rw [place, if_neg hhead, place_of_unknown rest htail slots]
    cases pass a <;> rfl

/-- Where unknown names are passed over, nothing else is done with them. -/
theorem placeAll_filter (fields : Fields) (members : List (String × α)) (slots : fields.Slots) :
    fields.placeAll read (fun _ => .ok ()) twice (members.filter fields.knows) slots =
      fields.placeAll read (fun _ => .ok ()) twice members slots := by
  induction members generalizing slots with
  | nil => rfl
  | cons m members ih =>
    by_cases hm : m.1 ∈ fields.names
    · rw [List.filter_cons_of_pos (knows_iff.mpr hm), placeAll, placeAll, List.foldlM_cons,
        List.foldlM_cons]
      cases fields.place read (fun _ => .ok ()) twice m.1 m.2 slots with
      | error e => rfl
      | ok between => exact ih between
    · -- The member is dropped on one side and passed over on the other.
      rw [List.filter_cons_of_neg (mt knows_iff.mp hm), ih, placeAll, placeAll, List.foldlM_cons,
        place_of_unknown fields hm]
      rfl

/-! ## Repeated names -/

/-- The slot of a name has a value. -/
def IsFilled (name : String) : (fields : Fields) → fields.Slots → Prop
  | .nil, () => False
  | .cons n _ _ rest, (slot, slots) =>
    if name = n then slot.isSome = true else rest.IsFilled name slots

variable {pass : α → Except ε Unit}

/-- A member fills the slot of its name, which has been empty. -/
private theorem isFilled_of_place {name : String} {a : α} :
    (fields : Fields) → name ∈ fields.names → {slots slots' : fields.Slots} →
      fields.place read pass twice name a slots = .ok slots' →
      ¬ fields.IsFilled name slots ∧ fields.IsFilled name slots'
  | .cons n shape _ rest, hname, (slot, slots), (slot', slots'), hplace => by
    rw [IsFilled, IsFilled]
    rcases place_cons_eq_ok_iff.mp hplace with ⟨rfl, rfl, ⟨v, -, rfl⟩, -⟩ | ⟨hne, -, hplace⟩
    · simp
    · rw [if_neg hne, if_neg hne]
      exact isFilled_of_place rest ((List.mem_cons.mp hname).resolve_left hne) hplace

/-- No member empties a slot. -/
theorem IsFilled.place {name name' : String} {a : α} :
    (fields : Fields) → {slots slots' : fields.Slots} → fields.IsFilled name slots →
      fields.place read pass twice name' a slots = .ok slots' → fields.IsFilled name slots'
  | .nil, (), (), hfilled, _ => hfilled
  | .cons n shape _ rest, (slot, slots), (slot', slots'), hfilled, hplace => by
    rw [IsFilled] at hfilled ⊢
    -- A slot is only ever filled, be it the first or a later one.
    rcases place_cons_eq_ok_iff.mp hplace with ⟨-, rfl, ⟨v, -, rfl⟩, rfl⟩ | ⟨-, rfl, hrest⟩
    · by_cases hname : name = n
      · rw [if_pos hname]
        rfl
      · rw [if_neg hname] at hfilled ⊢
        exact hfilled
    · by_cases hname : name = n
      · rw [if_pos hname] at hfilled ⊢
        exact hfilled
      · rw [if_neg hname] at hfilled ⊢
        exact hfilled.place rest hrest

/-- Members that are read one after the other do not repeat the name of a field, and none has the
    name of a slot that was filled before. -/
theorem nodup_of_placeAll {fields : Fields} {members : List (String × α)}
    {slots slots' : fields.Slots}
    (hall : fields.placeAll read pass twice members slots = .ok slots') :
    ((members.filter fields.knows).map Prod.fst).Nodup ∧
      ∀ name ∈ (members.filter fields.knows).map Prod.fst, ¬ fields.IsFilled name slots := by
  induction members generalizing slots with
  | nil => exact ⟨List.nodup_nil, nofun⟩
  | cons m members ih =>
    obtain ⟨between, hplace, hall⟩ := placeAll_cons_eq_ok_iff.mp hall
    obtain ⟨hnodup, hempty⟩ := ih hall
    -- A slot that is empty after the first member was empty before it.
    have hbefore : ∀ name ∈ (members.filter fields.knows).map Prod.fst,
        ¬ fields.IsFilled name slots := by
      intro name hname hfilled
      exact hempty name hname (hfilled.place fields hplace)
    -- A known member fills its slot, which must have been empty.
    by_cases hm : m.1 ∈ fields.names
    · obtain ⟨hfirst, hfilled⟩ := isFilled_of_place fields hm hplace
      rw [List.filter_cons_of_pos (knows_iff.mpr hm), List.map_cons]
      refine ⟨List.nodup_cons.mpr ⟨fun hmem => hempty m.1 hmem hfilled, hnodup⟩, ?_⟩
      intro name hname
      rcases List.mem_cons.mp hname with rfl | hname
      · exact hfirst
      · exact hbefore name hname
    · rw [List.filter_cons_of_neg (mt knows_iff.mp hm)]
      exact ⟨hnodup, hbefore⟩

/-! ## Collapsed objects -/

/-- A record reads the same off an object and off the collapsed one. -/
theorem placeAll_collapse_iff {read : (shape : Shape) → Json → Except ε shape.Value}
    {fields : Fields} {members : List (String × Json)}
    (hnames : ((members.filter fields.knows).map Prod.fst).Nodup) {slots slots' : fields.Slots} :
    fields.placeAll read (fun _ => .ok ()) twice
        (members.foldl (fun acc m => insertMember m.1 m.2 acc) []) slots = .ok slots' ↔
      fields.placeAll read (fun _ => .ok ()) twice members slots = .ok slots' := by
  -- Only the members of known names count, and of these collapsing changes the order alone.
  rw [← placeAll_filter, ← placeAll_filter fields members]
  have hperm := filter_foldl_insertMember_perm (· ∈ fields.names) members []
    (by rwa [List.append_nil])
  rw [List.append_nil] at hperm
  constructor
  · exact placeAll_of_perm hperm ((hperm.map Prod.fst).symm.nodup hnames)
  · exact placeAll_of_perm hperm.symm hnames

end Fields

end KvmConsole.Json
