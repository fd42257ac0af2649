import KvmConsole.Proofs.Json.Records
import Mathlib.Data.List.Forall2

/-!
# Records as lookups

Both readers of records go through the members of an object one after the other. What they find does
not depend on that: a field gets the value of the one member that has its name, or the value for
fields that are left out if there is none. A name that comes twice is refused, and of a member of an
unknown name it matters only whether it can be passed over. In an array the values are taken in the
order of the fields.

Key results:
* `under_of_perm`: without repeated names, the order of members does not matter to lookups.
* `Fields.placeAll_finish_iff`: what either reader of members finds.
* `Fields.finds_forall₂_iff`, `Fields.takes_forall₂_iff`: looking up what the values stand for.
-/

namespace KvmConsole.Json

/-! ## Members by name -/

/-- The values of the members of a name, in their order. -/
def under {α : Type} (name : String) (members : List (String × α)) : List α :=
  members.filterMap fun m => if m.1 = name then some m.2 else none

section Under

variable {α β : Type} {name other : String} {a : α} {members members' : List (String × α)}

/-- The first member is under its name. -/
theorem under_cons_self : under name ((name, a) :: members) = a :: under name members := by
  simp [under]

/-- The first member is not under another name. -/
theorem under_cons_of_ne (h : other ≠ name) :
    under name ((other, a) :: members) = under name members := by
  simp [under, h]

/-- What is under a name in two lists. -/
theorem under_append :
    under name (members ++ members') = under name members ++ under name members' :=
  List.filterMap_append

/-- Names are looked up alike when the values are changed. -/
private theorem under_map (f : α → β) :
    under name (members.map fun m => (m.1, f m.2)) = (under name members).map f := by
  induction members with
  | nil => rfl
  | cons m members ih =>
    obtain ⟨other, a⟩ := m
    by_cases h : other = name
    · subst h
      rw [List.map_cons, under_cons_self, under_cons_self, List.map_cons, ih]
    · rw [List.map_cons, under_cons_of_ne h, under_cons_of_ne h, ih]

/-- Under a name that is not there, there is nothing. -/
theorem under_eq_nil (h : name ∉ members.map Prod.fst) : under name members = [] := by
  rw [under, List.filterMap_eq_nil_iff]
  intro m hm
  rw [if_neg]
  rintro rfl
  exact h (List.mem_map_of_mem hm)

/-- Where no name is repeated, a name has one value at most. -/
private theorem length_under_le_one (h : (members.map Prod.fst).Nodup) :
    (under name members).length ≤ 1 := by
  induction members with
  | nil => exact Nat.zero_le 1
  | cons m members ih =>
    obtain ⟨other, a⟩ := m
    obtain ⟨hhead, htail⟩ := List.nodup_cons.mp h
    by_cases hname : other = name
    · subst hname
      rw [under_cons_self, under_eq_nil hhead]
      exact Nat.le_refl 1
    · rw [under_cons_of_ne hname]
      exact ih htail

/-- The order of members does not matter to lookups, if no name is repeated. -/
theorem under_of_perm (hperm : members.Perm members') (h : (members.map Prod.fst).Nodup) :
    under name members' = under name members := by
  have hunder : (under name members).Perm (under name members') := hperm.filterMap _
  have hlength : (under name members).length ≤ 1 := length_under_le_one h
  match hvalues : under name members with
  | [] => rw [hvalues] at hunder; exact List.nil_perm.mp hunder
  | [a] => rw [hvalues] at hunder; exact List.singleton_perm.mp hunder |>.symm
  | _ :: _ :: _ => rw [hvalues] at hlength; simp at hlength

end Under

/-! ## What a record finds -/

/-- What a reader yields where it does not fail. -/
abbrev Yields {α ε : Type} (read : (shape : Shape) → α → Except ε shape.Value) (shape : Shape)
    (a : α) (v : shape.Value) : Prop :=
  read shape a = .ok v

/-- What a field gets off the values under its name. -/
def Gets {α : Type} (reads : (shape : Shape) → α → shape.Value → Prop) (shape : Shape)
    (mayBeLeftOut : Bool) : List α → shape.Value → Prop
  | [], v => shape.leftOut? mayBeLeftOut = some v
  | [a], v => reads shape a v
  | _ :: _ :: _, _ => False

/-- A required field gets one value. -/
theorem gets_required_iff {α : Type} {reads : (shape : Shape) → α → shape.Value → Prop}
    {shape : Shape} {values : List α} {v : shape.Value} :
    Gets reads shape false values v ↔ ∃ a, values = [a] ∧ reads shape a v := by
  match values with
  | [] => exact ⟨nofun, by rintro ⟨a, ⟨⟩, -⟩⟩
  | [a] =>
    constructor
    · exact fun h => ⟨a, rfl, h⟩
    · rintro ⟨b, hb, h⟩
      obtain rfl := (List.cons.inj hb).1
      exact h
  | _ :: _ :: _ => exact ⟨False.elim, by rintro ⟨a, ⟨⟩, -⟩⟩

namespace Fields

/-- What the fields get off the members of an object. -/
def Finds {α : Type} (reads : (shape : Shape) → α → shape.Value → Prop) :
    (fields : Fields) → List (String × α) → fields.Values → Prop
  | .nil, _, () => True
  | .cons name shape mayBeLeftOut rest, members, (v, vs) =>
    Gets reads shape mayBeLeftOut (under name members) v ∧ rest.Finds reads members vs

/-- What the fields get off the values of an array. The last ones may be left out. -/
def Takes {α : Type} (reads : (shape : Shape) → α → shape.Value → Prop) :
    (fields : Fields) → List α → fields.Values → Prop
  | .nil, values, () => values = []
  | .cons _ shape mayBeLeftOut rest, values, (v, vs) =>
    Gets reads shape mayBeLeftOut (values.take 1) v ∧ rest.Takes reads (values.drop 1) vs

/-- What the slot of a field holds after the values under its name have been put into it. -/
def FillsSlot {α β : Type} (reads : α → β → Prop) : List α → Option β → Option β → Prop
  | [], slot, slot' => slot' = slot
  | [a], slot, slot' => slot = none ∧ ∃ v, reads a v ∧ slot' = some v
  | _ :: _ :: _, _, _ => False

/-- A value fills a slot that was empty. -/
theorem fillsSlot_cons_iff {α β : Type} {reads : α → β → Prop} {a : α} {values : List α}
    {slot slot' : Option β} :
    FillsSlot reads (a :: values) slot slot' ↔
      slot = none ∧ ∃ v, reads a v ∧ FillsSlot reads values (some v) slot' := by
  cases values with
  | nil => exact Iff.rfl
  | cons b values =>
    -- After one value the slot is no longer empty, so another one is refused.
    refine ⟨False.elim, ?_⟩
    rintro ⟨-, v, -, h⟩
    cases values with
    | nil => exact nomatch h.1
    | cons _ _ => exact h

/-- A slot that has been filled was filled once. -/
theorem fillsSlot_some_iff {α β : Type} {reads : α → β → Prop} {values : List α} {b : β} :
    FillsSlot reads values none (some b) ↔ ∃ a, values = [a] ∧ reads a b := by
  match values with
  | [] => exact ⟨nofun, by rintro ⟨a, ⟨⟩, -⟩⟩
  | [a] =>
    constructor
    · rintro ⟨-, v, hv, hb⟩
      obtain rfl := Option.some.inj hb
      exact ⟨a, rfl, hv⟩
    · rintro ⟨a', ha, hb⟩
      obtain rfl := (List.cons.inj ha).1
      exact ⟨rfl, b, hb, rfl⟩
  | _ :: _ :: _ => exact ⟨False.elim, by rintro ⟨a, ⟨⟩, -⟩⟩

/-- What the slots hold after the members have been put into them. -/
def Fills {α : Type} (reads : (shape : Shape) → α → shape.Value → Prop) :
    (fields : Fields) → List (String × α) → fields.Slots → fields.Slots → Prop
  | .nil, _, (), () => True
  | .cons name shape _ rest, members, (slot, slots), (slot', slots') =>
    FillsSlot (reads shape) (under name members) slot slot' ∧ rest.Fills reads members slots slots'

section Slots

variable {α : Type} {reads : (shape : Shape) → α → shape.Value → Prop}

/-- Without members the slots stay as they are. -/
private theorem fills_nil_iff : (fields : Fields) → {slots slots' : fields.Slots} →
    (fields.Fills reads [] slots slots' ↔ slots' = slots)
  | .nil, (), () => ⟨fun _ => rfl, fun _ => trivial⟩
  | .cons _ _ _ rest, (_, _), (_, _) => by
    rw [Fills, fills_nil_iff rest]
    exact ⟨fun ⟨hslot, hslots⟩ => Prod.ext hslot hslots,
      fun h => ⟨congrArg Prod.fst h, congrArg Prod.snd h⟩⟩

/-- Only members of the names of the fields fill slots. -/
private theorem fills_congr : (fields : Fields) → {members members' : List (String × α)} →
    (∀ name ∈ fields.names, under name members = under name members') →
      {slots slots' : fields.Slots} →
      (fields.Fills reads members slots slots' ↔ fields.Fills reads members' slots slots')
  | .nil, _, _, _, (), () => Iff.rfl
  | .cons _ _ _ rest, _, _, h, (_, _), (_, _) => by
    obtain ⟨hname, hrest⟩ := List.forall_mem_cons.mp h
    rw [Fills, Fills, hname, fills_congr rest hrest]

variable {ε : Type} {read : (shape : Shape) → α → Except ε shape.Value}
  {pass : α → Except ε Unit} {twice : String → ε}

/-- A member and then the others. -/
private theorem place_fills_iff {name : String} {a : α} {members : List (String × α)} :
    (fields : Fields) → fields.names.Nodup → {slots slots' : fields.Slots} →
      ((∃ between, fields.place read pass twice name a slots = .ok between ∧
          fields.Fills (Yields read) members between slots') ↔
        (name ∉ fields.names → pass a = .ok ()) ∧
          fields.Fills (Yields read) ((name, a) :: members) slots slots')
  | .nil, _, (), () => by
    constructor
    · rintro ⟨⟨⟩, hpass, -⟩
      exact ⟨fun _ => hpass, trivial⟩
    · rintro ⟨hpass, -⟩
      exact ⟨(), hpass List.not_mem_nil, trivial⟩
  | .cons n shape mayBeLeftOut rest, hnames, (slot, slots), (slot', slots') => by
    obtain ⟨hfresh, hnames⟩ := List.nodup_cons.mp hnames
    rw [Fills]
    by_cases hname : name = n
    · -- The member goes into the first slot, and no later member may have its name.
      subst hname
      have hrest : rest.Fills (Yields read) ((name, a) :: members) slots slots' ↔
          rest.Fills (Yields read) members slots slots' := by
        refine fills_congr rest fun other hother => under_cons_of_ne ?_
        rintro rfl
        exact hfresh hother
      rw [hrest, under_cons_self]
      rw [fillsSlot_cons_iff]
      constructor
      · rintro ⟨⟨slot₁, slots₁⟩, hplace, hfirst, hothers⟩
        rcases place_cons_eq_ok_iff.mp hplace with ⟨-, rfl, ⟨v, hv, rfl⟩, rfl⟩ | ⟨hne, -, -⟩
        · exact ⟨fun hunknown => absurd List.mem_cons_self hunknown, ⟨rfl, v, hv, hfirst⟩, hothers⟩
        · exact absurd rfl hne
      · rintro ⟨-, ⟨rfl, v, hv, hfirst⟩, hothers⟩
        exact ⟨(some v, slots), place_cons_eq_ok_iff.mpr (.inl ⟨rfl, rfl, ⟨v, hv, rfl⟩, rfl⟩),
          hfirst, hothers⟩
    · -- The member passes the first field, and is placed among the others.
      rw [under_cons_of_ne hname]
      have hunknown : name ∉ (cons n shape mayBeLeftOut rest).names ↔ name ∉ rest.names := by
        rw [names, List.mem_cons, not_or]
        exact and_iff_right hname
      rw [hunknown]
      constructor
      · rintro ⟨⟨slot₁, slots₁⟩, hplace, hfirst, hothers⟩
        rcases place_cons_eq_ok_iff.mp hplace with ⟨heq, -⟩ | ⟨-, rfl, hrest⟩
        · exact absurd heq hname
        · obtain ⟨hpass, hfills⟩ :=
            (place_fills_iff rest hnames).mp ⟨slots₁, hrest, hothers⟩
          exact ⟨hpass, hfirst, hfills⟩
      · rintro ⟨hpass, hfirst, hothers⟩
        obtain ⟨between, hplace, hfills⟩ :=
          (place_fills_iff rest hnames).mpr ⟨hpass, hothers⟩
        exact ⟨(slot, between), place_cons_eq_ok_iff.mpr (.inr ⟨hname, rfl, hplace⟩), hfirst,
          hfills⟩

/-- What all members have been put into. -/
private theorem placeAll_eq_ok_iff {fields : Fields} (hnames : fields.names.Nodup)
    {members : List (String × α)} {slots slots' : fields.Slots} :
    fields.placeAll read pass twice members slots = .ok slots' ↔
      (∀ m ∈ members, m.1 ∉ fields.names → pass m.2 = .ok ()) ∧
        fields.Fills (Yields read) members slots slots' := by
  induction members generalizing slots with
  | nil =>
    rw [fills_nil_iff fields]
    constructor
    · intro h
      exact ⟨nofun, (Except.ok.inj h).symm⟩
    · rintro ⟨-, rfl⟩
      rfl
  | cons m members ih =>
    obtain ⟨name, a⟩ := m
    -- One member is placed, and then the rest.
    rw [placeAll_cons_eq_ok_iff, List.forall_mem_cons]
    constructor
    · rintro ⟨between, hplace, hall⟩
      obtain ⟨hpasses, hfills⟩ := ih.mp hall
      obtain ⟨hpass, hfills⟩ := (place_fills_iff fields hnames).mp ⟨between, hplace, hfills⟩
      exact ⟨⟨hpass, hpasses⟩, hfills⟩
    · rintro ⟨⟨hpass, hpasses⟩, hfills⟩
      obtain ⟨between, hplace, hfills⟩ := (place_fills_iff fields hnames).mpr ⟨hpass, hfills⟩
      exact ⟨between, hplace, ih.mpr ⟨hpasses, hfills⟩⟩

/-- At the end the first field has its value, or may be left out. -/
private theorem finish_cons_eq_ok_iff {name : String} {shape : Shape} {mayBeLeftOut : Bool}
    {rest : Fields} {slot : Option shape.Value} {slots : rest.Slots} {v : shape.Value}
    {vs : rest.Values} :
    (cons name shape mayBeLeftOut rest).finish (slot, slots) = .ok (v, vs) ↔
      (slot <|> shape.leftOut? mayBeLeftOut) = some v ∧ rest.finish slots = .ok vs := by
  -- The values of a record with a field are pairs.
  have hpair (w : shape.Value) (ws : rest.Values) :
      (Except.ok (w, ws) : Except Mismatch (cons name shape mayBeLeftOut rest).Values) =
        .ok (v, vs) ↔ w = v ∧ ws = vs :=
    ⟨fun h => by obtain ⟨rfl, rfl⟩ := Prod.mk.inj (Except.ok.inj h); exact ⟨rfl, rfl⟩,
      fun ⟨hw, hws⟩ => by rw [hw, hws]⟩
  rw [finish]
  cases (slot <|> shape.leftOut? mayBeLeftOut) with
  | none => simp
  | some w => cases rest.finish slots <;> simp [hpair]

/-- What fills a slot and is there at the end is what a field gets. -/
private theorem gets_iff {shape : Shape} {mayBeLeftOut : Bool} {values : List α} {v : shape.Value} :
    (∃ slot, FillsSlot (reads shape) values none slot ∧
        (slot <|> shape.leftOut? mayBeLeftOut) = some v) ↔
      Gets reads shape mayBeLeftOut values v := by
  match values with
  | [] => simp [FillsSlot, Gets]
  | [a] =>
    constructor
    · rintro ⟨_, ⟨-, w, hw, rfl⟩, hv⟩
      obtain rfl := Option.some.inj hv
      exact hw
    · exact fun h => ⟨some v, ⟨rfl, v, h, rfl⟩, rfl⟩
  | _ :: _ :: _ => simp [FillsSlot, Gets]

/-- The slots hold what the fields find. -/
private theorem fills_finish_iff : (fields : Fields) → {members : List (String × α)} →
    {vs : fields.Values} →
      ((∃ slots, fields.Fills reads members fields.noSlots slots ∧ fields.finish slots = .ok vs) ↔
        fields.Finds reads members vs)
  | .nil, _, () => ⟨fun _ => trivial, fun _ => ⟨(), trivial, rfl⟩⟩
  | .cons name shape mayBeLeftOut rest, members, (v, vs) => by
    rw [Finds, ← fills_finish_iff rest, ← gets_iff]
    constructor
    · rintro ⟨⟨slot, slots⟩, ⟨hslot, hslots⟩, hfinish⟩
      obtain ⟨hv, hvs⟩ := finish_cons_eq_ok_iff.mp hfinish
      exact ⟨⟨slot, hslot, hv⟩, slots, hslots, hvs⟩
    · rintro ⟨⟨slot, hslot, hv⟩, slots, hslots, hvs⟩
      exact ⟨(slot, slots), ⟨hslot, hslots⟩, finish_cons_eq_ok_iff.mpr ⟨hv, hvs⟩⟩

/-- What either reader finds off the members of an object. -/
theorem placeAll_finish_iff {fields : Fields} (hnames : fields.names.Nodup)
    {members : List (String × α)} {vs : fields.Values} :
    (∃ slots, fields.placeAll read pass twice members fields.noSlots = .ok slots ∧
        fields.finish slots = .ok vs) ↔
      fields.Finds (Yields read) members vs ∧
        ∀ m ∈ members, m.1 ∉ fields.names → pass m.2 = .ok () := by
  simp only [placeAll_eq_ok_iff hnames, ← fills_finish_iff fields]
  constructor
  · rintro ⟨slots, ⟨hpasses, hfills⟩, hfinish⟩
    exact ⟨⟨slots, hfills, hfinish⟩, hpasses⟩
  · rintro ⟨⟨slots, hfills, hfinish⟩, hpasses⟩
    exact ⟨slots, ⟨hpasses, hfills⟩, hfinish⟩

end Slots

/-! ### Lookups in other lists -/

section Lookups

variable {α β : Type} {reads : (shape : Shape) → α → shape.Value → Prop}

/-- Fields find the same where there is the same under their names. -/
theorem finds_congr : (fields : Fields) → {members members' : List (String × α)} →
    (∀ name ∈ fields.names, under name members = under name members') →
      {vs : fields.Values} →
      (fields.Finds reads members vs ↔ fields.Finds reads members' vs)
  | .nil, _, _, _, () => Iff.rfl
  | .cons _ _ _ rest, _, _, h, (_, _) => by
    obtain ⟨hname, hrest⟩ := List.forall_mem_cons.mp h
    rw [Finds, Finds, hname, finds_congr rest hrest]

/-- A field gets a changed value by reading it changed. -/
private theorem gets_map_iff (f : β → α) {shape : Shape} {mayBeLeftOut : Bool} {values : List β}
    {v : shape.Value} :
    Gets reads shape mayBeLeftOut (values.map f) v ↔
      Gets (fun shape b v => reads shape (f b) v) shape mayBeLeftOut values v := by
  match values with
  | [] | [_] | _ :: _ :: _ => exact Iff.rfl

/-- Fields find changed values by reading them changed. -/
theorem finds_map_iff (f : β → α) : (fields : Fields) → {members : List (String × β)} →
    {vs : fields.Values} →
      (fields.Finds reads (members.map fun m => (m.1, f m.2)) vs ↔
        fields.Finds (fun shape b v => reads shape (f b) v) members vs)
  | .nil, _, () => Iff.rfl
  | .cons _ _ _ rest, _, (_, _) => by
    rw [Finds, Finds, under_map, gets_map_iff, finds_map_iff f rest]

/-- Fields take changed values by reading them changed. -/
theorem takes_map_iff (f : β → α) : (fields : Fields) → {values : List β} →
    {vs : fields.Values} →
      (fields.Takes reads (values.map f) vs ↔
        fields.Takes (fun shape b v => reads shape (f b) v) values vs)
  | .nil, _, () => List.map_eq_nil_iff
  | .cons _ _ _ rest, _, (_, _) => by
    rw [Takes, Takes, ← List.map_take, ← List.map_drop, gets_map_iff, takes_map_iff f rest]

/-- A member is under its name. -/
private theorem mem_under_of_mem {m : String × α} {members : List (String × α)} (h : m ∈ members) :
    m.2 ∈ under m.1 members :=
  List.mem_filterMap.mpr ⟨m, h, if_pos rfl⟩

/-- A member of a known name is read. -/
theorem exists_of_finds : (fields : Fields) → {members : List (String × α)} →
    {vs : fields.Values} → fields.Finds reads members vs → ∀ m ∈ members, m.1 ∈ fields.names →
      ∃ shape v, reads shape m.2 v
  | .nil, _, (), _, _, _, hname => absurd hname List.not_mem_nil
  | .cons name shape mayBeLeftOut rest, members, (v, vs), ⟨hfirst, hrest⟩, m, hm, hname => by
    rcases List.mem_cons.mp hname with hname | hname
    · have hmem := mem_under_of_mem hm
      rw [hname] at hmem
      -- There is exactly one value under the name.
      match hvalues : under name members with
      | [] => rw [hvalues] at hmem; exact absurd hmem List.not_mem_nil
      | [a] =>
        rw [hvalues] at hmem hfirst
        rw [List.mem_singleton.mp hmem]
        exact ⟨shape, v, hfirst⟩
      | _ :: _ :: _ => rw [hvalues] at hfirst; exact hfirst.elim
    · exact exists_of_finds rest hrest m hm hname

/-- All values of an array are read. -/
theorem exists_of_takes : (fields : Fields) → {values : List α} → {vs : fields.Values} →
    fields.Takes reads values vs → ∀ a ∈ values, ∃ shape v, reads shape a v
  | .nil, _, (), h, _, ha => by
    rw [show _ = [] from h] at ha
    exact absurd ha List.not_mem_nil
  | .cons name shape mayBeLeftOut rest, [], (v, vs), _, _, ha => absurd ha List.not_mem_nil
  | .cons name shape mayBeLeftOut rest, b :: values, (v, vs), ⟨hfirst, hrest⟩, a, ha => by
    rcases List.mem_cons.mp ha with rfl | ha
    · exact ⟨shape, v, hfirst⟩
    · exact exists_of_takes rest hrest a ha

/-! ### Lookups through a relation

Where every value has one other value that it stands for, looking that one up is looking up the
value and then what it stands for. -/

variable {R : α → β → Prop} (hR : ∀ a b b', R a b → R a b' → b = b')
  {readsOther : (shape : Shape) → β → shape.Value → Prop}

/-- All values have others if each one has. -/
theorem forall₂_exists_iff {values : List α} :
    (∃ others, List.Forall₂ R values others) ↔ ∀ a ∈ values, ∃ b, R a b := by
  induction values with
  | nil => exact ⟨fun _ => nofun, fun _ => ⟨[], .nil⟩⟩
  | cons a values ih =>
    rw [List.forall_mem_cons, ← ih]
    constructor
    · rintro ⟨_, hothers⟩
      cases hothers with
      | cons hb hothers => exact ⟨⟨_, hb⟩, _, hothers⟩
    · rintro ⟨⟨b, hb⟩, others, hothers⟩
      exact ⟨b :: others, .cons hb hothers⟩

/-- Related members have the same names. -/
theorem map_fst_of_forall₂ {members : List (String × α)} {others : List (String × β)}
    (h : List.Forall₂ (fun m o => m.1 = o.1 ∧ R m.2 o.2) members others) :
    members.map Prod.fst = others.map Prod.fst := by
  induction h with
  | nil => rfl
  | cons hhead _ ih => rw [List.map_cons, List.map_cons, hhead.1, ih]

/-- Under each name there are related values. -/
theorem forall₂_under {name : String} {members : List (String × α)}
    {others : List (String × β)}
    (h : List.Forall₂ (fun m o => m.1 = o.1 ∧ R m.2 o.2) members others) :
    List.Forall₂ R (under name members) (under name others) := by
  induction h with
  | nil => exact .nil
  | @cons m o members others hhead htail ih =>
    obtain ⟨n, a⟩ := m
    obtain ⟨n', b⟩ := o
    obtain ⟨rfl, hvalue⟩ : n = n' ∧ R a b := hhead
    by_cases hname : n = name
    · subst hname
      rw [under_cons_self, under_cons_self]
      exact .cons hvalue ih
    · rw [under_cons_of_ne hname, under_cons_of_ne hname]
      exact ih

include hR

/-- A field gets a related value by reading through the relation. -/
theorem gets_forall₂_iff {shape : Shape} {mayBeLeftOut : Bool} {values : List α} {others : List β}
    (h : List.Forall₂ R values others) {v : shape.Value} :
    Gets readsOther shape mayBeLeftOut others v ↔
      Gets (fun shape a v => ∃ b, R a b ∧ readsOther shape b v) shape mayBeLeftOut values v := by
  -- Only where there is exactly one value is it read.
  cases h with
  | nil => exact Iff.rfl
  | @cons a b values others hvalue h =>
    cases h with
    | nil =>
      constructor
      · exact fun hread => ⟨b, hvalue, hread⟩
      · rintro ⟨b', hb', hread⟩
        rw [hR a b b' hvalue hb']
        exact hread
    | cons _ _ => exact Iff.rfl

/-- Fields find related values by reading through the relation. -/
theorem finds_forall₂_iff : (fields : Fields) → {members : List (String × α)} →
    {others : List (String × β)} →
    List.Forall₂ (fun m o => m.1 = o.1 ∧ R m.2 o.2) members others → {vs : fields.Values} →
      (fields.Finds readsOther others vs ↔
        fields.Finds (fun shape a v => ∃ b, R a b ∧ readsOther shape b v) members vs)
  | .nil, _, _, _, () => Iff.rfl
  | .cons _ _ _ rest, _, _, h, (_, _) => by
    rw [Finds, Finds, gets_forall₂_iff hR (forall₂_under h), finds_forall₂_iff rest h]

/-- Fields take related values by reading through the relation. -/
theorem takes_forall₂_iff : (fields : Fields) → {values : List α} → {others : List β} →
    List.Forall₂ R values others → {vs : fields.Values} →
      (fields.Takes readsOther others vs ↔
        fields.Takes (fun shape a v => ∃ b, R a b ∧ readsOther shape b v) values vs)
  | .nil, values, others, h, () => by
    cases h with
    | nil => exact ⟨fun _ => rfl, fun _ => rfl⟩
    | cons _ _ => exact ⟨nofun, nofun⟩
  | .cons _ _ _ rest, values, others, h, (_, _) => by
    rw [Takes, Takes, gets_forall₂_iff hR (List.forall₂_take 1 h),
      takes_forall₂_iff rest (List.forall₂_drop 1 h)]

end Lookups

end Fields

end KvmConsole.Json
