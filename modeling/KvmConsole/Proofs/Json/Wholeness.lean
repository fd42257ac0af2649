import KvmConsole.Proofs.Json.Agreement

/-!
# Which drafts have trees

A draft has a tree if nothing in it is broken and it does not nest too deeply. Broken is also a
number out of range or a string that cannot be decoded, although both of them can be passed over.

Key results:
* `Draft.exists_toJson_iff`: the two conditions.
-/

namespace KvmConsole.Json

mutual

/-- Nothing in the draft is broken, all numbers are in range, and all strings can be decoded. -/
def Draft.IsWhole : Draft → Prop
  | .broken _ => False
  | .scalar strict _ => ∃ s, strict = .ok s
  | .string strict _ => ∃ s, strict = .ok s
  | .array items => items.AreWhole
  | .object members => members.AreWhole

def Items.AreWhole : Items → Prop
  | .close => True
  | .broken _ _ => False
  | .item d rest => d.IsWhole ∧ rest.AreWhole

def Members.AreWhole : Members → Prop
  | .close => True
  | .broken _ _ => False
  | .member name value rest =>
    (∃ s lax, name = .string (.ok s) lax) ∧ value.IsWhole ∧ rest.AreWhole

end

mutual

/-- How many arrays and objects are nested in the draft. -/
def Draft.depth : Draft → Nat
  | .array items => items.depth + 1
  | .object members => members.depth + 1
  | .broken _ | .scalar _ _ | .string _ _ => 0

def Items.depth : Items → Nat
  | .item d rest => max d.depth rest.depth
  | .close | .broken _ _ => 0

def Members.depth : Members → Nat
  | .member _ value rest => max value.depth rest.depth
  | .close | .broken _ _ => 0

end

/-- A mapped result is there if the result is. -/
private theorem exists_map_eq_ok_iff {α β ε : Type} {f : α → β} {x : Except ε α} :
    (∃ b, x.map f = .ok b) ↔ ∃ a, x = .ok a := by
  cases x <;> simp [Except.map]

/-- A member has a tree if its name is a string, its value has a tree, and so do the rest. -/
private theorem Members.exists_toJson_member_iff {name value : Draft} {rest : Members}
    {room : Nat} :
    (∃ js, (Members.member name value rest).toJson room = .ok js) ↔
      (∃ s lax, name = .string (.ok s) lax) ∧ (∃ j, value.toJson room = .ok j) ∧
        ∃ js, rest.toJson room = .ok js := by
  constructor
  · rintro ⟨js, hjs⟩
    cases Members.hold hjs with
    | member hvalue hrest => exact ⟨⟨_, _, rfl⟩, ⟨_, hvalue⟩, _, hrest⟩
  · rintro ⟨⟨s, lax, rfl⟩, ⟨j, hvalue⟩, js, hrest⟩
    refine ⟨(s, j) :: js, ?_⟩
    simp only [Members.toJson, hvalue, hrest]
    rfl

/-- An item has a tree with the rest if both have one. -/
private theorem Items.exists_toJson_item_iff {d : Draft} {rest : Items} {room : Nat} :
    (∃ js, (Items.item d rest).toJson room = .ok js) ↔
      (∃ j, d.toJson room = .ok j) ∧ ∃ js, rest.toJson room = .ok js := by
  constructor
  · rintro ⟨js, hjs⟩
    cases Items.hold hjs with
    | item hvalue hrest => exact ⟨⟨_, hvalue⟩, _, hrest⟩
  · rintro ⟨⟨j, hvalue⟩, js, hrest⟩
    refine ⟨j :: js, ?_⟩
    simp only [Items.toJson, hvalue, hrest]
    rfl

mutual

/-- A draft has a tree if it is whole and does not nest too deeply. -/
theorem Draft.exists_toJson_iff (d : Draft) {room : Nat} :
    (∃ j, d.toJson room = .ok j) ↔ d.IsWhole ∧ d.depth ≤ room := by
  match d, room with
  | .broken f, _ => exact ⟨(fun ⟨_, h⟩ => nomatch h), fun h => h.1.elim⟩
  | .scalar strict lax, room =>
    exact exists_map_eq_ok_iff.trans (and_iff_left (Nat.zero_le room)).symm
  | .string strict lax, room =>
    exact exists_map_eq_ok_iff.trans (and_iff_left (Nat.zero_le room)).symm
  | .array items, 0 | .object members, 0 => exact ⟨(fun ⟨_, h⟩ => nomatch h), fun h => nomatch h.2⟩
  -- Only arrays and objects take up room.
  | .array items, room + 1 =>
    rw [Draft.IsWhole, Draft.depth, Nat.succ_le_succ_iff, ← Items.exists_toJson_iff items]
    exact exists_map_eq_ok_iff
  | .object members, room + 1 =>
    rw [Draft.IsWhole, Draft.depth, Nat.succ_le_succ_iff, ← Members.exists_toJson_iff members]
    exact exists_map_eq_ok_iff

/-- Items have trees if they are whole and not too deep. -/
theorem Items.exists_toJson_iff (items : Items) {room : Nat} :
    (∃ js, items.toJson room = .ok js) ↔ items.AreWhole ∧ items.depth ≤ room := by
  match items with
  | .close => exact ⟨fun _ => ⟨trivial, Nat.zero_le room⟩, fun _ => ⟨[], rfl⟩⟩
  | .broken _ f => exact ⟨(fun ⟨_, h⟩ => nomatch h), fun h => h.1.elim⟩
  | .item d rest =>
    rw [Items.exists_toJson_item_iff, Draft.exists_toJson_iff d, Items.exists_toJson_iff rest,
      Items.AreWhole, Items.depth, Nat.max_le]
    exact and_and_and_comm

/-- Members have trees if they are whole and not too deep. -/
theorem Members.exists_toJson_iff (members : Members) {room : Nat} :
    (∃ js, members.toJson room = .ok js) ↔ members.AreWhole ∧ members.depth ≤ room := by
  match members with
  | .close => exact ⟨fun _ => ⟨trivial, Nat.zero_le room⟩, fun _ => ⟨[], rfl⟩⟩
  | .broken _ f => exact ⟨(fun ⟨_, h⟩ => nomatch h), fun h => h.1.elim⟩
  | .member name value rest =>
    rw [Members.exists_toJson_member_iff, Draft.exists_toJson_iff value,
      Members.exists_toJson_iff rest, Members.AreWhole, Members.depth, Nat.max_le,
      and_and_and_comm, and_assoc, and_assoc, and_assoc]

end

end KvmConsole.Json
