import KvmConsole.Proofs.Json.Collapse
import KvmConsole.Proofs.Json.Locality

/-!
# Two readers of one shape

A value can be read off its draft at once, or off the tree that the draft was made into before. The
first reader passes over what it does not know without looking into it, and refuses a name that
comes twice. The second one needs the whole tree, in which of members that share a name only the
last is left. So neither accepts all that the other does. But where both give a value it is the same
one, and what is read off a tree in which no name is repeated is read off the draft too.

Key results:
* `Shape.ofJson_of_read`: what is read off a draft that has a tree is read off the tree.
* `Shape.read_of_ofJson`: what is read off a tree without repeated names is read off the draft.
-/

namespace KvmConsole.Json

/-! ## The tree of a draft -/

/-- A draft that has a tree, with room for `n` nested arrays and objects. -/
inductive Draft.Holds : Nat → Draft → Json → Prop where
  | scalar (n : Nat) (s : Scalar) (lax : Except Fault Unit) :
    Draft.Holds n (.scalar (.ok s) lax) s.toJson
  | string (n : Nat) (s : String) (lax : Except Fault Unit) :
    Draft.Holds n (.string (.ok s) lax) (.string s)
  | array {n : Nat} {items : Items} {js : List Json} (hitems : items.toJson n = .ok js) :
    Draft.Holds (n + 1) (.array items) (.array js)
  | object {n : Nat} {members : Members} {ms : List (String × Json)}
      (hmembers : members.toJson n = .ok ms) :
    Draft.Holds (n + 1) (.object members) (.object ms)

inductive Items.Hold (n : Nat) : Items → List Json → Prop where
  | close : Items.Hold n .close []
  | item {d : Draft} {rest : Items} {j : Json} {js : List Json} (hvalue : d.toJson n = .ok j)
      (hrest : rest.toJson n = .ok js) :
    Items.Hold n (.item d rest) (j :: js)

inductive Members.Hold (n : Nat) : Members → List (String × Json) → Prop where
  | close : Members.Hold n .close []
  | member {name : String} {lax : Except Fault Unit} {d : Draft} {rest : Members} {j : Json}
      {ms : List (String × Json)} (hvalue : d.toJson n = .ok j) (hrest : rest.toJson n = .ok ms) :
    Members.Hold n (.member (.string (.ok name) lax) d rest) ((name, j) :: ms)

variable {n room : Nat}

/-- A draft with a tree holds it. -/
theorem Draft.holds {d : Draft} {j : Json} (h : d.toJson n = .ok j) : Draft.Holds n d j := by
  cases d with
  | broken f => cases h
  | scalar strict lax =>
    cases strict with
    | error f => cases h
    | ok s =>
      obtain rfl := Except.ok.inj h
      exact .scalar n s lax
  | string strict lax =>
    cases strict with
    | error f => cases h
    | ok s =>
      obtain rfl := Except.ok.inj h
      exact .string n s lax
  -- Arrays and objects take up one level, and hold the trees of their parts.
  | array items =>
    cases n with
    | zero => cases h
    | succ n =>
      rw [Draft.toJson] at h
      cases hitems : items.toJson n with
      | error f =>
        rw [hitems] at h
        cases h
      | ok js =>
        rw [hitems] at h
        obtain rfl := Except.ok.inj h
        exact .array hitems
  | object members =>
    cases n with
    | zero => cases h
    | succ n =>
      rw [Draft.toJson] at h
      cases hmembers : members.toJson n with
      | error f =>
        rw [hmembers] at h
        cases h
      | ok ms =>
        rw [hmembers] at h
        obtain rfl := Except.ok.inj h
        exact .object hmembers

/-- Items with trees hold them. -/
theorem Items.hold {items : Items} {js : List Json} (h : items.toJson n = .ok js) :
    Items.Hold n items js := by
  cases items with
  | close =>
    obtain rfl := Except.ok.inj h
    exact .close
  | broken afterComma f => cases h
  | item d rest =>
    -- The item has a tree, and so have the items behind it.
    cases hvalue : d.toJson n with
    | error f =>
      simp only [Items.toJson, hvalue] at h
      cases h
    | ok j =>
      cases hrest : rest.toJson n with
      | error f =>
        simp only [Items.toJson, hvalue, hrest] at h
        cases h
      | ok js =>
        simp only [Items.toJson, hvalue, hrest] at h
        obtain rfl := Except.ok.inj h
        exact .item hvalue hrest

/-- Members with trees hold them. -/
theorem Members.hold {members : Members} {ms : List (String × Json)}
    (h : members.toJson n = .ok ms) : Members.Hold n members ms := by
  cases members with
  | close =>
    obtain rfl := Except.ok.inj h
    exact .close
  | broken afterComma f => cases h
  | member name d rest =>
    cases name with
    | broken _ | scalar _ _ | array _ | object _ => cases h
    | string strict lax =>
      -- A name that has been skipped may still not be decoded.
      cases strict with
      | error f => cases h
      | ok name =>
        cases hvalue : d.toJson n with
        | error f =>
          simp only [Members.toJson, hvalue] at h
          cases h
        | ok j =>
          cases hrest : rest.toJson n with
          | error f =>
            simp only [Members.toJson, hvalue, hrest] at h
            cases h
          | ok ms =>
            simp only [Members.toJson, hvalue, hrest] at h
            obtain rfl := Except.ok.inj h
            exact .member hvalue hrest

mutual

/-- With more room a draft has the same tree. -/
theorem Draft.toJson_mono (d : Draft) {n room : Nat} (hroom : n ≤ room) {j : Json}
    (h : d.toJson n = .ok j) : d.toJson room = .ok j := by
  match d with
  | .broken f => cases h
  | .scalar _ _ | .string _ _ => exact h
  | .array items =>
    cases Draft.holds h with
    | array hitems =>
      -- A level of nesting takes one from the room on both sides.
      obtain ⟨room, rfl⟩ := Nat.exists_eq_add_of_le' hroom
      rw [← Nat.add_assoc, Draft.toJson, Items.toJson_mono items (by omega) hitems]
      rfl
  | .object members =>
    cases Draft.holds h with
    | object hmembers =>
      obtain ⟨room, rfl⟩ := Nat.exists_eq_add_of_le' hroom
      rw [← Nat.add_assoc, Draft.toJson, Members.toJson_mono members (by omega) hmembers]
      rfl

/-- More room does not change the trees of items. -/
theorem Items.toJson_mono (items : Items) {n room : Nat} (hroom : n ≤ room) {js : List Json}
    (h : items.toJson n = .ok js) : items.toJson room = .ok js := by
  match items with
  | .close => exact h
  | .broken _ f => cases h
  | .item d rest =>
    cases Items.hold h with
    | item hvalue hrest =>
      rw [Items.toJson, Draft.toJson_mono d hroom hvalue, Items.toJson_mono rest hroom hrest]
      rfl

/-- More room does not change the trees of members. -/
theorem Members.toJson_mono (members : Members) {n room : Nat} (hroom : n ≤ room)
    {ms : List (String × Json)} (h : members.toJson n = .ok ms) : members.toJson room = .ok ms := by
  match members with
  | .close => exact h
  | .broken _ f => cases h
  | .member name d rest =>
    cases Members.hold h with
    | member hvalue hrest =>
      rw [Members.toJson, Draft.toJson_mono d hroom hvalue, Members.toJson_mono rest hroom hrest]
      rfl

end

/-- A draft has one tree, however much room there is. -/
private theorem Draft.toJson_unique {d : Draft} {n m : Nat} {j j' : Json} (h : d.toJson n = .ok j)
    (h' : d.toJson m = .ok j') : j = j' := by
  rcases Nat.le_total n m with hle | hle
  · have hmono := d.toJson_mono hle h
    rw [h'] at hmono
    exact (Except.ok.inj hmono).symm
  · have hmono := d.toJson_mono hle h'
    rw [h] at hmono
    exact Except.ok.inj hmono

/-! ## Records off drafts and off trees -/

/-- A record is read off an object member by member. -/
private theorem Shape.ofJson_object (kind : TreeKind) (title : String) (fields : Fields)
    (members : List (String × Json)) :
    (Shape.record title fields).ofJson kind (.object members) =
      match members.foldlM (fun slots m => fields.ofMember kind m.1 m.2 slots) fields.noSlots with
      | .error e => .error e
      | .ok slots => fields.finish slots := by
  rw [Shape.ofJson_eq_readRecord, readRecord]
  cases members.foldlM (fun slots m => fields.ofMember kind m.1 m.2 slots) fields.noSlots <;> rfl

/-- A step for each member of a draft comes to what a step for each member of its tree comes to, if
    single steps do. -/
private theorem foldlM_of_fold {σ : Type} (step : String → Draft → σ → Except Fault σ)
    (stepJson : String → Json → σ → Except Mismatch σ)
    (hstep : ∀ name d j state state', d.toJson n = .ok j → step name d state = .ok state' →
      stepJson name j.collapse state = .ok state')
    (members : Members) {ms : List (String × Json)} {state state' : σ}
    (hms : members.toJson n = .ok ms) (hfold : members.fold step state = .ok state') :
    (collapseMembers ms).foldlM (fun state m => stepJson m.1 m.2 state) state = .ok state' := by
  match members with
  | .close =>
    obtain rfl := Except.ok.inj hms
    obtain rfl := Except.ok.inj hfold
    rfl
  | .broken _ f => cases hms
  | .member name d rest =>
    cases Members.hold hms with
    | @member name _ _ _ j ms hvalue hrest =>
      rw [Members.fold] at hfold
      rw [collapseMembers, List.foldlM_cons]
      -- The first member is taken by both, and so are the rest.
      cases hnext : step name d state with
      | error f =>
        simp only [hnext] at hfold
        cases hfold
      | ok between =>
        simp only [hnext] at hfold
        rw [hstep name d j state between hvalue hnext]
        exact foldlM_of_fold step stepJson hstep rest hrest hfold

mutual

/-- No object of the tree has two members of the same name. -/
def HasDistinctNames : Json → Prop
  | .array items => AllHaveDistinctNames items
  | .object members => (members.map Prod.fst).Nodup ∧ MembersHaveDistinctNames members
  | .null | .bool _ | .number _ | .string _ => True

def AllHaveDistinctNames : List Json → Prop
  | [] => True
  | j :: rest => j.HasDistinctNames ∧ AllHaveDistinctNames rest

def MembersHaveDistinctNames : List (String × Json) → Prop
  | [] => True
  | (_, value) :: rest => value.HasDistinctNames ∧ MembersHaveDistinctNames rest

end

/-- What goes through the collapsed tree goes through the draft, if no name comes twice. -/
private theorem fold_of_foldlM {σ : Type} (step : String → Draft → σ → Except Fault σ)
    (stepJson : String → Json → σ → Except Mismatch σ)
    (hstep : ∀ name d j state state', d.toJson n = .ok j → d.skip = .ok () →
      j.HasDistinctNames → stepJson name j.collapse state = .ok state' →
      step name d state = .ok state')
    (members : Members) {ms : List (String × Json)} {state state' : σ}
    (hms : members.toJson n = .ok ms) (hskip : members.skip = .ok ())
    (hnames : MembersHaveDistinctNames ms)
    (hfold : (collapseMembers ms).foldlM (fun state m => stepJson m.1 m.2 state) state =
      .ok state') :
    members.fold step state = .ok state' := by
  match members with
  | .close =>
    obtain rfl := Except.ok.inj hms
    obtain rfl := Except.ok.inj hfold
    rfl
  | .broken _ f => cases hms
  | .member name d rest =>
    cases Members.hold hms with
    | @member name _ _ _ j ms hvalue hrest =>
      obtain ⟨-, hskipValue, hskipRest⟩ := Members.skip_member_eq_ok_iff.mp hskip
      rw [collapseMembers, List.foldlM_cons] at hfold
      rw [Members.fold]
      -- The first member is taken by both, and so are the rest.
      cases hnext : stepJson name j.collapse state with
      | error e =>
        simp only [hnext] at hfold
        cases hfold
      | ok between =>
        simp only [hnext] at hfold
        simp only [hstep name d j state between hvalue hskipValue hnames.1 hnext]
        exact fold_of_foldlM step stepJson hstep rest hrest hskipRest hnames.2 hfold

/-! ### Collapsed members -/

/-- Collapsing the values leaves the names. -/
theorem map_fst_collapseMembers (members : List (String × Json)) :
    (collapseMembers members).map Prod.fst = members.map Prod.fst := by
  induction members with
  | nil => rfl
  | cons m members ih =>
    rw [collapseMembers, List.map_cons, List.map_cons, ih]

/-- Going through the members places them. -/
theorem Fields.foldlM_ofMember_eq (kind : TreeKind) (fields : Fields)
    (members : List (String × Json)) (slots : fields.Slots) :
    members.foldlM (fun slots m => fields.ofMember kind m.1 m.2 slots) slots =
      fields.placeAll (fun shape j => shape.ofJson kind j) (fun _ => .ok ()) .duplicateField members
        slots := by
  simp only [ofMember_eq_place, placeAll]

/-- A record that can be read off the members of an object in the order of the text can be read off
    the collapsed object. -/
private theorem Shape.ofJson_of_foldlM {title : String} {fields : Fields}
    {members : List (String × Json)}
    {slots : fields.Slots} {vs : fields.Values}
    (hfold : (collapseMembers members).foldlM
      (fun slots m => fields.ofMember .collapsed m.1 m.2 slots) fields.noSlots = .ok slots)
    (hfinish : fields.finish slots = .ok vs) :
    (Shape.record title fields).ofJson .collapsed (Json.object members).collapse = .ok vs := by
  rw [Fields.foldlM_ofMember_eq] at hfold
  have hnames := (Fields.nodup_of_placeAll hfold).1
  rw [collapse, Shape.ofJson_object, Fields.foldlM_ofMember_eq,
    (Fields.placeAll_collapse_iff hnames).mpr hfold]
  exact hfinish

/-- Where no name is repeated, a record that can be read off the collapsed object can be read off
    the members in the order of the text. -/
private theorem Shape.exists_foldlM_of_ofJson {title : String} {fields : Fields}
    {members : List (String × Json)} {vs : fields.Values} (hnames : (members.map Prod.fst).Nodup)
    (hread : (Shape.record title fields).ofJson .collapsed (Json.object members).collapse =
      .ok vs) :
    ∃ slots, (collapseMembers members).foldlM
        (fun slots m => fields.ofMember .collapsed m.1 m.2 slots) fields.noSlots = .ok slots ∧
      fields.finish slots = .ok vs := by
  rw [collapse, Shape.ofJson_object, Fields.foldlM_ofMember_eq] at hread
  rw [← map_fst_collapseMembers] at hnames
  -- Neither is a name repeated among those that are fields.
  have hknown : (((collapseMembers members).filter fields.knows).map Prod.fst).Nodup :=
    hnames.sublist (List.filter_sublist.map Prod.fst)
  split at hread
  · cases hread
  · rename_i slots hall
    refine ⟨slots, ?_, hread⟩
    rw [Fields.foldlM_ofMember_eq]
    exact (Fields.placeAll_collapse_iff hknown).mp hall

/-! ## Off the draft, then off the tree -/

/-- A result is the same under other errors. -/
theorem eq_ok_of_mapError {α ε ε' : Type} {f : ε → ε'} {x : Except ε α} {a : α}
    (h : x.mapError f = .ok a) : x = .ok a := by
  cases x with
  | error e => cases h
  | ok b => exact congrArg Except.ok (Except.ok.inj h)

/-- A mapped result comes from one. -/
theorem exists_of_map_eq_ok {α β ε : Type} {f : α → β} {x : Except ε α} {b : β}
    (h : x.map f = .ok b) : ∃ a, x = .ok a ∧ f a = b := by
  cases x with
  | error e => cases h
  | ok a => exact ⟨a, rfl, Except.ok.inj h⟩

/-- Null is read off null only. -/
private theorem eq_null_of_readNull {d : Draft} {j : Json} (hj : d.toJson n = .ok j)
    (hread : d.readNull = .ok ()) : j = .null := by
  cases Draft.holds hj with
  | scalar _ s _ =>
    cases s with
    | null => rfl
    | bool _ | number _ => cases hread
  | string _ _ _ | array _ | object _ => cases hread

/-- A choice read off the draft is read off the tree. -/
private theorem readChoice_of_draft {names : List String} {d : Draft} {j : Json}
    {i : Fin names.length}
    (hj : d.toJson n = .ok j) (hread : d.readChoice names room = .ok i) :
    TreeKind.collapsed.readChoice names j.collapse = .ok i := by
  cases Draft.holds hj with
  | scalar _ _ _ | array _ => cases hread
  | string _ s _ => exact eq_ok_of_mapError hread
  -- A choice may be an object with the name and null.
  | @object n members ms hmembers =>
    simp only [Draft.readChoice] at hread
    split at hread
    · cases hread
    cases Members.hold hmembers with
    | close => cases hread
    | @member name lax d rest j ms hvalue hrest =>
      simp only [bind, Except.bind] at hread
      split at hread
      · cases hread
      rename_i variant hvariant
      split at hread
      · cases hread
      rename_i hnull
      have hname : choose names name = .ok variant := eq_ok_of_mapError hvariant
      -- The one value has to be null, and nothing may follow it.
      obtain rfl := eq_null_of_readNull hvalue hnull
      cases Members.hold hrest with
      | close =>
        obtain rfl := Except.ok.inj hread
        simp only [collapse, collapseMembers, List.foldl_cons, List.foldl_nil, insertMember,
          TreeKind.readChoice, hname]
        rfl
      | member _ _ => cases hread

mutual

/-- What is read off a draft that has a tree is read off the tree. -/
theorem Shape.ofJson_of_read (shape : Shape) {n room : Nat} {d : Draft} {j : Json}
    {v : shape.Value} (hj : d.toJson n = .ok j) (hread : shape.read room d = .ok v) :
    shape.ofJson .collapsed j.collapse = .ok v := by
  -- Each shape accepts one kind of drafts, and the same kind of trees.
  match shape with
  | .bool =>
    cases Draft.holds hj with
    | scalar _ s _ =>
      cases s with
      | bool b =>
        obtain rfl := Except.ok.inj hread
        rfl
      | null | number _ => cases hread
    | string _ _ _ | array _ | object _ => cases hread
  | .string =>
    cases Draft.holds hj with
    | string _ s _ =>
      obtain rfl := Except.ok.inj hread
      rfl
    | scalar _ s _ => cases s <;> cases hread
    | array _ | object _ => cases hread
  | .integer kind =>
    cases Draft.holds hj with
    | scalar _ s _ =>
      cases s with
      | number m => exact eq_ok_of_mapError hread
      | null | bool _ => cases hread
    | string _ _ _ | array _ | object _ => cases hread
  | .choice names => exact readChoice_of_draft hj hread
  | .optional shape =>
    have hsome {w : Option shape.Value} (hread : (shape.read room d).map some = .ok w) :
        (shape.ofJson .collapsed j.collapse).map some = .ok w := by
      obtain ⟨u, hu, rfl⟩ := exists_of_map_eq_ok hread
      rw [Shape.ofJson_of_read shape hj hu]
      rfl
    cases Draft.holds hj with
    | scalar _ s _ =>
      cases s with
      | null =>
        obtain rfl := Except.ok.inj hread
        rfl
      | bool _ | number _ => exact hsome hread
    | string _ _ _ | array _ | object _ => exact hsome hread
  | .record title fields =>
    cases Draft.holds hj with
    | scalar _ s _ => cases room <;> cases hread
    | string _ _ _ => cases room <;> cases hread
    | array hitems =>
      cases room with
      | zero => cases hread
      | succ room => exact Fields.ofItems_of_readItems fields hitems hread
    | @object n members ms hmembers =>
      cases room with
      | zero => cases hread
      | succ room =>
        -- Members that could be read one by one have no known name twice, so collapsing loses
        -- nothing that the record looks at.
        rw [Shape.read_object] at hread
        split at hread
        · cases hread
        · rename_i slots hfold
          have hall := foldlM_of_fold _
            (fun name j slots => fields.ofMember .collapsed name j slots)
            (fun name d j slots slots' hj hread => Fields.ofMember_of_readMember fields hj hread)
            members hmembers hfold
          exact Shape.ofJson_of_foldlM hall (eq_ok_of_mapError hread)
  | .anything =>
    -- Both keep the tree, with different room.
    obtain ⟨j', hj', rfl⟩ := exists_of_map_eq_ok hread
    rw [Draft.toJson_unique hj hj']
    rfl

/-- Fields read off the items of a draft are read off those of the tree. -/
private theorem Fields.ofItems_of_readItems (fields : Fields) {title expected : String}
    {total room count length n : Nat} {items : Items} {js : List Json} {vs : fields.Values}
    (hjs : items.toJson n = .ok js)
    (hread : fields.readItems title total room count items = .ok vs) :
    fields.ofItems .collapsed expected length count (collapseItems js) = .ok vs := by
  match fields with
  | .nil =>
    cases Items.hold hjs with
    | close => rfl
    | item _ _ => cases hread
  | .cons name shape mayBeLeftOut rest =>
    cases Items.hold hjs with
    | close =>
      rw [Fields.readItems] at hread
      rw [collapseItems, Fields.ofItems]
      -- The items have come to an end, and the field has to be one that may be left out.
      cases hleft : shape.leftOut? mayBeLeftOut with
      | none =>
        simp only [hleft] at hread
        cases hread
      | some v =>
        simp only [hleft] at hread ⊢
        obtain ⟨others, hothers, rfl⟩ := exists_of_map_eq_ok hread
        have hnone : rest.ofItems .collapsed expected length (count + 1) (collapseItems []) =
            .ok others := Fields.ofItems_of_readItems rest hjs hothers
        rw [collapseItems] at hnone
        rw [hnone]
        rfl
    | @item d items j js hvalue hrest =>
      rw [Fields.readItems] at hread
      rw [collapseItems, Fields.ofItems]
      cases hfirst : shape.read room d with
      | error f =>
        simp only [hfirst] at hread
        cases hread
      | ok v =>
        simp only [hfirst] at hread
        obtain ⟨others, hothers, rfl⟩ := exists_of_map_eq_ok hread
        simp only [Shape.ofJson_of_read shape hvalue hfirst,
          Fields.ofItems_of_readItems rest hrest hothers]
        rfl

/-- A member read off the draft is read off the tree. -/
private theorem Fields.ofMember_of_readMember (fields : Fields) {room n : Nat} {name : String}
    {d : Draft}
    {j : Json} {slots slots' : fields.Slots} (hj : d.toJson n = .ok j)
    (hread : fields.readMember room name d slots = .ok slots') :
    fields.ofMember .collapsed name j.collapse slots = .ok slots' := by
  match fields, slots with
  | .nil, () =>
    rfl
  | .cons m shape mayBeLeftOut rest, (slot, slots) =>
    rw [Fields.readMember] at hread
    rw [Fields.ofMember]
    -- The member fills the first slot, or one further on.
    by_cases hname : name = m
    · rw [if_pos hname] at hread ⊢
      by_cases hslot : slot.isSome
      · rw [if_pos hslot] at hread
        cases hread
      · rw [if_neg hslot] at hread ⊢
        obtain ⟨v, hv, rfl⟩ := exists_of_map_eq_ok hread
        rw [Shape.ofJson_of_read shape hj hv]
        rfl
    · rw [if_neg hname] at hread ⊢
      obtain ⟨others, hothers, rfl⟩ := exists_of_map_eq_ok hread
      rw [Fields.ofMember_of_readMember rest hj hothers]
      rfl

end

/-! ## Off the tree, then off the draft -/

/-- Null is the tree of null only. -/
private theorem exists_eq_null {d : Draft} (hj : d.toJson n = .ok .null) :
    ∃ lax, d = .scalar (.ok .null) lax := by
  generalize hnull : Json.null = j at hj
  cases Draft.holds hj with
  | scalar _ s lax =>
    cases s with
    | null => exact ⟨lax, rfl⟩
    | bool _ | number _ => cases hnull
  | string _ _ _ | array _ | object _ => cases hnull

/-- Nothing but null collapses to null. -/
theorem collapse_eq_null {j : Json} (h : j.collapse = .null) : j = .null := by
  cases j with
  | null => rfl
  | bool _ | number _ | string _ | array _ | object _ => cases h

/-- A choice that is an object has one member, with null. -/
private theorem exists_of_readChoice_object {names : List String} {members : List (String × Json)}
    {i : Fin names.length}
    (hread : TreeKind.collapsed.readChoice names (.object members) = .ok i) :
    ∃ name, members = [(name, .null)] ∧ choose names name = .ok i := by
  -- One member, neither none nor more.
  match members with
  | [] => cases hread
  | [(name, value)] =>
    simp only [TreeKind.readChoice, bind, Except.bind] at hread
    split at hread
    · cases hread
    rename_i variant hchoose
    split at hread
    · cases hread
    rename_i hnull
    obtain rfl := Except.ok.inj hread
    have hvalue : value = .null := by
      unfold TreeKind.readNull at hnull
      split at hnull
      · rfl
      · cases hnull
      · cases hnull
    rw [hvalue]
    exact ⟨name, rfl, hchoose⟩
  | _ :: _ :: _ => cases hread

/-- A choice read off the tree is read off the draft. -/
private theorem readChoice_of_tree {names : List String} {d : Draft} {j : Json}
    {i : Fin names.length}
    (hroom : n ≤ room) (hj : d.toJson n = .ok j) (hnames : j.HasDistinctNames)
    (hread : TreeKind.collapsed.readChoice names j.collapse = .ok i) :
    d.readChoice names room = .ok i := by
  cases Draft.holds hj with
  | scalar _ s _ => cases s <;> cases hread
  | array _ => cases hread
  | string _ s _ =>
    have hchoose : choose names s = .ok i := hread
    simp only [Draft.readChoice, Draft.readVariant, hchoose]
    rfl
  | @object n members ms hmembers =>
    have hmembersNames : ((collapseMembers ms).map Prod.fst).Nodup := by
      rw [map_fst_collapseMembers]
      exact hnames.1
    obtain ⟨members', hcollapse, hperm⟩ := collapse_object hmembersNames
    rw [hcollapse] at hread
    obtain ⟨name, rfl, hchoose⟩ := exists_of_readChoice_object hread
    -- Nothing has been lost, so the object has one member only, and its value is null.
    have hsingle := List.perm_singleton.mp hperm
    cases Members.hold hmembers with
    | close => cases hsingle
    | @member name' lax d rest j ms hvalue hrest =>
      obtain ⟨hhead, htail⟩ := List.cons.inj hsingle
      obtain ⟨rfl, hnull⟩ := Prod.mk.inj hhead
      obtain rfl := collapse_eq_null hnull
      obtain ⟨lax', rfl⟩ := exists_eq_null hvalue
      have hroom' : room ≠ 0 := by omega
      cases Members.hold hrest with
      | close =>
        simp only [Draft.readChoice, if_neg hroom', Draft.readVariant, hchoose]
        rfl
      | member _ _ => cases htail

mutual

/-- What is read off a tree without repeated names is read off the draft, if there is room enough
    for the tree and the draft can be passed over. -/
theorem Shape.read_of_ofJson (shape : Shape) {n room : Nat} {d : Draft} {j : Json}
    {v : shape.Value} (hroom : n ≤ room) (hj : d.toJson n = .ok j) (hskip : d.skip = .ok ())
    (hnames : j.HasDistinctNames) (hread : shape.ofJson .collapsed j.collapse = .ok v) :
    shape.read room d = .ok v := by
  -- Each shape accepts one kind of trees, and the same kind of drafts.
  match shape with
  | .bool =>
    cases Draft.holds hj with
    | scalar _ s _ =>
      cases s with
      | bool b =>
        obtain rfl := Except.ok.inj hread
        rfl
      | null | number _ => cases hread
    | string _ _ _ | array _ | object _ => cases hread
  | .string =>
    cases Draft.holds hj with
    | string _ s _ =>
      obtain rfl := Except.ok.inj hread
      rfl
    | scalar _ s _ => cases s <;> cases hread
    | array _ | object _ => cases hread
  | .integer kind =>
    cases Draft.holds hj with
    | scalar _ s _ =>
      cases s with
      | number m => exact congrArg (Except.mapError Fault.mismatch) hread
      | null | bool _ => cases hread
    | string _ _ _ | array _ | object _ => cases hread
  | .choice names => exact readChoice_of_tree hroom hj hnames hread
  | .optional shape =>
    have hsome {w : Option shape.Value}
        (hread : (shape.ofJson .collapsed j.collapse).map some = .ok w) :
        (shape.read room d).map some = .ok w := by
      obtain ⟨u, hu, rfl⟩ := exists_of_map_eq_ok hread
      rw [Shape.read_of_ofJson shape hroom hj hskip hnames hu]
      rfl
    cases Draft.holds hj with
    | scalar _ s _ =>
      cases s with
      | null =>
        obtain rfl := Except.ok.inj hread
        rfl
      | bool _ | number _ => exact hsome hread
    | string _ _ _ | array _ | object _ => exact hsome hread
  | .record title fields =>
    cases Draft.holds hj with
    | scalar _ s _ => cases s <;> cases hread
    | string _ _ _ => cases hread
    | array hitems =>
      obtain ⟨room, rfl⟩ : ∃ m, room = m + 1 := Nat.exists_eq_add_one.mpr (by omega)
      exact Fields.readItems_of_ofItems fields (Nat.le_of_succ_le_succ hroom) hitems hskip hnames
        hread
    | @object n members ms hmembers =>
      obtain ⟨room, rfl⟩ : ∃ m, room = m + 1 := Nat.exists_eq_add_one.mpr (by omega)
      -- Without repeated names the members can be taken in the order of the text again.
      obtain ⟨slots, hall, hfinish⟩ := Shape.exists_foldlM_of_ofJson hnames.1 hread
      have hfold := fold_of_foldlM (fun name d slots => fields.readMember room name d slots)
        (fun name j slots => fields.ofMember .collapsed name j slots)
        (fun name d j slots slots' hj hskip hnames hread =>
          Fields.readMember_of_ofMember fields (Nat.le_of_succ_le_succ hroom) hj hskip hnames hread)
        members hmembers hskip hnames.2 hall
      rw [Shape.read_object, hfold]
      simp only [hfinish]
      rfl
  | .anything =>
    obtain rfl := Except.ok.inj hread
    exact Shape.read_anything (d.toJson_mono hroom hj)

/-- Fields read off the items of a tree are read off those of the draft. -/
private theorem Fields.readItems_of_ofItems (fields : Fields) {title expected : String}
    {total room count length n : Nat} {items : Items} {js : List Json} {vs : fields.Values}
    (hroom : n ≤ room) (hjs : items.toJson n = .ok js) (hskip : items.skip = .ok ())
    (hnames : AllHaveDistinctNames js)
    (hread : fields.ofItems .collapsed expected length count (collapseItems js) = .ok vs) :
    fields.readItems title total room count items = .ok vs := by
  match fields with
  | .nil =>
    cases Items.hold hjs with
    | close => rfl
    | item _ _ => cases hread
  | .cons name shape mayBeLeftOut rest =>
    cases Items.hold hjs with
    | close =>
      rw [collapseItems, Fields.ofItems] at hread
      rw [Fields.readItems]
      -- The items have come to an end, and the field has to be one that may be left out.
      cases hleft : shape.leftOut? mayBeLeftOut with
      | none =>
        simp only [hleft] at hread
        cases hread
      | some v =>
        simp only [hleft] at hread ⊢
        obtain ⟨others, hothers, rfl⟩ := exists_of_map_eq_ok hread
        have hnone : rest.ofItems .collapsed expected length (count + 1) (collapseItems []) =
            .ok others := hothers
        rw [Fields.readItems_of_ofItems rest hroom hjs hskip hnames hnone]
        rfl
    | @item d items j js hvalue hrest =>
      obtain ⟨hskipValue, hskipRest⟩ := Items.skip_item_eq_ok_iff.mp hskip
      rw [collapseItems, Fields.ofItems] at hread
      rw [Fields.readItems]
      cases hfirst : shape.ofJson .collapsed j.collapse with
      | error e =>
        simp only [hfirst] at hread
        cases hread
      | ok v =>
        simp only [hfirst] at hread
        obtain ⟨others, hothers, rfl⟩ := exists_of_map_eq_ok hread
        simp only [Shape.read_of_ofJson shape hroom hvalue hskipValue hnames.1 hfirst,
          Fields.readItems_of_ofItems rest hroom hrest hskipRest hnames.2 hothers]
        rfl

/-- A member read off the tree is read off the draft. -/
private theorem Fields.readMember_of_ofMember (fields : Fields) {room n : Nat} {name : String}
    {d : Draft}
    {j : Json} {slots slots' : fields.Slots} (hroom : n ≤ room) (hj : d.toJson n = .ok j)
    (hskip : d.skip = .ok ()) (hnames : j.HasDistinctNames)
    (hread : fields.ofMember .collapsed name j.collapse slots = .ok slots') :
    fields.readMember room name d slots = .ok slots' := by
  match fields, slots with
  | .nil, () =>
    -- The tree has no need to look at an unknown member, but the draft has to pass over it.
    rw [Fields.readMember, hskip]
    rfl
  | .cons m shape mayBeLeftOut rest, (slot, slots) =>
    rw [Fields.ofMember] at hread
    rw [Fields.readMember]
    by_cases hname : name = m
    · rw [if_pos hname] at hread ⊢
      by_cases hslot : slot.isSome
      · rw [if_pos hslot] at hread
        cases hread
      · rw [if_neg hslot] at hread ⊢
        obtain ⟨v, hv, rfl⟩ := exists_of_map_eq_ok hread
        rw [Shape.read_of_ofJson shape hroom hj hskip hnames hv]
        rfl
    · rw [if_neg hname] at hread ⊢
      obtain ⟨others, hothers, rfl⟩ := exists_of_map_eq_ok hread
      rw [Fields.readMember_of_ofMember rest hroom hj hskip hnames hothers]
      rfl

end

end KvmConsole.Json
