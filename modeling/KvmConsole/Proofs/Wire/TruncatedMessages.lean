import KvmConsole.Proofs.Json.Collapse
import KvmConsole.Proofs.Json.Edits
import KvmConsole.Proofs.Json.Prefixes
import KvmConsole.Proofs.Wire.HidEventCodec
import KvmConsole.Proofs.Wire.StatusRoundTrip

/-!
# Messages cut short

The texts of statuses, of events with a status in them and of input events, cut anywhere. A reader
goes through a draft from front to back. What comes before the cut is in order: all fields are
known, none repeats, and a number that has lost digits is still in the range of its field. So the
first thing that a reader finds wrong is that the text ends.

Key results:
* `Members.fold_of_cut`: going through the members of an object comes to the cut.
* `Shape.noticesEnd_record`: so does reading a record, if the reader of each field does.
* `cut_messages_refused`: no message is read off a text that lacks its end.
-/

namespace KvmConsole.Json

/-! ## Readers that come to the end of a draft -/

/-- The reader takes what passes for the tree, and where a draft of the tree is cut, it says that
    the text ended. -/
structure NoticesEnd {α : Type} (read : Draft → Except Fault α) (j : Json) : Prop where
  passes : ∀ {d}, Draft.Passes j d → ∃ a, read d = .ok a
  cut : ∀ {d}, Draft.Cut j d → read d = .error .truncated

section Leaves

variable (room : Nat)

/-- A reader of truth values notices the end. -/
theorem Shape.noticesEnd_bool (b : Bool) : NoticesEnd (Shape.bool.read room) (.bool b) where
  passes := fun | .whole _ => ⟨b, rfl⟩
  cut := fun | .missing _ | .bool _ _ => rfl

/-- A reader of strings notices the end. -/
theorem Shape.noticesEnd_string (s : String) :
    NoticesEnd (Shape.string.read room) (.string s) where
  passes := fun | .whole _ => ⟨s, rfl⟩
  cut := fun | .missing _ | .string _ _ => rfl

/-- A number that has lost digits still fits. -/
theorem Shape.noticesEnd_natural (n : UInt64) :
    NoticesEnd ((Shape.integer .unsigned64).read room) (.number (.natural n)) where
  passes := fun
    | .whole _ => ⟨n, Shape.read_natural room n⟩
    | .shorter (.natural _) => ⟨_, Shape.read_natural room _⟩
  cut := fun | .missing _ | .number _ _ => rfl

/-- A reader of names notices the end. -/
private theorem noticesEnd_readVariant {names : List String} {name : String} {i : Fin names.length}
    (hname : choose names name = .ok i) :
    NoticesEnd (Draft.readVariant names) (.string name) where
  passes := fun | .whole _ => ⟨i, congrArg (Except.mapError Fault.mismatch) hname⟩
  cut := fun | .missing _ | .string _ _ => rfl

/-- A reader of choices notices the end. -/
theorem Shape.noticesEnd_choice {names : List String} {name : String} {i : Fin names.length}
    (hname : choose names name = .ok i) :
    NoticesEnd ((Shape.choice names).read room) (.string name) where
  passes := fun | .whole _ => ⟨i, congrArg (Except.mapError Fault.mismatch) hname⟩
  cut := fun | .missing _ | .string _ _ => rfl

variable {room}

/-- A reader of optional objects notices the end of an object. -/
theorem Shape.noticesEnd_optional {shape : Shape} {ms : List (String × Json)}
    (h : NoticesEnd (shape.read room) (.object ms)) :
    NoticesEnd ((Shape.optional shape).read room) (.object ms) where
  passes := by
    rintro d (_ | _)
    obtain ⟨a, ha⟩ := h.passes (.whole _)
    exact ⟨some a, congrArg (Except.map some) ha⟩
  cut := fun
    | .missing _ => congrArg (Except.map some) (h.cut (.missing _))
    | .object hms => congrArg (Except.map some) (h.cut (.object hms))

/-- A reader of optional objects notices the end of null. -/
theorem Shape.noticesEnd_null {title : String} {fields : Fields} :
    NoticesEnd ((Shape.optional (.record title fields)).read room) .null where
  passes := fun | .whole _ => ⟨none, rfl⟩
  cut := fun | .missing _ | .null _ => rfl

/-- A reader of trees notices the end if there is room for the tree. -/
private theorem noticesEnd_toJson {j : Json} (hroom : j.depth ≤ room) :
    NoticesEnd (Draft.toJson room) j where
  passes := fun h => h.exists_toJson hroom
  cut := fun h => h.toJson_eq hroom

/-- A reader of anything notices the end if there is room for the tree. -/
theorem Shape.noticesEnd_anything {j : Json} (hroom : j.depth ≤ room) :
    NoticesEnd (Shape.anything.read room) j where
  passes := by
    intro d h
    obtain ⟨j', hj'⟩ := h.exists_toJson hroom
    exact ⟨_, Shape.read_anything hj'⟩
  cut := fun h => congrArg (Except.map collapse) (h.toJson_eq hroom)

end Leaves

/-! ## Going through the members of an object -/

/-- The members can be handed to `step` one after the other, and it notices where the value of one
    of them is cut. -/
def Members.Handles {σ : Type} (step : String → Draft → σ → Except Fault σ) :
    List (String × Json) → σ → Prop
  | [], _ => True
  | (name, j) :: ms, state =>
    (∀ d, Draft.Cut j d → step name d state = .error .truncated) ∧
      ∀ d, Draft.Passes j d → ∃ state', step name d state = .ok state' ∧ Handles step ms state'

/-- Going through the members of an object that is cut comes to the cut. -/
theorem Members.fold_of_cut {σ : Type} {step : String → Draft → σ → Except Fault σ}
    {ms : List (String × Json)} {state : σ} (hms : Members.Handles step ms state)
    {members : Members} (hcut : Members.Cut ms members) :
    members.fold step state = .error .truncated := by
  induction ms generalizing state members with
  | nil =>
    cases hcut
    rfl
  | cons m ms ih =>
    -- The cut is in this member, or the member is whole and is taken in.
    cases hcut with
    | missing | name => rfl
    | inside _ hvalue => simp only [Members.fold, hms.1 _ hvalue]
    | behind _ _ hpasses hrest =>
      obtain ⟨state', hstep, hstate'⟩ := hms.2 _ hpasses
      simp only [Members.fold, hstep, ih hstate' hrest]

/-! ## Records -/

namespace Fields

variable {room : Nat} {name : String} {shape : Shape} {mayBeLeftOut : Bool} {fields : Fields}
  {d : Draft}

/-- A member whose value cannot be read is refused for that, unless it is the second of its name. -/
private theorem Has.readMember_error (h : fields.Has name shape mayBeLeftOut)
    (hnames : fields.names.Nodup)
    {slots : fields.Slots} (hempty : ¬ fields.IsFilled name slots) {f : Fault}
    (hread : shape.read room d = .error f) : fields.readMember room name d slots = .error f := by
  induction h with
  -- The field is the first one, and its reader fails.
  | head =>
    obtain ⟨slot, slots⟩ := slots
    rw [IsFilled, if_pos rfl] at hempty
    rw [readMember, if_pos rfl, if_neg hempty, hread]
    rfl
  -- The field is a later one, so that its name is another.
  | tail hlater ih =>
    obtain ⟨slot, slots⟩ := slots
    obtain ⟨hfresh, hrest⟩ := List.nodup_cons.mp hnames
    have hne := ne_of_mem_of_not_mem hlater.mem_names hfresh
    rw [IsFilled, if_neg hne] at hempty
    rw [readMember, if_neg hne, ih hrest hempty]
    rfl

/-- Otherwise it is taken, and no slot but its own is filled. -/
private theorem Has.readMember_ok (h : fields.Has name shape mayBeLeftOut)
    (hnames : fields.names.Nodup)
    {slots : fields.Slots} (hempty : ¬ fields.IsFilled name slots) {v : shape.Value}
    (hread : shape.read room d = .ok v) :
    ∃ slots', fields.readMember room name d slots = .ok slots' ∧
      ∀ other, other ≠ name → fields.IsFilled other slots' → fields.IsFilled other slots := by
  induction h with
  -- The field is the first one, and its slot is filled.
  | head =>
    obtain ⟨slot, slots⟩ := slots
    rw [IsFilled, if_pos rfl] at hempty
    refine ⟨(some v, slots), ?_, fun other hother => ?_⟩
    · rw [readMember, if_pos rfl, if_neg hempty, hread]
      rfl
    · rw [IsFilled, IsFilled, if_neg hother, if_neg hother]
      exact id
  -- The field is a later one, and the first slot stays.
  | tail hlater ih =>
    obtain ⟨slot, slots⟩ := slots
    obtain ⟨hfresh, hrest⟩ := List.nodup_cons.mp hnames
    have hne := ne_of_mem_of_not_mem hlater.mem_names hfresh
    rw [IsFilled, if_neg hne] at hempty
    obtain ⟨slots', hslots', hkeeps⟩ := ih hrest hempty
    refine ⟨(slot, slots'), ?_, fun other hother => ?_⟩
    · rw [readMember, if_neg hne, hslots']
      rfl
    · -- The other name is that of this field, or of a later one.
      rw [IsFilled, IsFilled]
      split
      · exact id
      · exact hkeeps other hother

/-- Each field has its member, in the order of declaration, and its reader notices where the value
    of the member is cut. -/
def NoticeEnds (room : Nat) : Fields → List (String × Json) → Prop
  | .nil, ms => ms = []
  | .cons name shape _ rest, ms =>
    ∃ j ms', ms = (name, j) :: ms' ∧ NoticesEnd (shape.read room) j ∧ rest.NoticeEnds room ms'

/-- Without fields there is nothing to notice. -/
theorem NoticeEnds.nil : Fields.nil.NoticeEnds room [] := rfl

/-- One more field whose reader notices the end. -/
theorem NoticeEnds.cons {j : Json} {ms : List (String × Json)}
    (hread : NoticesEnd (shape.read room) j) (hrest : fields.NoticeEnds room ms) :
    (Fields.cons name shape mayBeLeftOut fields).NoticeEnds room ((name, j) :: ms) :=
  ⟨j, ms, rfl, hread, hrest⟩

/-- The members are those of the fields. -/
theorem NoticeEnds.names_eq : (fields : Fields) → {ms : List (String × Json)} →
    fields.NoticeEnds room ms → ms.map Prod.fst = fields.names
  | .nil, _, rfl => rfl
  | .cons name _ _ rest, _, ⟨j, ms', rfl, _, hrest⟩ => by
    rw [List.map_cons, hrest.names_eq rest, names]

/-- Every member has a field whose reader notices the end. -/
private theorem NoticeEnds.exists_has : (fields : Fields) → {ms : List (String × Json)} →
    fields.NoticeEnds room ms → ∀ m ∈ ms, ∃ shape mayBeLeftOut,
      fields.Has m.1 shape mayBeLeftOut ∧ NoticesEnd (shape.read room) m.2
  | .nil, _, rfl, _, hm => by cases hm
  | .cons _ shape mayBeLeftOut rest, _, ⟨_, _, rfl, hread, hrest⟩, m, hm => by
    rcases List.mem_cons.mp hm with rfl | hlater
    · exact ⟨shape, mayBeLeftOut, .head, hread⟩
    · obtain ⟨shape', mayBeLeftOut', hhas, hread'⟩ := hrest.exists_has rest m hlater
      exact ⟨shape', mayBeLeftOut', .tail hhas, hread'⟩

/-- Members of different names are taken one after the other, each into a slot that is empty. -/
private theorem handles_of_has (hfields : fields.names.Nodup) {ms : List (String × Json)}
    (hnames : (ms.map Prod.fst).Nodup)
    (hms : ∀ m ∈ ms, ∃ shape mayBeLeftOut, fields.Has m.1 shape mayBeLeftOut ∧
      NoticesEnd (shape.read room) m.2)
    {slots : fields.Slots} (hempty : ∀ m ∈ ms, ¬ fields.IsFilled m.1 slots) :
    Members.Handles (fun name d slots => fields.readMember room name d slots) ms slots := by
  induction ms generalizing slots with
  | nil => trivial
  | cons m ms ih =>
    obtain ⟨shape, mayBeLeftOut, hhas, hread⟩ := hms m List.mem_cons_self
    have hslot := hempty m List.mem_cons_self
    refine ⟨fun d hcut => hhas.readMember_error hfields hslot (hread.cut hcut),
      fun d hpasses => ?_⟩
    obtain ⟨v, hv⟩ := hread.passes hpasses
    obtain ⟨slots', hslots', hkeeps⟩ := hhas.readMember_ok hfields hslot hv
    refine ⟨slots', hslots', ih (List.nodup_cons.mp hnames).2
      (fun m' hm' => hms m' (List.mem_cons_of_mem m hm')) fun m' hm' hfilled => ?_⟩
    -- Only the slot of this member has been filled.
    have hne : m'.1 ≠ m.1 := fun heq =>
      (List.nodup_cons.mp hnames).1 (heq ▸ List.mem_map_of_mem hm')
    exact hempty m' (List.mem_cons_of_mem m hm') (hkeeps _ hne hfilled)

/-- At first no slot is filled. -/
private theorem not_isFilled_noSlots (name : String) : (fields : Fields) →
    ¬ fields.IsFilled name fields.noSlots
  | .nil => id
  | .cons n _ _ rest => by
    rw [noSlots, IsFilled]
    split
    · exact Bool.false_ne_true
    · exact not_isFilled_noSlots name rest

end Fields

/-- A record notices where it is cut, if the reader of each of its fields does. -/
theorem Shape.noticesEnd_record {title : String} {fields : Fields} {room : Nat}
    {ms : List (String × Json)} {vs : fields.Values} (hnames : fields.names.Nodup)
    (hwhole : (Shape.record title fields).read (room + 1) (Draft.ofJson (.object ms)) = .ok vs)
    (hms : fields.NoticeEnds room ms) :
    NoticesEnd ((Shape.record title fields).read (room + 1)) (.object ms) where
  passes := by
    rintro d (_ | _)
    exact ⟨vs, hwhole⟩
  cut := by
    -- Only an object is cut inside its members.
    rintro d (_ | _ | _ | _ | _ | _ | hmembers)
    · rfl
    · have hhandles := Fields.handles_of_has hnames (hms.names_eq ▸ hnames)
        (hms.exists_has fields) fun m _ => Fields.not_isFilled_noSlots m.1 fields
      rw [Shape.read_object, Members.fold_of_cut hhandles hmembers]

end KvmConsole.Json

namespace KvmConsole

open Json (Draft Shape NoticesEnd NoticesCuts)

/-! ## Statuses -/

namespace Msd

/-- A reader of images notices the end. -/
private theorem Image.noticesEnd (i : Image) (room : Nat) :
    NoticesEnd (Image.shape.read (room + 1)) i.toJson :=
  Shape.noticesEnd_record (by decide) (i.read_ofJson room)
    (.cons (Shape.noticesEnd_string room i.name)
      (.cons (Shape.noticesEnd_natural room i.size)
        (.cons (Shape.noticesEnd_bool room i.complete) .nil)))

/-- A reader of storage notices the end. -/
private theorem Storage.noticesEnd (s : Storage) (room : Nat) :
    NoticesEnd (Storage.shape.read (room + 2)) s.toJson := by
  have hwhole := s.read_ofJson room
  obtain ⟨size, image⟩ := s
  have hsize := Shape.noticesEnd_natural (room + 1) size
  cases image with
  | none =>
    exact Shape.noticesEnd_record (by decide) hwhole
      (.cons hsize (.cons Shape.noticesEnd_null .nil))
  | some image =>
    have himage := Shape.noticesEnd_optional (image.noticesEnd room)
    exact Shape.noticesEnd_record (by decide) hwhole (.cons hsize (.cons himage .nil))

/-- A reader of statuses notices the end. -/
private theorem Status.noticesEnd (s : Status) (room : Nat) :
    NoticesEnd (Status.shape.read (room + 3)) s.toJson :=
  Shape.noticesEnd_record (by decide) (s.read_ofJson room)
    (.cons (Shape.noticesEnd_choice (room + 2) (Target.choose_name s.connectedTo))
      (.cons (Shape.noticesEnd_bool (room + 2) s.busy)
        (.cons (Shape.noticesEnd_bool (room + 2) s.inOperate)
          (.cons (s.info.noticesEnd room) .nil))))

/-- A status is not read off a part of its text. -/
private theorem Status.noticesCuts_text (s : Status) : NoticesCuts Status.ofText s.text :=
  Json.readText_noticesCuts s.isIntegral_toJson (fun _ => nofun) fun _ hcut =>
    congrArg (Except.map ofValue) ((s.noticesEnd 124).cut hcut)

end Msd

/-! ## Events of the daemon -/

namespace Wire.DaemonEvent

/-- The tree of the event that the device has changed. -/
def msdTree (s : Msd.Status) : Json :=
  .object [("event_type", .string "msd_state"), ("event", s.toJson)]

/-- The text of a status event is that of its tree. -/
private theorem write_msdTree (s : Msd.Status) : (msdTree s).write = msdText s.text := by
  apply String.toList_inj.mp
  rw [toList_msdText, Msd.Status.text, Json.toList_write, Json.toList_write]
  simp [msdTree, Json.writeValue, Json.writeMembers]

/-- A reader of frames notices the end of a status event. -/
private theorem noticesEnd_msdTree (s : Msd.Status) :
    NoticesEnd (shape.read Json.depthLimit) (msdTree s) := by
  have hdepth : s.toJson.depth ≤ 126 := Nat.le_trans s.depth_toJson_le (by decide)
  have hwhole : shape.read Json.depthLimit (Draft.ofJson (msdTree s)) =
      .ok ("msd_state", s.toJson.collapse, ()) :=
    Shape.read_record (by decide)
      (.cons rfl (.cons (Shape.read_anything (Draft.toJson_ofJson s.toJson hdepth)) .nil))
      (List.Perm.refl _)
  exact Shape.noticesEnd_record (by decide) hwhole
    (.cons (Shape.noticesEnd_string 126 "msd_state")
      (.cons (Shape.noticesEnd_anything hdepth) .nil))

/-- An event is not read off a part of its text. -/
private theorem noticesCuts_msdText (s : Msd.Status) : NoticesCuts ofText (msdText s.text) := by
  rw [← write_msdTree]
  intro p q h hq
  have hintegral : (msdTree s).IsIntegral := ⟨trivial, s.isIntegral_toJson, trivial⟩
  have hframe : Json.readText (shape.read Json.depthLimit) p = .error .truncated :=
    Json.readText_noticesCuts hintegral (fun _ => nofun) (fun _ => (noticesEnd_msdTree s).cut)
      p q h hq
  -- The body is not looked at before the whole text has been read.
  rw [ofText, hframe]
  rfl

end Wire.DaemonEvent

/-! ## Input events -/

namespace Pointer.HidEvent

open Json (Members)

/-- Fields that are put aside are taken one after the other. -/
private theorem handles_fields {room : Nat} {ms : List (String × Json)}
    (htag : tagName ∉ ms.map Prod.fst) (hdepth : Json.depthOfMembers ms ≤ room)
    {state : Option (Fin kindNames.length) × List (String × Json)} :
    Members.Handles (collectMember room) ms state := by
  induction ms generalizing state with
  | nil => trivial
  | cons m ms ih =>
    obtain ⟨name, j⟩ := m
    obtain ⟨tag, fields⟩ := state
    rw [List.map_cons, List.mem_cons, not_or] at htag
    rw [Json.depthOfMembers, Nat.max_le] at hdepth
    have hread := Json.noticesEnd_toJson hdepth.1
    refine ⟨fun d hcut => ?_, fun d hpasses => ?_⟩
    · -- The member is cut off, and so it has no tree.
      rw [collectMember, if_neg (Ne.symm htag.1), hread.cut hcut]
      rfl
    · obtain ⟨value, hvalue⟩ := hread.passes hpasses
      refine ⟨(tag, (name, value) :: fields), ?_, ih htag.2 hdepth.2⟩
      rw [collectMember, if_neg (Ne.symm htag.1), hvalue]
      rfl

/-- The tag comes first, and then the fields. -/
private theorem handles_toJson (e : HidEvent) {room : Nat} (hroom : 1 ≤ room) :
    Members.Handles (collectMember room) ((tagName, .string e.kindName) :: e.body) (none, []) := by
  have hread := Json.noticesEnd_readVariant
    ((Json.choose_eq_ok_iff (by decide)).mpr e.kindNames_kindIndex)
  have htag : tagName ∉ e.body.map Prod.fst := by
    cases e <;> simp [body, tagName]
  -- The fields are one level below the event.
  have hdepth : Json.depthOfMembers e.body ≤ room := by
    have hevent := e.depth_toJson_le
    rw [toJson, Json.depth, Json.depthOfMembers] at hevent
    omega
  refine ⟨fun d hcut => ?_, fun d hpasses => ?_⟩
  · rw [collectMember, if_pos rfl, if_neg (by simp), hread.cut hcut]
    rfl
  · obtain ⟨kind', hkind'⟩ := hread.passes hpasses
    refine ⟨(some kind', []), ?_, handles_fields htag hdepth⟩
    rw [collectMember, if_pos rfl, if_neg (by simp), hkind']
    rfl

/-- Nothing is collected from a part of an input event. -/
private theorem collect_of_cut (e : HidEvent) {d : Draft} (h : Draft.Cut e.toJson d) :
    collect Json.depthLimit d = .error .truncated := by
  match h with
  | .missing _ => rfl
  | .object hmembers =>
    have hhandles : Members.Handles (collectMember 126) _ (none, []) :=
      e.handles_toJson (by decide)
    have hfold := Members.fold_of_cut hhandles hmembers
    show (Members.fold (collectMember 126) _ (none, []) >>= _) = _
    rw [hfold]
    rfl

/-- An input event is not read off a part of its text. -/
theorem noticesCuts_text (e : HidEvent) : NoticesCuts ofText e.text :=
  Json.readText_noticesCuts e.isIntegral_toJson (fun _ => nofun) fun d hcut => by
    rw [e.collect_of_cut hcut]
    rfl

end Pointer.HidEvent

namespace Wire

open Msd (Status)
open Pointer (HidEvent)

/-- The texts of statuses, of events with a status in them and of input events, cut anywhere: what
    is left, even if it is nothing, is refused because it ends too early. So a beginning of such a
    text never reads as another message. -/
theorem cut_messages_refused :
    (∀ s : Status,
      NoticesCuts Status.ofText s.text ∧
      NoticesCuts DaemonEvent.ofText (DaemonEvent.msdText s.text)) ∧
    (∀ e : HidEvent, NoticesCuts HidEvent.ofText e.text) ∧
    (∀ (s t : Status) (p q : String), p ++ q = s.text → Status.ofText p = .ok t → t = s) ∧
    (∀ (s : Status) (e : DaemonEvent) (p q : String),
      p ++ q = DaemonEvent.msdText s.text → DaemonEvent.ofText p = .ok e → e = .msdState s) ∧
    (∀ (e e' : HidEvent) (p q : String),
      p ++ q = e.text → HidEvent.ofText p = .ok e' → e' = e) := by
  refine ⟨fun s => ⟨s.noticesCuts_text, DaemonEvent.noticesCuts_msdText s⟩,
    HidEvent.noticesCuts_text, fun s t p q h hread => ?_, fun s e p q h hread => ?_,
    fun e e' p q h hread => ?_⟩
  · -- A beginning that is read has to be the whole text.
    rw [s.noticesCuts_text.eq_of_ok h hread, s.ofText_text] at hread
    exact (Except.ok.inj hread).symm
  · rw [(DaemonEvent.noticesCuts_msdText s).eq_of_ok h hread, s.ofText_msdText] at hread
    exact (Except.ok.inj hread).symm
  · rw [e.noticesCuts_text.eq_of_ok h hread, e.ofText_text] at hread
    exact (Except.ok.inj hread).symm

/-- A status whose text has an escape in the name of the image. -/
def interruptedWrite : Status := ⟨.kvm, true, true, ⟨12, some ⟨"\x01é", 40, false⟩⟩⟩

/-- A size and a coordinate that have lost a digit, an escape and a word that are not complete, and
    nothing at all. -/
theorem cut_messages_refused_on_samples :
    Status.ofText ("\x7b\"connected_to\":\"kvm\",\"busy\":true,\"in_operate\":true," ++
      "\"info\":\x7b\"size\":1") = .error .truncated ∧
    Status.ofText ("\x7b\"connected_to\":\"kvm\",\"busy\":true,\"in_operate\":true," ++
      "\"info\":\x7b\"size\":12,\"image\":\x7b\"name\":\"\\u00") = .error .truncated ∧
    DaemonEvent.ofText ("\x7b\"event_type\":\"msd_state\",\"event\":\x7b" ++
      "\"connected_to\":\"kvm\",\"busy\":false,\"in_operate\":fal") = .error .truncated ∧
    HidEvent.ofText "\x7b\"event_type\":\"mouse_move\",\"to\":\x7b\"x\":-1" = .error .truncated ∧
    HidEvent.ofText "" = .error .truncated := by
  refine ⟨(cut_messages_refused.1 interruptedWrite).1 _
      ("2,\"image\":\x7b\"name\":\"\\u0001é\",\"size\":40," ++
        "\"complete\":false\x7d\x7d\x7d") ?_ (by decide),
    (cut_messages_refused.1 interruptedWrite).1 _
      "01é\",\"size\":40,\"complete\":false\x7d\x7d\x7d" ?_ (by decide),
    (cut_messages_refused.1 ⟨.kvm, false, false, ⟨9, none⟩⟩).2 _
      "se,\"info\":\x7b\"size\":9,\"image\":null\x7d\x7d\x7d" ?_ (by decide),
    cut_messages_refused.2.1 (.mouseMove (-12) 30) _ "2,\"y\":30\x7d\x7d" ?_ (by decide),
    cut_messages_refused.2.1 (.mouseMove (-12) 30) "" _ String.empty_append
      (HidEvent.text_ne_empty _)⟩
  -- That the beginning and the rest make up the whole text is computed character by character.
  all_goals apply String.toList_inj.mp
  · rw [String.toList_append, Status.text, Json.toList_write]
    decide
  · rw [String.toList_append, Status.text, Json.toList_write]
    decide
  · rw [String.toList_append, DaemonEvent.toList_msdText, Status.text, Json.toList_write]
    decide
  · rw [String.toList_append, HidEvent.text, Json.toList_write]
    decide

end Wire

end KvmConsole
