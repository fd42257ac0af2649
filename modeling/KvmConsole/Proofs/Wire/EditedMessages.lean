import KvmConsole.Proofs.Json.Edits
import KvmConsole.Proofs.Wire.HidEventCodec
import KvmConsole.Proofs.Wire.StatusRoundTrip
import KvmConsole.Wire.DaemonEvent
import KvmConsole.Wire.Envelope

/-!
# Messages in other words

Four decoders read messages, each in its own way: statuses and answers at once off the draft, input
events off a tree that keeps the members in their order, and events of the daemon in two stages,
first a frame and then its body off a collapsed tree. None of them notices the order of members, a
member of an unknown name, or whether something that is null has been left out.

Key results:
* `DaemonEvent.looksUp_readsFrame`: the two stages as one lookup.
* `edited_messages`: the decoders on edited texts.
-/

namespace KvmConsole

open Json (Draft Shape Fields Reader LooksUp IsText EndsInBlanks Yields draftOf depthLimit)
open Relation (EqvGen)

/-- What no step notices, no sequence of steps in either direction notices. -/
private theorem iff_of_eqvGen {α : Type} {step : α → α → Prop} {p : α → Prop}
    (hstep : ∀ a b, step a b → (p a ↔ p b)) {a b : α} (h : EqvGen step a b) : p a ↔ p b := by
  induction h with
  | rel a b h => exact hstep a b h
  | refl a => exact Iff.rfl
  | symm a b _ ih => exact ih.symm
  | trans a b c _ _ ih ih' => exact ih.trans ih'

/-- Behind a text there are only blanks. -/
private theorem Json.IsText.endsInBlanks {text : String} (h : IsText text) : EndsInBlanks text :=
  (Json.readText_eq_ok_iff.mp h).2

/-! ## Statuses and answers -/

namespace Msd.Status

/-- The shape of a status is proper. -/
private theorem isProper_shape : shape.IsProper :=
  ⟨by decide, trivial, trivial, trivial,
    ⟨by decide, trivial, ⟨by decide, trivial, trivial, trivial, trivial⟩, trivial⟩, trivial⟩

/-- An edit of the draft of a status. -/
def Edit : Draft → Draft → Prop := shape.Edit Reader.ofDrafts.passes depthLimit

/-- A status is read off the draft of a text, with only blanks behind it. -/
theorem ofText_eq_ok_iff {text : String} {s : Status} :
    ofText text = .ok s ↔
      (∃ v, shape.read depthLimit (draftOf text) = .ok v ∧ s = ofValue v) ∧ EndsInBlanks text := by
  rw [ofText, Json.readText_eq_ok_iff, Json.map_eq_ok_iff]

/-- A status survives edits of its text. -/
private theorem ofText_of_edits {text text' : String} (htext : IsText text')
    (h : EqvGen Edit (draftOf text) (draftOf text')) {s : Status} (hread : ofText text = .ok s) :
    ofText text' = .ok s := by
  obtain ⟨⟨v, hv, hs⟩, -⟩ := ofText_eq_ok_iff.mp hread
  have hsame : shape.read depthLimit (draftOf text) = .ok v ↔
      shape.read depthLimit (draftOf text') = .ok v :=
    iff_of_eqvGen (fun d d' h => Reader.ofDrafts.reads_iff_of_edit shape d d' isProper_shape h v) h
  exact ofText_eq_ok_iff.mpr ⟨⟨v, hsame.mp hv, hs⟩, htext.endsInBlanks⟩

end Msd.Status

namespace Wire

namespace Envelope

/-- An edit of the draft of an answer with a status. -/
def Edit : Draft → Draft → Prop :=
  (shape Msd.Status.shape).Edit Reader.ofDrafts.passes depthLimit

/-- The shape of an answer is proper if that of its result is. -/
private theorem isProper_shape {result : Shape} (h : result.IsProper) : (shape result).IsProper :=
  ⟨show ["ok", "result"].Nodup by decide, trivial, h, trivial⟩

/-- An answer is read off the draft of a text, with only blanks behind it. -/
private theorem statusOfText_eq_ok_iff {text : String} {a : Envelope Msd.Status} :
    statusOfText text = .ok a ↔
      (∃ v, (shape Msd.Status.shape).read depthLimit (draftOf text) = .ok v ∧
        a = (ofValue v).map Msd.Status.ofValue) ∧ EndsInBlanks text := by
  rw [statusOfText, Json.map_eq_ok_iff]
  simp only [ofText, Json.readText_eq_ok_iff, Json.map_eq_ok_iff]
  constructor
  · rintro ⟨_, ⟨⟨v, hv, rfl⟩, hends⟩, ha⟩
    exact ⟨⟨v, hv, ha⟩, hends⟩
  · rintro ⟨⟨v, hv, ha⟩, hends⟩
    exact ⟨_, ⟨⟨v, hv, rfl⟩, hends⟩, ha⟩

/-- An answer survives edits of its text. -/
private theorem statusOfText_of_edits {text text' : String} (htext : IsText text')
    (h : EqvGen Edit (draftOf text) (draftOf text')) {a : Envelope Msd.Status}
    (hread : statusOfText text = .ok a) : statusOfText text' = .ok a := by
  obtain ⟨⟨v, hv, ha⟩, -⟩ := statusOfText_eq_ok_iff.mp hread
  have hproper := isProper_shape Msd.Status.isProper_shape
  have hsame : (shape Msd.Status.shape).read depthLimit (draftOf text) = .ok v ↔
      (shape Msd.Status.shape).read depthLimit (draftOf text') = .ok v :=
    iff_of_eqvGen (fun d d' h => Reader.ofDrafts.reads_iff_of_edit _ d d' hproper h v) h
  exact statusOfText_eq_ok_iff.mpr ⟨⟨v, hsame.mp hv, ha⟩, htext.endsInBlanks⟩

end Envelope

/-! ## Events of the daemon -/

namespace DaemonEvent

def name : DaemonEvent → String
  | msdState _ => "msd_state"
  | hidState _ => "hid_state"
  | other name => name

/-- What the body of an event looks like. -/
def bodyShape : DaemonEvent → Shape
  | msdState _ => Msd.Status.shape
  | hidState _ => hidShape
  | other _ => .anything

/-- The body of an event as a value of its shape. -/
def HasBodyValue : (e : DaemonEvent) → e.bodyShape.Value → Prop
  | msdState s, v => Msd.Status.ofValue v = s
  | hidState ok, v => hidOfValue v = ok
  | other name, _ => name ≠ "msd_state" ∧ name ≠ "hid_state"

/-- An event is decoded by its name and the shape of its body. -/
theorem ofBody_eq_ok_iff {n : String} {body : Json} {e : DaemonEvent} :
    ofBody n body = .ok e ↔
      n = e.name ∧ ∃ v, e.bodyShape.ofJson .collapsed body = .ok v ∧ e.HasBodyValue v := by
  have hmsd : ofBody "msd_state" body = (Msd.Status.ofJson body).map msdState := if_pos rfl
  have hhid : ofBody "hid_state" body =
      (hidShape.ofJson .collapsed body).map fun v => hidState (hidOfValue v) := by
    rw [ofBody, if_neg (by decide), if_pos rfl]
  have hother (hn : n ≠ "msd_state" ∧ n ≠ "hid_state") : ofBody n body = .ok (other n) := by
    rw [ofBody, if_neg hn.1, if_neg hn.2]
  constructor
  · intro h
    -- The name is one of the two known ones, or another.
    by_cases h₁ : n = "msd_state"
    · subst h₁
      obtain ⟨s, hs, he⟩ := Json.map_eq_ok_iff.mp (hmsd.symm.trans h)
      obtain ⟨v, hv, hs⟩ := Json.map_eq_ok_iff.mp hs
      subst he hs
      exact ⟨rfl, v, hv, rfl⟩
    by_cases h₂ : n = "hid_state"
    · subst h₂
      obtain ⟨v, hv, he⟩ := Json.map_eq_ok_iff.mp (hhid.symm.trans h)
      subst he
      exact ⟨rfl, v, hv, rfl⟩
    · rw [hother ⟨h₁, h₂⟩] at h
      obtain rfl := Except.ok.inj h
      exact ⟨rfl, body, rfl, h₁, h₂⟩
  · rintro ⟨rfl, v, hv, he⟩
    cases e with
    | msdState s =>
      exact hmsd.trans (Json.map_eq_ok_iff.mpr ⟨s, Json.map_eq_ok_iff.mpr ⟨v, hv, he.symm⟩, rfl⟩)
    | hidState ok =>
      exact hhid.trans (Json.map_eq_ok_iff.mpr ⟨v, hv, congrArg hidState he.symm⟩)
    | other n => exact hother he

/-- An event as a record of its name and its body. -/
def frameFields (e : DaemonEvent) : Fields :=
  .cons "event_type" .string false <|
  .cons "event" e.bodyShape true .nil

/-- The two fields of a frame have different names. -/
private theorem nodup_names_frameFields (e : DaemonEvent) : e.frameFields.names.Nodup :=
  show ["event_type", "event"].Nodup by decide

/-- The fields of a frame are proper. -/
private theorem areProper_frameFields (e : DaemonEvent) : e.frameFields.AreProper := by
  refine ⟨trivial, ?_, trivial⟩
  cases e with
  | msdState _ => exact Msd.Status.isProper_shape
  | hidState _ => exact ⟨by decide, trivial, trivial⟩
  | other _ => trivial

/-- The frame is read off the draft, and the body then off its tree. -/
def ReadsFrame (e : DaemonEvent) (d : Draft) (vs : e.frameFields.Values) : Prop :=
  ∃ body : Json, shape.read depthLimit d = .ok (vs.1, body, ()) ∧
    e.bodyShape.ofJson .collapsed body = .ok vs.2.1

/-- An event is read off the draft of a text, with only blanks behind it. -/
theorem ofText_eq_ok_iff {text : String} {e : DaemonEvent} :
    ofText text = .ok e ↔
      (∃ v, e.ReadsFrame (draftOf text) (e.name, v, ()) ∧ e.HasBodyValue v) ∧
        EndsInBlanks text := by
  simp only [ofText, Json.bind_eq_ok_iff, Json.readText_eq_ok_iff]
  constructor
  · rintro ⟨⟨n, body, ⟨⟩⟩, ⟨hraw, hends⟩, hread⟩
    obtain ⟨rfl, v, hv, he⟩ := ofBody_eq_ok_iff.mp (Json.mapError_eq_ok_iff.mp hread)
    exact ⟨⟨v, ⟨body, hraw, hv⟩, he⟩, hends⟩
  · rintro ⟨⟨v, ⟨body, hraw, hv⟩, he⟩, hends⟩
    exact ⟨(e.name, body, ()), ⟨hraw, hends⟩,
      Json.mapError_eq_ok_iff.mpr (ofBody_eq_ok_iff.mpr ⟨rfl, v, hv, he⟩)⟩

/-- A string off the draft is the string off its tree. -/
private theorem read_string_iff_readsTree {room : Nat} {d : Draft} {s : String} :
    Shape.string.read room d = .ok s ↔ Shape.string.ReadsTree .collapsed room d s := by
  constructor
  · intro hread
    -- Both readers refuse everything but strings.
    cases d with
    | string text _ =>
      cases text with
      | ok t =>
        obtain rfl : t = s := Except.ok.inj hread
        exact ⟨.string t, rfl, rfl⟩
      | error _ => cases hread
    | scalar value _ => cases value <;> cases hread
    | broken _ | array _ | object _ => cases hread
  · rintro ⟨j, hj, hread⟩
    have hview := Shape.ofJson_string_iff.mp hread
    cases Draft.holds hj with
    | string _ t _ =>
      obtain rfl : t = s := Json.string.inj hview
      rfl
    | scalar _ t _ => cases t <;> cases hview
    | array _ | object _ => cases hview

/-- The name of an event is read alike in one stage and in two. -/
theorem gets_name_iff {values : List Draft} {n : String} :
    Json.Gets (Yields fun shape d => shape.read 126 d) .string false values n ↔
      Json.Gets (fun shape => shape.ReadsTree .collapsed 126) .string false values n := by
  refine Json.gets_required_iff.trans (Iff.trans ?_ Json.gets_required_iff.symm)
  exact exists_congr fun d => and_congr_right' read_string_iff_readsTree

/-- The body is kept as a tree, and then read. If it is left out, it is null. -/
theorem gets_body_iff {body : Shape} {values : List Draft} {v : body.Value} :
    (∃ j : Json, Json.Gets (Yields fun shape d => shape.read 126 d) .anything true values j ∧
        body.ofJson .collapsed j = .ok v) ↔
      Json.Gets (fun shape => shape.ReadsTree .collapsed 126) body true values v := by
  match values with
  | [] =>
    -- Being left out amounts to null in both stages.
    rw [Json.Gets, Shape.leftOut?, if_pos rfl, ← Shape.ofJson_null_iff .collapsed]
    constructor
    · rintro ⟨j, hj, hread⟩
      obtain rfl := Option.some.inj hj
      exact hread
    · exact fun hread => ⟨.null, rfl, hread⟩
  | [d] =>
    constructor
    · rintro ⟨j, hj, hread⟩
      obtain ⟨tree, htree, rfl⟩ := Json.map_eq_ok_iff.mp hj
      exact ⟨tree, htree, hread⟩
    · rintro ⟨tree, htree, hread⟩
      exact ⟨tree.collapse, Json.map_eq_ok_iff.mpr ⟨tree, htree, rfl⟩, hread⟩
  | _ :: _ :: _ =>
    refine ⟨?_, False.elim⟩
    rintro ⟨_, h, -⟩
    exact h

/-- The raw frame is looked up field by field. -/
private theorem looksUp_shape :
    LooksUp (.cons "event_type" .string false (.cons "event" .anything true .nil))
      (fun d vs => shape.read depthLimit d = .ok vs) (fun shape d v => shape.read 126 d = .ok v)
      (fun d => d.skip = .ok ()) :=
  Shape.looksUp_read (show ["event_type", "event"].Nodup by decide)

/-- The two stages look up the name and the body of an event. -/
theorem looksUp_readsFrame (e : DaemonEvent) :
    LooksUp e.frameFields e.ReadsFrame (fun shape => shape.ReadsTree .collapsed 126)
      (fun d => d.skip = .ok ()) where
  object_iff := by
    rintro members ms hms hdistinct ⟨n, v, ⟨⟩⟩
    constructor
    · -- The first stage keeps the body as a tree, and the second one reads it.
      rintro ⟨body, hraw, hread⟩
      obtain ⟨⟨hname, hbody, -⟩, hpasses⟩ := (looksUp_shape.object_iff hms hdistinct).mp hraw
      exact ⟨⟨gets_name_iff.mp hname, gets_body_iff.mp ⟨body, hbody, hread⟩, trivial⟩, hpasses⟩
    · rintro ⟨⟨hname, hbody, -⟩, hpasses⟩
      obtain ⟨body, hbody, hread⟩ := gets_body_iff.mpr hbody
      exact ⟨body, (looksUp_shape.object_iff hms hdistinct).mpr
        ⟨⟨gets_name_iff.mpr hname, hbody, trivial⟩, hpasses⟩, hread⟩
  array_iff := by
    rintro items ds hds ⟨n, v, ⟨⟩⟩
    constructor
    · rintro ⟨body, hraw, hread⟩
      obtain ⟨hname, hbody, hend⟩ := (looksUp_shape.array_iff hds).mp hraw
      exact ⟨gets_name_iff.mp hname, gets_body_iff.mp ⟨body, hbody, hread⟩, hend⟩
    · rintro ⟨hname, hbody, hend⟩
      obtain ⟨body, hbody, hread⟩ := gets_body_iff.mpr hbody
      exact ⟨body, (looksUp_shape.array_iff hds).mpr ⟨gets_name_iff.mpr hname, hbody, hend⟩, hread⟩

/-- An edit of the draft of an event: of its frame, or of its body if the name is known. -/
def Edit (e : DaemonEvent) : Draft → Draft → Prop :=
  e.frameFields.RecordEdit (Shape.Edit (Reader.ofTrees .collapsed).passes 126)
    (fun d => d.skip = .ok ())

/-- An event survives edits of its text. -/
private theorem ofText_of_edits {text text' : String} (htext : IsText text') {e : DaemonEvent}
    (h : EqvGen e.Edit (draftOf text) (draftOf text')) (hread : ofText text = .ok e) :
    ofText text' = .ok e := by
  obtain ⟨⟨v, hv, he⟩, -⟩ := ofText_eq_ok_iff.mp hread
  have hsame : e.ReadsFrame (draftOf text) (e.name, v, ()) ↔
      e.ReadsFrame (draftOf text') (e.name, v, ()) :=
    iff_of_eqvGen (p := fun d => e.ReadsFrame d (e.name, v, ())) (fun d d' h =>
      e.looksUp_readsFrame.iff_of_recordEdit e.nodup_names_frameFields
      Shape.readsTree_null_iff h e.areProper_frameFields
      (Reader.ofTrees .collapsed).reads_iff_of_edit) h
  exact ofText_eq_ok_iff.mpr ⟨⟨v, hsame.mp hv, he⟩, htext.endsInBlanks⟩

end DaemonEvent

end Wire

/-! ## Input events -/

namespace Pointer.HidEvent

/-- The shape of an input event is proper. -/
private theorem isProper_shape (e : HidEvent) : e.shape.IsProper := by
  refine ⟨e.nodup_names_taggedFields, trivial, ?_⟩
  cases e with
  | mouseButton _ _ => exact ⟨trivial, trivial, trivial⟩
  | mouseMove _ _ => exact ⟨⟨by decide, trivial, trivial, trivial⟩, trivial⟩
  | mouseWheel _ _ => exact ⟨⟨by decide, trivial, trivial, trivial⟩, trivial⟩

/-- An edit of the draft of an input event. The tag is a member like others. -/
def Edit (e : HidEvent) : Draft → Draft → Prop :=
  e.shape.Edit (Reader.ofTrees .buffered).passes depthLimit

/-- An input event survives edits of its text. -/
private theorem ofText_of_edits {text text' : String} (htext : IsText text') {e : HidEvent}
    (h : EqvGen e.Edit (draftOf text) (draftOf text')) (hread : ofText text = .ok e) :
    ofText text' = .ok e := by
  rw [ofText, Json.readText_eq_ok_iff] at hread ⊢
  have hsame : e.shape.ReadsTree .buffered depthLimit (draftOf text) e.taggedValues ↔
      e.shape.ReadsTree .buffered depthLimit (draftOf text') e.taggedValues :=
    iff_of_eqvGen (fun d d' h =>
      (Reader.ofTrees .buffered).reads_iff_of_edit _ d d' e.isProper_shape h e.taggedValues) h
  exact ⟨ofDraft_eq_ok_iff.mpr (hsame.mp (ofDraft_eq_ok_iff.mp hread.1)), htext.endsInBlanks⟩

end Pointer.HidEvent

/-! ## The decoders on edited texts -/

namespace Wire

/-- A text that is read as a message is read as the same message after any number of edits: the
    members of objects that are records, at any depth, change their order, members of unknown names
    come in, and what may be left out is null instead. -/
theorem edited_texts_agree :
    (∀ (text text' : String) (s : Msd.Status), IsText text' →
      EqvGen Msd.Status.Edit (draftOf text) (draftOf text') →
        Msd.Status.ofText text = .ok s → Msd.Status.ofText text' = .ok s) ∧
    (∀ (text text' : String) (a : Envelope Msd.Status), IsText text' →
      EqvGen Envelope.Edit (draftOf text) (draftOf text') →
        Envelope.statusOfText text = .ok a → Envelope.statusOfText text' = .ok a) ∧
    (∀ (text text' : String) (e : DaemonEvent), IsText text' →
      EqvGen e.Edit (draftOf text) (draftOf text') →
        DaemonEvent.ofText text = .ok e → DaemonEvent.ofText text' = .ok e) ∧
    (∀ (text text' : String) (e : Pointer.HidEvent), IsText text' →
      EqvGen e.Edit (draftOf text) (draftOf text') →
        Pointer.HidEvent.ofText text = .ok e → Pointer.HidEvent.ofText text' = .ok e) :=
  ⟨fun _ _ _ htext h hread => Msd.Status.ofText_of_edits htext h hread,
    fun _ _ _ htext h hread => Envelope.statusOfText_of_edits htext h hread,
    fun _ _ _ htext h hread => DaemonEvent.ofText_of_edits htext h hread,
    fun _ _ _ htext h hread => Pointer.HidEvent.ofText_of_edits htext h hread⟩

/-! ### Each decoder on a text and an edited one -/

/-- An edit of a tree is an edit of its text. -/
private theorem eqvGen_of_edit {step : Draft → Draft → Prop} {j j' : Json} (hj : j.IsIntegral)
    (hj' : j'.IsIntegral) (h : step (Draft.ofJson j) (Draft.ofJson j')) :
    EqvGen step (draftOf j.write) (draftOf j'.write) := by
  rw [Json.draftOf_write hj, Json.draftOf_write hj']
  exact .rel _ _ h

/-- A drive without an image. -/
def emptyDrive : Msd.Status := ⟨.kvm, false, false, ⟨9, none⟩⟩

/-- The image is null or left out; the result of an answer comes first or last; the body of an event
    has another member or not; the tag of an input event comes first or last. -/
theorem edited_texts_agree_on_samples :
    Msd.Status.ofText (Json.object [("connected_to", .string "kvm"), ("busy", .bool false),
          ("in_operate", .bool false), ("info", .object [("size", .number (.natural 9))])]).write =
        .ok emptyDrive ∧
      Envelope.statusOfText (Json.object [("result", emptyDrive.toJson),
          ("ok", .bool true)]).write = .ok ⟨true, emptyDrive⟩ ∧
      DaemonEvent.ofText (Json.object [("event_type", .string "hid_state"),
          ("event", .object [("since", .null), ("ok", .bool true)])]).write =
        .ok (.hidState true) ∧
      Pointer.HidEvent.ofText (Json.object [("state", .bool true), ("button", .string "left"),
          ("event_type", .string "mouse_button")]).write = .ok (.mouseButton .left true) := by
  have hdrive : emptyDrive.toJson.IsIntegral := emptyDrive.isIntegral_toJson
  refine ⟨?_, ?_, ?_, ?_⟩
  · -- The image stands two levels down: an edit of the info, and in it of the member.
    have hleftOut : (Json.object [("connected_to", .string "kvm"), ("busy", .bool false),
        ("in_operate", .bool false),
        ("info", .object [("size", .number (.natural 9))])]).IsIntegral :=
      ⟨trivial, trivial, trivial, ⟨trivial, trivial⟩, trivial⟩
    refine edited_texts_agree.1 emptyDrive.text _ _ (Json.isText_write hleftOut)
      (eqvGen_of_edit hdrive hleftOut ?_) emptyDrive.ofText_text
    refine ⟨_, rfl, .object rfl rfl (by decide) ?_⟩
    refine @Fields.MembersEdit.value _ _ _ [_, _, _] [] _ _ _ _ _ (.tail (.tail (.tail .head))) ?_
    exact ⟨_, rfl, .object rfl rfl (by decide)
      (@Fields.MembersEdit.leaveOut _ _ _ [_] [] _ _ (.tail .head))⟩
  · -- The two members of the answer change places.
    have hfirst : (Json.object [("ok", .bool true), ("result", emptyDrive.toJson)]).IsIntegral :=
      ⟨trivial, hdrive, trivial⟩
    have hlast : (Json.object [("result", emptyDrive.toJson), ("ok", .bool true)]).IsIntegral :=
      ⟨hdrive, trivial, trivial⟩
    have hread : (Envelope.shape Msd.Status.shape).read depthLimit
        (Draft.ofJson (.object [("ok", .bool true), ("result", emptyDrive.toJson)])) =
          .ok (true, emptyDrive.value, ()) :=
      Shape.read_record (show ["ok", "result"].Nodup by decide)
        (.cons rfl (.cons (emptyDrive.read_ofJson 123) .nil)) (List.Perm.refl _)
    refine edited_texts_agree.2.1 _ _ _ (Json.isText_write hlast) (eqvGen_of_edit hfirst hlast ?_)
      (Envelope.statusOfText_eq_ok_iff.mpr
        ⟨⟨_, by rw [Json.draftOf_write hfirst]; exact hread, rfl⟩,
          (Json.isText_write hfirst).endsInBlanks⟩)
    exact ⟨_, rfl, .object rfl rfl (by decide) (.reorder (.swap _ _ _))⟩
  · -- A member of an unknown name comes into the body.
    have hshort : (Json.object [("event_type", .string "hid_state"),
        ("event", .object [("ok", .bool true)])]).IsIntegral :=
      ⟨trivial, ⟨trivial, trivial⟩, trivial⟩
    have hlong : (Json.object [("event_type", .string "hid_state"),
        ("event", .object [("since", .null), ("ok", .bool true)])]).IsIntegral :=
      ⟨trivial, ⟨trivial, trivial, trivial⟩, trivial⟩
    have hraw : DaemonEvent.shape.read depthLimit (Draft.ofJson (.object
        [("event_type", .string "hid_state"), ("event", .object [("ok", .bool true)])])) =
          .ok ("hid_state", Json.object [("ok", .bool true)], ()) :=
      Shape.read_record (show ["event_type", "event"].Nodup by decide)
        (.cons rfl (.cons (Shape.read_anything (Draft.toJson_ofJson _ (by decide))) .nil))
        (List.Perm.refl _)
    have hbody : DaemonEvent.hidShape.ofJson .collapsed (.object [("ok", .bool true)]) =
        .ok (true, ()) := rfl
    refine edited_texts_agree.2.2.1 _ _ _ (Json.isText_write hlong)
      (eqvGen_of_edit hshort hlong ?_) (DaemonEvent.ofText_eq_ok_iff.mpr
        ⟨⟨(true, ()), ⟨_, by rw [Json.draftOf_write hshort]; exact hraw, hbody⟩, rfl⟩,
          (Json.isText_write hshort).endsInBlanks⟩)
    refine .object rfl rfl (by decide) ?_
    refine @Fields.MembersEdit.value _ _ _ [_] [] _ _ _ _ _ (.tail .head) ?_
    exact ⟨_, rfl, .object rfl rfl (by decide) (@Fields.MembersEdit.insert _ _ _ [] [_] _ _
      (by decide) (by decide) ⟨⟨_, rfl⟩, Nat.zero_le _⟩)⟩
  · -- The tag moves behind the fields.
    have hlast : (Json.object [("state", .bool true), ("button", .string "left"),
        ("event_type", .string "mouse_button")]).IsIntegral :=
      ⟨trivial, trivial, trivial, trivial⟩
    refine edited_texts_agree.2.2.2 (Pointer.HidEvent.mouseButton .left true).text _ _
      (Json.isText_write hlast)
      (eqvGen_of_edit (Pointer.HidEvent.isIntegral_toJson _) hlast ?_)
      (Pointer.HidEvent.ofText_text _)
    exact ⟨_, rfl, .object rfl rfl (by decide) (.reorder (List.reverse_perm _).symm)⟩

end Wire

end KvmConsole
