import KvmConsole.Daemon.Client
import KvmConsole.Proofs.Wire.Framing

/-!
# Statuses read back

A status travels as a text of its own, as the result of an answer, and as the body of an event. The
readers differ: some take it off the text at once, some keep a tree first, in which the members of
each object are sorted. Each finds the fields of its record among the members, whatever their order,
so each gives back the status that was written.

Key results:
* `Status.read_ofJson`, `Status.ofJson_collapse`: a status off the draft and off the tree.
* `Status.reads_back`: every reader gives back the status, and the text tells statuses apart.
-/

namespace KvmConsole

open Json (Draft Shape draftOf)

namespace Msd

/-! ## The values of the shapes

What the shapes are to be read as, field by field. -/

def Target.index : Target → Fin Target.names.length
  | kvm => ⟨0, by decide⟩
  | server => ⟨1, by decide⟩

def Image.value (i : Image) : Image.shape.Value := (i.name, i.size, i.complete, ())

def Storage.value (s : Storage) : Storage.shape.Value := (s.size, s.image.map Image.value, ())

def Status.value (s : Status) : Status.shape.Value :=
  (s.connectedTo.index, s.busy, s.inOperate, s.info.value, ())

/-- A target is the one at its index. -/
private theorem Target.ofIndex_index (t : Target) : Target.ofIndex t.index = t := by
  cases t <;> rfl

/-- The name of a target chooses it. -/
theorem Target.choose_name (t : Target) : Json.choose Target.names t.name = .ok t.index := by
  cases t <;> rfl

/-- Storage comes back from its fields. -/
private theorem Storage.ofValue_value (s : Storage) : Storage.ofValue s.value = s := by
  obtain ⟨size, image⟩ := s
  cases image <;> rfl

/-- A status comes back from its fields. -/
private theorem Status.ofValue_value (s : Status) : Status.ofValue s.value = s := by
  simp only [Status.ofValue, Status.value, Target.ofIndex_index, Storage.ofValue_value]

/-! ## From drafts -/

/-- An image is read off its own draft. -/
theorem Image.read_ofJson (i : Image) (room : Nat) :
    Image.shape.read (room + 1) (Draft.ofJson i.toJson) = .ok i.value :=
  Shape.read_record (by decide)
    (.cons rfl (.cons (Shape.read_natural room i.size) (.cons rfl .nil))) (List.Perm.refl _)

/-- Storage is read off its own draft. -/
theorem Storage.read_ofJson (s : Storage) (room : Nat) :
    Storage.shape.read (room + 2) (Draft.ofJson s.toJson) = .ok s.value := by
  obtain ⟨size, image⟩ := s
  have hsize := Shape.read_natural (room + 1) size
  cases image with
  | none =>
    exact Shape.read_record (by decide) (.cons hsize (.cons rfl .nil)) (List.Perm.refl _)
  | some image =>
    -- An image is an object, so it is not taken for nothing.
    have himage := Shape.read_optional (j := image.toJson) nofun (image.read_ofJson room)
    exact Shape.read_record (by decide) (.cons hsize (.cons himage .nil)) (List.Perm.refl _)

/-- A status is read off its own draft. -/
theorem Status.read_ofJson (s : Status) (room : Nat) :
    Status.shape.read (room + 3) (Draft.ofJson s.toJson) = .ok s.value := by
  have htarget : (Shape.choice Target.names).read (room + 2)
      (Draft.ofJson (.string s.connectedTo.name)) = .ok s.connectedTo.index :=
    congrArg (Except.mapError Json.Fault.mismatch) (Target.choose_name s.connectedTo)
  exact Shape.read_record (by decide)
    (.cons htarget (.cons rfl (.cons rfl (.cons (s.info.read_ofJson room) .nil))))
    (List.Perm.refl _)

/-! ## From trees -/

/-- An image is read off its own tree. -/
theorem Image.ofJson_collapse (i : Image) :
    Image.shape.ofJson .collapsed i.toJson.collapse = .ok i.value :=
  Shape.ofJson_collapse_record (by decide)
    (.cons rfl (.cons (Shape.ofJson_natural .collapsed i.size) (.cons rfl .nil)))

/-- Storage is read off its own tree. -/
theorem Storage.ofJson_collapse (s : Storage) :
    Storage.shape.ofJson .collapsed s.toJson.collapse = .ok s.value := by
  obtain ⟨size, image⟩ := s
  have hsize := Shape.ofJson_natural .collapsed size
  cases image with
  | none => exact Shape.ofJson_collapse_record (by decide) (.cons hsize (.cons rfl .nil))
  | some image =>
    have himage := Shape.ofJson_optional (j := image.toJson.collapse) nofun image.ofJson_collapse
    exact Shape.ofJson_collapse_record (by decide) (.cons hsize (.cons himage .nil))

/-- A status is read off its own tree. -/
theorem Status.ofJson_collapse (s : Status) : Status.ofJson s.toJson.collapse = .ok s := by
  have htarget : (Shape.choice Target.names).ofJson .collapsed (.string s.connectedTo.name) =
      .ok s.connectedTo.index := Target.choose_name s.connectedTo
  have hread : Status.shape.ofJson .collapsed s.toJson.collapse = .ok s.value :=
    Shape.ofJson_collapse_record (by decide)
      (.cons htarget (.cons rfl (.cons rfl (.cons s.info.ofJson_collapse .nil))))
  rw [Status.ofJson, hread, Except.map, s.ofValue_value]

/-! ## The texts -/

/-- The numbers of a status are integers. -/
theorem Status.isIntegral_toJson (s : Status) : s.toJson.IsIntegral := by
  obtain ⟨target, busy, inOperate, ⟨size, image⟩⟩ := s
  cases image <;>
    simp [toJson, Storage.toJson, Image.toJson, Json.IsIntegral, Json.MembersIntegral,
      Json.Number.IsInteger]

/-- The tree of a status is three levels deep at most. -/
theorem Status.depth_toJson_le (s : Status) : s.toJson.depth ≤ 3 := by
  obtain ⟨target, busy, inOperate, ⟨size, image⟩⟩ := s
  cases image <;>
    simp [toJson, Storage.toJson, Image.toJson, Json.depth, Json.depthOfMembers]

end Msd

/-- The result of an answer is first read as anything, then as a status. -/
theorem Daemon.Client.statusOf_okText {text : String} (htext : Json.IsText text) {j : Json}
    (hj : (draftOf text).toJson 126 = .ok j) :
    statusOf ⟨200, Wire.Envelope.okText text⟩ =
      (Msd.Status.ofJson j.collapse).mapError fun e => .undecodable (.mismatch e) := by
  have hany : Wire.Envelope.anyOfText (Wire.Envelope.okText text) = .ok ⟨true, j.collapse⟩ :=
    Wire.Envelope.ofText_okText htext (Shape.read_anything hj)
  simp only [statusOf, hany]
  rfl

namespace Msd.Status

open Wire (Envelope DaemonEvent)
open Daemon (Client)

/-- A status is read off its own text. -/
theorem ofText_text (s : Status) : Status.ofText s.text = .ok s := by
  have hread : shape.read Json.depthLimit (Draft.ofJson s.toJson) = .ok s.value :=
    s.read_ofJson 124
  rw [ofText, text, Json.readText_write _ s.isIntegral_toJson, hread, Except.map, s.ofValue_value]

/-- A written status is a JSON text. -/
theorem isText_text (s : Status) : Json.IsText s.text := Json.isText_write s.isIntegral_toJson

/-- The draft of a written status is that of its tree. -/
private theorem draftOf_text (s : Status) : draftOf s.text = Draft.ofJson s.toJson :=
  Json.draftOf_write s.isIntegral_toJson

/-- The tree of a written status is the one that was written. -/
theorem toJson_draftOf_text (s : Status) : (draftOf s.text).toJson 126 = .ok s.toJson := by
  rw [draftOf_text]
  exact Draft.toJson_ofJson s.toJson (Nat.le_trans s.depth_toJson_le (by decide))

/-- The result of an answer is read as a status at once. -/
private theorem statusOfText_okText (s : Status) :
    Envelope.statusOfText (Envelope.okText s.text) = .ok ⟨true, s⟩ := by
  have hread : shape.read 126 (draftOf s.text) = .ok s.value := by
    rw [draftOf_text]
    exact s.read_ofJson 123
  rw [Envelope.statusOfText, Envelope.ofText_okText s.isText_text hread]
  show Except.ok (Envelope.mk true (ofValue s.value)) = _
  rw [s.ofValue_value]

/-- A status is read off the envelope around its text. -/
theorem statusOf_okText (s : Status) : Client.statusOf ⟨200, Envelope.okText s.text⟩ = .ok s := by
  rw [Client.statusOf_okText s.isText_text s.toJson_draftOf_text, s.ofJson_collapse]
  rfl

/-- A status is read off the event around its text. -/
theorem ofText_msdText (s : Status) :
    DaemonEvent.ofText (DaemonEvent.msdText s.text) = .ok (.msdState s) := by
  rw [DaemonEvent.ofText_msdText s.isText_text s.toJson_draftOf_text, DaemonEvent.ofBody,
    if_pos rfl, s.ofJson_collapse]
  rfl

/-- Every reader of a status gives back the status that was written: from the text of its own, from
    an answer around it, read at once or in two stages, and from an event around it. So no two
    statuses have the same text. -/
theorem reads_back :
    (∀ s : Status,
      Status.ofText s.text = .ok s ∧
      Envelope.statusOfText (Envelope.okText s.text) = .ok ⟨true, s⟩ ∧
      Client.statusOf ⟨200, Envelope.okText s.text⟩ = .ok s ∧
      DaemonEvent.ofText (DaemonEvent.msdText s.text) = .ok (.msdState s)) ∧
    Function.Injective Status.text := by
  refine ⟨fun s => ⟨s.ofText_text, s.statusOfText_okText, s.statusOf_okText, s.ofText_msdText⟩, ?_⟩
  -- One text cannot read back as two statuses.
  intro s t htext
  have hread := s.ofText_text
  rw [htext, t.ofText_text] at hread
  exact (Except.ok.inj hread).symm

end Msd.Status

end KvmConsole
