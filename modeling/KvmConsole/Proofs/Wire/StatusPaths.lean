import KvmConsole.Proofs.Wire.StatusRoundTrip

/-!
# Two paths for a status

A status can be read off its own text, or off the tree that is the body of an event or of an answer.
The two readers do not accept the same texts. The first one refuses a name that comes twice and
passes over unknown members without a look; the second one lets the last of several members win and
needs the whole tree. But they never take one text for two statuses, and where no name is repeated
the first one understands all that the second one does.

Key results:
* `DaemonEvent.exists_tree_of_msdState`, `Client.exists_tree_of_statusOf`: a status that has been
  delivered is read off the tree of the body.
* `Delivers.eq_of_ofText`, `Delivers.ofText_eq`, `delivered_of_ofText`: what either path makes of a
  text that the other one has made a status of.
* `Msd.Status.paths_agree`: the two paths never disagree.
-/

namespace KvmConsole

open Json (HasBody draftOf)

/-! ## Off the tree of the body -/

namespace Wire

/-- A status event has a status as its body. -/
private theorem DaemonEvent.ofJson_of_ofBody {name : String} {body : Json} {s : Msd.Status}
    (h : ofBody name body = .ok (.msdState s)) : Msd.Status.ofJson body = .ok s := by
  unfold ofBody at h
  split at h
  · obtain ⟨status, hstatus, heq⟩ := Json.exists_of_map_eq_ok h
    obtain rfl := DaemonEvent.msdState.inj heq
    exact hstatus
  split at h
  · obtain ⟨ok, -, heq⟩ := Json.exists_of_map_eq_ok h
    cases heq
  · cases h

/-- The status of an event is read off the tree of its body. -/
theorem DaemonEvent.exists_tree_of_msdState {frame text : String} {s : Msd.Status}
    (hbody : HasBody "event" frame text) (h : ofText frame = .ok (.msdState s)) :
    ∃ j, (draftOf text).toJson 126 = .ok j ∧ Msd.Status.ofJson j.collapse = .ok s := by
  unfold ofText at h
  cases hraw : Json.readText (shape.read Json.depthLimit) frame with
  | error f =>
    simp only [hraw] at h
    cases h
  | ok raw =>
    simp only [hraw, bind, Except.bind] at h
    -- The body was kept as a tree, and that is the tree of the text.
    have hevent : Json.Shape.anything.read 126 (draftOf text) = .ok raw.2.1 :=
      Json.Shape.read_of_carries (by decide) hbody (Json.decode_of_readText hraw)
    obtain ⟨j, hj, hcollapse⟩ := Json.exists_of_map_eq_ok hevent
    refine ⟨j, hj, ?_⟩
    rw [hcollapse]
    exact ofJson_of_ofBody (Json.eq_ok_of_mapError h)

end Wire

namespace Daemon

open Wire (Envelope)

/-- The status of an answer is read off the tree of its result. -/
theorem Client.exists_tree_of_statusOf {r : Response} {text : String} {s : Msd.Status}
    (hbody : HasBody "result" r.body text) (h : Client.statusOf r = .ok s) :
    ∃ j, (draftOf text).toJson 126 = .ok j ∧ Msd.Status.ofJson j.collapse = .ok s := by
  unfold Client.statusOf at h
  split at h
  · cases h
  split at h
  · cases h
  rename_i envelope hany
  split at h
  · cases h
  have hread : Json.readText (fun d => ((Envelope.shape .anything).read Json.depthLimit d).map
      Envelope.ofValue) r.body = .ok envelope := hany
  obtain ⟨raw, hraw, rfl⟩ := Json.exists_of_map_eq_ok (Json.decode_of_readText hread)
  -- The result was kept as a tree, and that is the tree of the text.
  have hresult : Json.Shape.anything.read 126 (draftOf text) = .ok raw.2.1 :=
    Json.Shape.read_of_carries (by decide) hbody hraw
  obtain ⟨j, hj, hcollapse⟩ := Json.exists_of_map_eq_ok hresult
  refine ⟨j, hj, ?_⟩
  rw [hcollapse]
  exact Json.eq_ok_of_mapError h

end Daemon

/-! ## Off the text -/

namespace Msd.Status

open Wire (DaemonEvent Envelope)
open Daemon (Client)

/-- By way of a tree the text is delivered as the status: it is the body of an event of the device,
    or the result of an answer. -/
inductive Delivers (text : String) (s : Status) : Prop where
  | event {frame : String} (hbody : HasBody "event" frame text)
      (hread : DaemonEvent.ofText frame = .ok (.msdState s))
  | answer {response : Client.Response} (hbody : HasBody "result" response.body text)
      (hread : Client.statusOf response = .ok s)

variable {text : String} {s s' : Status}

/-- However a status is delivered, it is read off the tree of its text. -/
private theorem Delivers.exists_tree (h : Delivers text s) :
    ∃ j, (draftOf text).toJson 126 = .ok j ∧ Status.ofJson j.collapse = .ok s := by
  cases h with
  | event hbody hread => exact DaemonEvent.exists_tree_of_msdState hbody hread
  | answer hbody hread => exact Client.exists_tree_of_statusOf hbody hread

/-- A status that is read off the text is read off its tree. -/
private theorem ofJson_of_ofText {j : Json} {n : Nat} (hj : (draftOf text).toJson n = .ok j)
    (hread : Status.ofText text = .ok s) : Status.ofJson j.collapse = .ok s := by
  obtain ⟨v, hv, rfl⟩ := Json.exists_of_map_eq_ok (Json.decode_of_readText hread)
  rw [Status.ofJson, Json.Shape.ofJson_of_read shape hj hv]
  rfl

/-- What is read off the text of its own is what is delivered, if anything is. -/
theorem Delivers.eq_of_ofText (h : Delivers text s) (hread : Status.ofText text = .ok s') :
    s = s' := by
  obtain ⟨j, hj, hs⟩ := h.exists_tree
  rw [ofJson_of_ofText hj hread] at hs
  exact (Except.ok.inj hs).symm

/-- A JSON text that is delivered is read at once too, if no name is repeated in it. -/
theorem Delivers.ofText_eq (h : Delivers text s) (htext : Json.IsText text)
    (hnames : ∀ j, Json.parse text = .ok j → j.HasDistinctNames) : Status.ofText text = .ok s := by
  obtain ⟨j, hj, hs⟩ := h.exists_tree
  have hparse : Json.parse text = .ok j := by
    rw [Json.parse, htext.readText_eq]
    exact (draftOf text).toJson_mono (by decide) hj
  obtain ⟨v, hv, rfl⟩ := Json.exists_of_map_eq_ok hs
  have hread : shape.read Json.depthLimit (draftOf text) = .ok v :=
    Json.Shape.read_of_ofJson shape (by decide) hj htext.skip_draftOf (hnames j hparse) hv
  rw [Status.ofText, htext.readText_eq, hread]
  rfl

/-- A status that is read at once is delivered too, as long as the text has a tree. -/
theorem delivered_of_ofText (htext : Json.IsText text) {j : Json}
    (hj : (draftOf text).toJson 126 = .ok j) (hread : Status.ofText text = .ok s) :
    DaemonEvent.ofText (DaemonEvent.msdText text) = .ok (.msdState s) ∧
      Client.statusOf ⟨200, Envelope.okText text⟩ = .ok s := by
  have htree := ofJson_of_ofText hj hread
  constructor
  · rw [DaemonEvent.ofText_msdText htext hj, DaemonEvent.ofBody, if_pos rfl, htree]
    rfl
  · rw [Client.statusOf_okText htext hj, htree]
    rfl

/-- The two paths of a JSON text to a status never disagree.

    * Every such text can be the body of an event and the result of an answer.
    * However it is delivered, as the one or as the other, it is the same status as the one read off
      the text itself, if that is read at all. And it is read where no object of the text repeats a
      name.
    * Conversely, a status that is read off the text itself is delivered, if the text has a tree
      that leaves room for the frame. -/
theorem paths_agree (htext : Json.IsText text) :
    (HasBody "event" (DaemonEvent.msdText text) text ∧
      HasBody "result" (Envelope.okText text) text) ∧
    (∀ s, Delivers text s →
      (∀ s', Status.ofText text = .ok s' → s = s') ∧
      ((∀ j, Json.parse text = .ok j → j.HasDistinctNames) → Status.ofText text = .ok s)) ∧
    ∀ s j, Status.ofText text = .ok s → (draftOf text).toJson 126 = .ok j →
      DaemonEvent.ofText (DaemonEvent.msdText text) = .ok (.msdState s) ∧
        Client.statusOf ⟨200, Envelope.okText text⟩ = .ok s := by
  refine ⟨⟨DaemonEvent.hasBody_msdText htext, Envelope.hasBody_okText htext⟩, ?_, ?_⟩
  · intro s h
    exact ⟨fun _ hread => h.eq_of_ofText hread, fun hnames => h.ofText_eq htext hnames⟩
  · intro s j hread hj
    exact delivered_of_ofText htext hj hread

/-- A device with an image in its drive. -/
def loaded : Status := ⟨.kvm, false, true, ⟨4096, some ⟨"debian.iso", 1024, true⟩⟩⟩

/-- No name comes twice in the example. -/
private theorem distinctNames_loaded : loaded.toJson.HasDistinctNames := by
  simp [loaded, toJson, Storage.toJson, Image.toJson, Json.HasDistinctNames,
    Json.MembersHaveDistinctNames]

/-- A written status is delivered, and is read at once, as no name is repeated in it. -/
theorem paths_agree_on_loaded :
    Json.IsText loaded.text ∧ Delivers loaded.text loaded ∧
      Status.ofText loaded.text = .ok loaded ∧
      Client.statusOf ⟨200, Envelope.okText loaded.text⟩ = .ok loaded := by
  have hdepth : loaded.toJson.depth ≤ Json.depthLimit :=
    Nat.le_trans loaded.depth_toJson_le (by decide)
  obtain ⟨⟨hbody, -⟩, hagree, hdelivered⟩ := paths_agree loaded.isText_text
  have hdelivers : Delivers loaded.text loaded := .event hbody loaded.ofText_msdText
  have hread : Status.ofText loaded.text = .ok loaded := by
    -- The two ways agree unless the text repeats a name, which it does not.
    refine (hagree loaded hdelivers).2 fun j hj => ?_
    rw [text, Json.parse_write loaded.isIntegral_toJson hdepth] at hj
    obtain rfl := Except.ok.inj hj
    exact distinctNames_loaded
  exact ⟨loaded.isText_text, hdelivers, hread,
    (hdelivered loaded _ hread loaded.toJson_draftOf_text).2⟩

/-- Where a name is repeated, the status may be delivered and yet not be read at once. -/
example :
    let twice : Json := .object [("connected_to", .string "kvm"), ("busy", .bool true),
      ("busy", .bool false), ("in_operate", .bool true),
      ("info", .object [("size", .number (.natural 4096))])]
    DaemonEvent.ofText (DaemonEvent.msdText twice.write) =
        .ok (.msdState ⟨.kvm, false, true, ⟨4096, none⟩⟩) ∧
      Status.ofText twice.write = .error (.mismatch (.duplicateField "busy")) := by
  intro twice
  have htwice : twice.IsIntegral :=
    ⟨trivial, trivial, trivial, trivial, ⟨trivial, trivial⟩, trivial⟩
  have htree : (draftOf twice.write).toJson 126 = .ok twice := by
    rw [Json.draftOf_write htwice]
    rfl
  have hstatus : Status.ofJson twice.collapse = .ok ⟨.kvm, false, true, ⟨4096, none⟩⟩ := by rfl
  constructor
  · rw [DaemonEvent.ofText_msdText (Json.isText_write htwice) htree, DaemonEvent.ofBody,
      if_pos rfl, hstatus]
    rfl
  · rw [Status.ofText, Json.readText_write _ htwice]
    rfl

end Msd.Status

end KvmConsole
