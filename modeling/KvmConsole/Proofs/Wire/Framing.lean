import KvmConsole.Proofs.Json.Agreement
import KvmConsole.Wire.DaemonEvent
import KvmConsole.Wire.Envelope

/-!
# Texts inside texts

An answer and an event of the daemon are records of two fields, of which the second holds a value
of its own: the body. A frame around a text has the draft of the text in it, whatever else it has
and in whatever order, and a reader of the frame reads the body off that draft.

Key results:
* `Shape.read_of_carries`: the body of a frame is read off its draft.
* `Envelope.hasBody_okText`, `DaemonEvent.hasBody_msdText`: frames around a JSON text.
* `Envelope.ofText_okText`, `DaemonEvent.ofText_msdText`: what is read of these frames.
-/

namespace KvmConsole.Json

/-! ## Bodies -/

/-- A member of that name has the draft as its value. -/
inductive Members.Has (name : String) (d : Draft) : Members → Prop where
  | head (lax : Except Fault Unit) (rest : Members) :
    Members.Has name d (.member (.string (.ok name) lax) d rest)
  | tail (other value : Draft) {rest : Members} (hrest : Members.Has name d rest) :
    Members.Has name d (.member other value rest)

/-- The draft of a frame has the other draft where its second field belongs: under the name of the
    field, or in the second place if the frame is an array. -/
def Draft.Carries (frame : Draft) (name : String) (d : Draft) : Prop :=
  match frame with
  | .object members => members.Has name d
  | .array (.item _ (.item value _)) => value = d
  | _ => False

/-- What the frame has as its second field, of that name, reads as the text `body` does. -/
def HasBody (name frame body : String) : Prop :=
  (draftOf frame).Carries name (draftOf body)

section Frame

/-- The fields of a frame: one of its own, and the body. -/
abbrev Fields.frame (first : String) (lead : Shape) (second : String) (body : Shape)
    (mayBeLeftOut : Bool) : Fields :=
  .cons first lead false (.cons second body mayBeLeftOut .nil)

variable {title first second : String} {lead body : Shape} {mayBeLeftOut : Bool} {room : Nat}

/-- A member of the name of the body is read into its slot, and no other member changes what that
    slot holds. -/
private theorem Fields.readMember_frame (hne : first ≠ second) {name : String} {value : Draft}
    {slots slots' : (frame first lead second body mayBeLeftOut).Slots}
    (h : (frame first lead second body mayBeLeftOut).readMember room name value slots =
      .ok slots') :
    (name = second → ∃ v, body.read room value = .ok v ∧ slots'.2.1 = some v) ∧
      ∀ v, slots.2.1 = some v → slots'.2.1 = some v := by
  obtain ⟨slot, held, ⟨⟩⟩ := slots
  obtain ⟨slot', held', ⟨⟩⟩ := slots'
  have hplace := (readMember_eq_place room id name value _ _).symm.trans h
  -- The member is the first field, the body or neither.
  rcases place_cons_eq_ok_iff.mp hplace with ⟨hfirst, -, -, hrest⟩ | ⟨-, -, hrest⟩
  · obtain ⟨rfl, -⟩ := Prod.mk.inj hrest
    exact ⟨fun hsecond => absurd (hfirst.symm.trans hsecond) hne, fun _ hv => hv⟩
  · rcases place_cons_eq_ok_iff.mp hrest with ⟨-, rfl, hread, -⟩ | ⟨hother, rfl, -⟩
    · exact ⟨fun _ => hread, nofun⟩
    · exact ⟨fun hsecond => absurd hsecond hother, fun _ hv => hv⟩

/-- The slot of the body ends with what is read off any member of its name, and what it held before
    is still there. -/
private theorem Members.fold_frame (hne : first ≠ second) (members : Members)
    {slots slots' : (Fields.frame first lead second body mayBeLeftOut).Slots}
    (h : members.fold (fun name value slots => Fields.readMember room name value _ slots) slots =
      .ok slots') :
    (∀ d, members.Has second d → ∃ v, body.read room d = .ok v ∧ slots'.2.1 = some v) ∧
      ∀ v, slots.2.1 = some v → slots'.2.1 = some v := by
  match members with
  -- At the end the slots stay as they are.
  | .close =>
    obtain rfl := Except.ok.inj h
    exact ⟨nofun, fun _ hv => hv⟩
  | .broken _ f => cases h
  | .member (.string (.ok name) lax) value rest =>
    simp only [Members.fold] at h
    split at h
    · cases h
    · rename_i between hmember
      obtain ⟨hread, hkeep⟩ := Fields.readMember_frame hne hmember
      obtain ⟨hrest, hkeepRest⟩ := Members.fold_frame hne rest h
      refine ⟨fun d hd => ?_, fun v hv => hkeepRest v (hkeep v hv)⟩
      cases hd with
      | head =>
        -- A later member of the same name would have been refused.
        obtain ⟨v, hv, hnow⟩ := hread rfl
        exact ⟨v, hv, hkeepRest v hnow⟩
      | tail _ _ hd => exact hrest d hd
  | .member (.string (.error f) _) _ _ | .member (.broken _) _ _ | .member (.scalar _ _) _ _
  | .member (.array _) _ _ | .member (.object _) _ _ => cases h

/-- The body of a frame is read off the draft that the frame carries. -/
theorem Shape.read_of_carries (hne : first ≠ second) {draft d : Draft}
    (hcarries : draft.Carries second d)
    {vs : (Fields.frame first lead second body mayBeLeftOut).Values}
    (h : (Shape.record title (.frame first lead second body mayBeLeftOut)).read (room + 1) draft =
      .ok vs) :
    body.read room d = .ok vs.2.1 := by
  unfold Draft.Carries at hcarries
  split at hcarries
  · -- A frame may be an object with the body under its name.
    rename_i members
    rw [Shape.read_object] at h
    split at h
    · cases h
    · rename_i slots hfold
      obtain ⟨v, hv, hheld⟩ := (Members.fold_frame hne members hfold).1 d hcarries
      rw [hv]
      obtain ⟨slot, held, ⟨⟩⟩ := slots
      obtain rfl : held = some v := hheld
      cases slot with
      | none => cases h
      | some u =>
        obtain rfl := Except.ok.inj h
        rfl
  · -- It may also be an array of two, with the body in the second place.
    rename_i front value rest
    subst hcarries
    have hitems : (Fields.frame first lead second body mayBeLeftOut).readItems title 2 room 0
        (.item front (.item value rest)) = .ok vs := h
    simp only [Fields.readItems] at hitems
    split at hitems
    · cases hitems
    · obtain ⟨ws, hrest, rfl⟩ := exists_of_map_eq_ok hitems
      split at hrest
      · cases hrest
      · rename_i w hbody
        obtain ⟨ends, -, rfl⟩ := exists_of_map_eq_ok hrest
        exact hbody
  · cases hcarries

/-- The draft of a frame with its first field and its body, in this order. -/
def Draft.frame (first : String) (value : Draft) (second : String) (d : Draft) : Draft :=
  .object (.member (.string (.ok first) (.ok ())) value
    (.member (.string (.ok second) (.ok ())) d .close))

/-- A frame carries its body. -/
theorem Draft.carries_frame (first : String) (value : Draft) (second : String) (d : Draft) :
    (Draft.frame first value second d).Carries second d :=
  .tail _ _ (.head _ _)

/-- An object of two members is read member by member. -/
private theorem Members.fold_pair {σ : Type} {step : String → Draft → σ → Except Fault σ}
    {value d : Draft} {state between state' : σ} (hfirst : step first value state = .ok between)
    (hsecond : step second d between = .ok state') :
    (Members.member (.string (.ok first) (.ok ())) value
      (.member (.string (.ok second) (.ok ())) d .close)).fold step state = .ok state' := by
  simp only [Members.fold, hfirst, hsecond]

/-- A frame is read as its first field and its body. -/
theorem Shape.read_frame (hne : first ≠ second) {value d : Draft} {v : lead.Value} {w : body.Value}
    (hlead : lead.read room value = .ok v) (hbody : body.read room d = .ok w) :
    (Shape.record title (.frame first lead second body mayBeLeftOut)).read (room + 1)
      (.frame first value second d) = .ok (v, w, ()) := by
  let fields := Fields.frame first lead second body mayBeLeftOut
  -- The first member fills the first slot, and the second one the other.
  have hfirst : fields.readMember room first value fields.noSlots = .ok (some v, none, ()) :=
    (Fields.readMember_eq_place room id first value _ _).trans
      (Fields.place_cons_eq_ok_iff.mpr (.inl ⟨rfl, rfl, ⟨v, hlead, rfl⟩, rfl⟩))
  have hsecond : fields.readMember room second d (some v, none, ()) =
      .ok (some v, some w, ()) :=
    (Fields.readMember_eq_place room id second d _ _).trans
      (Fields.place_cons_eq_ok_iff.mpr (.inr ⟨hne.symm, rfl,
        Fields.place_cons_eq_ok_iff.mpr (.inl ⟨rfl, rfl, ⟨w, hbody, rfl⟩, rfl⟩)⟩))
  rw [Draft.frame, Shape.read_object, Members.fold_pair hfirst hsecond]
  rfl

end Frame

/-! ## Frames around a text -/

/-- The draft of an object with two members, of which the second one has a JSON text as its
    value. -/
private theorem reads_frame {text : String} (htext : IsText text) (first second : String)
    {value : Json}
    (hvalue : value.IsIntegral) :
    Draft.Reads
      ('\x7b' :: (writeString first ++ ':' :: (writeValue value ++
        ',' :: (writeString second ++ ':' :: (text.toList ++ ['\x7d'])))))
      (.frame first (Draft.ofJson value) second (draftOf text)) [] := by
  obtain ⟨rest, hreads, hblank⟩ := htext.exists_reads
  have hbrace : EndsNumber ['\x7d'] := ⟨by decide, by decide, by decide, by decide⟩
  have hcomma (t : List Char) : EndsNumber (',' :: t) :=
    ⟨by decide, by decide, by decide, by decide⟩
  -- Behind the text there may be blanks, and then the object ends.
  have hclose : Members.Reads false (rest ++ ['\x7d']) .close [] := by
    apply Members.reads_close
    rw [skipBlanks_append_of_nil hblank]
    rfl
  have hsecond := Members.reads_next_writeString second (hreads.append hbrace) hclose
  exact Draft.reads_object rfl
    (Members.reads_first_writeString first (Draft.reads_writeValue value hvalue (hcomma _)) hsecond)

end KvmConsole.Json

namespace KvmConsole.Wire

open Json (Draft HasBody Shape draftOf writeChar writeString writeValue)

/-- The text of an answer in order, around the text of its result. -/
def Envelope.okText (result : String) : String :=
  "\x7b\"ok\":true,\"result\":" ++ result ++ "\x7d"

/-- The text of the event that the device has changed, around the text of its status. -/
def DaemonEvent.msdText (status : String) : String :=
  "\x7b\"event_type\":\"msd_state\",\"event\":" ++ status ++ "\x7d"

/-- The characters of an envelope. -/
private theorem Envelope.toList_okText (result : String) :
    (okText result).toList =
      '\x7b' :: (writeString "ok" ++ ':' :: (writeValue (.bool true) ++
        ',' :: (writeString "result" ++ ':' :: (result.toList ++ ['\x7d'])))) := by
  unfold okText
  simp [writeString, writeChar, writeValue]

/-- The characters of a status event. -/
theorem DaemonEvent.toList_msdText (status : String) :
    (msdText status).toList =
      '\x7b' :: (writeString "event_type" ++ ':' :: (writeString "msd_state" ++
        ',' :: (writeString "event" ++ ':' :: (status.toList ++ ['\x7d'])))) := by
  unfold msdText
  simp [writeString, writeChar]

section Text

variable {text : String} (htext : Json.IsText text)

include htext

/-- The draft of an envelope is a frame around that of its result. -/
private theorem Envelope.reads_okText :
    Draft.Reads (okText text).toList
      (.frame "ok" (Draft.ofJson (.bool true)) "result" (draftOf text)) [] := by
  rw [toList_okText]
  exact Json.reads_frame htext "ok" "result" (show Json.IsIntegral (.bool true) from trivial)

/-- The draft of a status event is a frame around that of its body. -/
private theorem DaemonEvent.reads_msdText :
    Draft.Reads (msdText text).toList
      (.frame "event_type" (Draft.ofJson (.string "msd_state")) "event" (draftOf text)) [] := by
  rw [toList_msdText]
  exact Json.reads_frame htext "event_type" "event"
    (show Json.IsIntegral (.string "msd_state") from trivial)

/-- The body of an envelope is its result. -/
theorem Envelope.hasBody_okText : HasBody "result" (okText text) text := by
  rw [HasBody, (reads_okText htext).draftOf_eq]
  exact Draft.carries_frame ..

/-- The body of a status event is the status. -/
theorem DaemonEvent.hasBody_msdText : HasBody "event" (msdText text) text := by
  rw [HasBody, (reads_msdText htext).draftOf_eq]
  exact Draft.carries_frame ..

/-- An answer is read around a result of any shape, with room for one object less. -/
theorem Envelope.ofText_okText {result : Shape} {v : result.Value}
    (hread : result.read 126 (draftOf text) = .ok v) :
    ofText result (okText text) = .ok ⟨true, v⟩ := by
  have henvelope : (shape result).read Json.depthLimit
      (.frame "ok" (Draft.ofJson (.bool true)) "result" (draftOf text)) = .ok (true, v, ()) :=
    Shape.read_frame (by decide) rfl hread
  rw [ofText, Json.readText_eq _ (reads_okText htext) rfl, henvelope]
  rfl

/-- An event is read as its name and its body, which is collapsed before it is looked at. -/
theorem DaemonEvent.ofText_msdText {j : Json} (hj : (draftOf text).toJson 126 = .ok j) :
    ofText (msdText text) = (ofBody "msd_state" j.collapse).mapError .mismatch := by
  have hread : shape.read Json.depthLimit
      (.frame "event_type" (Draft.ofJson (.string "msd_state")) "event" (draftOf text)) =
        .ok ("msd_state", j.collapse, ()) :=
    Shape.read_frame (by decide) rfl (Shape.read_anything hj)
  rw [ofText, Json.readText_eq _ (reads_msdText htext) rfl, hread]
  rfl

end Text

end KvmConsole.Wire
