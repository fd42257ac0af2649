import KvmConsole.Proofs.Json.Spellings
import KvmConsole.Proofs.Wire.EditedMessages

/-!
# Events by name

The frame of an event has a name and a body. The name alone decides what becomes of the body: that
of an event of the device or of its input side has to decode, that of any other event is a JSON
value and nothing more. It does not matter how the name is spelt, where in the frame it stands and
what else there is, and a body that is left out is null.

Key results:
* `Frames.ofText_eq`: what is read of a frame, from its name and its body.
* `frames_eventText`: the plain frame around a name, however it is spelt, and a body.
* `events_by_name`: unknown events are never refused, known ones never passed over.
-/

namespace KvmConsole

namespace Json

/-- Members that can be passed over together can be passed over one by one. -/
private theorem Members.skip_of_mem_entries (members : Members) {ms : List (String × Draft)}
    (hms : members.entries? = some ms) (hskip : members.skip = .ok ()) :
    ∀ m ∈ ms, m.2.skip = .ok () := by
  match members with
  | .close =>
    obtain rfl := Option.some.inj hms
    exact fun m hm => nomatch hm
  | .member (.string (.ok name) lax) value rest =>
    obtain ⟨ms, hrest, rfl⟩ := Option.map_eq_some_iff.mp hms
    obtain ⟨-, hvalue, hskipRest⟩ := Members.skip_member_eq_ok_iff.mp hskip
    exact List.forall_mem_cons.mpr ⟨hvalue, Members.skip_of_mem_entries rest hrest hskipRest⟩
  | .broken _ _ | .member (.string (.error _) _) _ _ | .member (.broken _) _ _
  | .member (.scalar _ _) _ _ | .member (.array _) _ _ | .member (.object _) _ _ => cases hms

/-- Only the draft of an object gives the tree of an object. -/
theorem Draft.exists_eq_object {d : Draft} {room : Nat} {js : List (String × Json)}
    (h : d.toJson (room + 1) = .ok (.object js)) :
    ∃ members, d = .object members ∧ members.toJson room = .ok js := by
  -- The trees of all other drafts are none of an object.
  match d with
  | .broken f => cases h
  | .scalar strict lax =>
    obtain ⟨s, -, hs⟩ := map_eq_ok_iff.mp h
    cases s <;> cases hs
  | .string strict lax =>
    obtain ⟨s, -, hs⟩ := map_eq_ok_iff.mp h
    cases hs
  | .array items =>
    obtain ⟨js', -, hjs'⟩ := map_eq_ok_iff.mp h
    cases hjs'
  | .object members =>
    obtain ⟨js', hmembers, hjs'⟩ := map_eq_ok_iff.mp h
    obtain rfl := Json.object.inj hjs'
    exact ⟨members, rfl, hmembers⟩

end Json

namespace Wire.DaemonEvent

open Json (Draft Members Shape Fields Mismatch IsText SpellsString Yields draftOf depthLimit parse
  under writeString)

/-! ## Frames -/

/-- The text is the frame of an event of a name: an object that has the name in it, once, and the
    body, once or not at all. Its members may come in any order and among others. -/
structure Frames (text n : String) (body : Option Json) : Prop where
  isText : IsText text
  exists_members : ∃ members, parse text = .ok (.object members) ∧
    under "event_type" members = [.string n] ∧ under "event" members = body.toList

section Frames

variable {text n : String} {body : Option Json}

/-- What a field gets off trees, it gets off the drafts of these trees. -/
private theorem gets_readsTree {shape : Shape} {mayBeLeftOut : Bool} {ds : List Draft}
    {js : List Json}
    {v : shape.Value} (hjs : List.Forall₂ (fun d j => d.toJson 126 = .ok j) ds js)
    (h : Json.Gets (fun shape j v => shape.ofJson .collapsed j.collapse = .ok v) shape mayBeLeftOut
      js v) :
    Json.Gets (fun shape => shape.ReadsTree .collapsed 126) shape mayBeLeftOut ds v :=
  (Fields.gets_forall₂_iff (Draft.toJson_functional 126) hjs).mp h

/-- The name and the body are read off a frame. A body that is left out is read as null. -/
private theorem Frames.read_draftOf (h : Frames text n body) :
    shape.read depthLimit (draftOf text) = .ok (n, (body.getD .null).collapse, ()) := by
  obtain ⟨js, hparse, hname, hbody⟩ := h.exists_members
  have htree : (draftOf text).toJson (126 + 1) = .ok (.object js) := Json.decode_of_readText hparse
  have hskip := h.isText.skip_draftOf
  obtain ⟨members, hdraft, hmembers⟩ := Draft.exists_eq_object htree
  rw [hdraft] at hskip ⊢
  obtain ⟨ms, hms, hjs⟩ := (Members.toJson_eq_ok_iff members).mp hmembers
  -- The name is found under its key, and the body under its own.
  have hgetsName : Json.Gets (Yields fun shape d => shape.read 126 d) .string false
      (under "event_type" ms) n := by
    refine gets_name_iff.mpr (gets_readsTree (Fields.forall₂_under hjs) ?_)
    rw [hname]
    rfl
  obtain ⟨j, hgetsBody, hj⟩ : ∃ j : Json,
      Json.Gets (Yields fun shape d => shape.read 126 d) .anything true (under "event" ms) j ∧
        Shape.anything.ofJson .collapsed j = .ok (body.getD .null).collapse := by
    refine gets_body_iff.mpr (gets_readsTree (Fields.forall₂_under hjs) ?_)
    rw [hbody]
    cases body <;> rfl
  -- Anything is kept as it is.
  obtain rfl : j = (body.getD .null).collapse := Except.ok.inj hj
  have hnames : (Fields.frame "event_type" .string "event" .anything true).names.Nodup :=
    show ["event_type", "event"].Nodup by decide
  exact (Shape.read_object_iff hnames).mpr ⟨ms, hms, ⟨hgetsName, hgetsBody, trivial⟩,
    fun m hm _ => members.skip_of_mem_entries hms hskip m hm⟩

/-- A frame is decoded by the name and the tree of the body. -/
theorem Frames.ofText_eq (h : Frames text n body) :
    ofText text = (ofBody n (body.getD .null).collapse).mapError .mismatch := by
  rw [ofText, h.isText.readText_eq, h.read_draftOf]
  rfl

end Frames

/-! ## Plain frames -/

/-- The frame of an event around the text of its name and that of its body, if it has one. -/
def eventText (name : String) : Option String → String
  | some body => "\x7b\"event_type\":" ++ name ++ ",\"event\":" ++ body ++ "\x7d"
  | none => "\x7b\"event_type\":" ++ name ++ "\x7d"

section Plain

variable {name n : String} (hname : SpellsString name n)

include hname

/-- The draft of a frame without a body. -/
private theorem reads_eventText_none :
    Draft.Reads (eventText name none).toList
      (.object (.member (.string (.ok "event_type") (.ok ())) (.string (.ok n) (.ok ())) .close))
      [] := by
  have htext : (eventText name none).toList =
      '\x7b' :: (writeString "event_type" ++ ':' :: (name.toList ++ ['\x7d'])) := by
    unfold eventText
    simp [writeString, Json.writeChar]
  rw [htext]
  exact Draft.reads_object rfl (Members.reads_first_writeString "event_type"
    (Draft.reads_of_spells hname _) (Members.reads_close false rfl))

/-- The draft of a frame with a body. -/
private theorem reads_eventText_some {body : String} (hbody : IsText body) :
    Draft.Reads (eventText name (some body)).toList
      (.frame "event_type" (.string (.ok n) (.ok ())) "event" (draftOf body)) [] := by
  obtain ⟨rest, hreads, hblank⟩ := hbody.exists_reads
  have htext : (eventText name (some body)).toList =
      '\x7b' :: (writeString "event_type" ++ ':' :: (name.toList ++
        ',' :: (writeString "event" ++ ':' :: (body.toList ++ ['\x7d'])))) := by
    unfold eventText
    simp [writeString, Json.writeChar]
  have hbrace : Json.EndsNumber ['\x7d'] := ⟨by decide, by decide, by decide, by decide⟩
  -- Behind the body there may be blanks, and then the frame ends.
  have hclose : Members.Reads false (rest ++ ['\x7d']) .close [] := by
    apply Members.reads_close
    rw [Json.skipBlanks_append_of_nil hblank]
    rfl
  rw [htext]
  exact Draft.reads_object rfl (Members.reads_first_writeString "event_type"
    (Draft.reads_of_spells hname _)
    (Members.reads_next_writeString "event" (hreads.append hbrace) hclose))

/-- A frame without a body has the name that is spelled in it. -/
private theorem frames_eventText_none : Frames (eventText name none) n none := by
  have hreads := reads_eventText_none hname
  have hparse : parse (eventText name none) = .ok (.object [("event_type", .string n)]) :=
    Json.readText_eq _ hreads rfl
  exact ⟨Json.readText_eq _ hreads rfl, _, hparse, by simp [under], by simp [under]⟩

/-- A frame with a body has the name that is spelled in it, and the tree of the body. -/
private theorem frames_eventText_some {body : String} (hbody : IsText body) {j : Json}
    (hj : (draftOf body).toJson 126 = .ok j) :
    Frames (eventText name (some body)) n (some j) := by
  have hreads := reads_eventText_some hname hbody
  have htext : IsText (eventText name (some body)) := by
    refine (Json.readText_eq Draft.skip hreads rfl).trans ?_
    exact Members.skip_member_eq_ok_iff.mpr ⟨⟨.ok "event_type", rfl⟩, rfl,
      Members.skip_member_eq_ok_iff.mpr ⟨⟨.ok "event", rfl⟩, hbody.skip_draftOf, rfl⟩⟩
  have hparse : parse (eventText name (some body)) =
      .ok (.object [("event_type", .string n), ("event", j)]) := by
    refine (Json.readText_eq (Draft.toJson depthLimit) hreads rfl).trans ?_
    simp only [Draft.frame, Draft.toJson, depthLimit, Members.toJson, hj]
    rfl
  exact ⟨htext, _, hparse, by simp [under], by simp [under]⟩

end Plain

/-! ## What the name decides -/

/-- Reads a tree as the health of the input device. -/
def hidOfJson (body : Json) : Except Mismatch Bool :=
  (hidShape.ofJson .collapsed body).map hidOfValue

/-- What is read of the text follows what its body has been decoded to: it is the event of it, and
    the text is malformed where the body has not been decoded. It is never an unknown event. -/
structure Follows {α : Type} (text : String) (decoded : Except Mismatch α)
    (event : α → DaemonEvent) : Prop where
  ok_iff : ∀ a, ofText text = .ok (event a) ↔ decoded = .ok a
  malformed : ∀ e, decoded = .error e → ofText text = .error (.mismatch e)
  known : ∀ m, ofText text ≠ .ok (other m)

/-- A decoder that wraps what another one decodes follows it. -/
private theorem follows_of_eq {α : Type} {text : String} {decoded : Except Mismatch α}
    {event : α → DaemonEvent} (hinjective : Function.Injective event)
    (hknown : ∀ a m, event a ≠ other m)
    (h : ofText text = (decoded.map event).mapError .mismatch) : Follows text decoded event := by
  -- Either side is the decoded value under the wrapper, or its complaint.
  cases decoded with
  | error e =>
    have herror : ofText text = .error (.mismatch e) := h
    refine ⟨fun a => ?_, fun e' he => ?_, fun m => ?_⟩
    · rw [herror]
      exact ⟨nofun, nofun⟩
    · rw [herror, Except.error.inj he]
    · rw [herror]
      nofun
  | ok a =>
    have hok : ofText text = .ok (event a) := h
    refine ⟨fun b => ?_, nofun, fun m => ?_⟩
    · rw [hok, Except.ok.injEq, Except.ok.injEq, hinjective.eq_iff]
    · rw [hok]
      exact fun hm => hknown a m (Except.ok.inj hm)

section Outcome

variable {text n : String} {body : Option Json}

/-- An event of another name is kept by its name. -/
theorem Frames.other (h : Frames text n body) (hmsd : n ≠ "msd_state") (hhid : n ≠ "hid_state") :
    ofText text = .ok (.other n) := by
  rw [h.ofText_eq, ofBody, if_neg hmsd, if_neg hhid]
  rfl

/-- An event of the mass storage is decoded as a status. -/
theorem Frames.msd (h : Frames text "msd_state" body) :
    Follows text (Msd.Status.ofJson (body.getD .null).collapse) msdState := by
  apply follows_of_eq (fun _ _ => msdState.inj) (fun _ _ => nofun)
  rw [h.ofText_eq, ofBody, if_pos rfl]

/-- An event of the pointer device is decoded as its state. -/
theorem Frames.hid (h : Frames text "hid_state" body) :
    Follows text (hidOfJson (body.getD .null).collapse) hidState := by
  apply follows_of_eq (fun _ _ => hidState.inj) (fun _ _ => nofun)
  rw [h.ofText_eq, ofBody, if_neg (by decide), if_pos rfl, hidOfJson]
  cases hidShape.ofJson .collapsed (body.getD .null).collapse <;> rfl

end Outcome

/-- The name of an event decides what becomes of its body.

    * However the name is spelt, and whatever JSON value the body is, the plain frame around them is
      a frame of that name and body, also if the body is left out.
    * The event of a frame is the unknown one of that name, unless the name is known. If it is, the
      body has to decode: the event is the one that it decodes to, and if it does not decode, the
      text is malformed and no unknown event either.
    * A frame without a body is read as one whose body is null. -/
theorem events_by_name :
    (∀ name n, SpellsString name n →
      Frames (eventText name none) n none ∧
      ∀ body j, IsText body → (draftOf body).toJson 126 = .ok j →
        Frames (eventText name (some body)) n (some j)) ∧
    (∀ text n body, Frames text n body →
      (n ≠ "msd_state" → n ≠ "hid_state" → ofText text = .ok (.other n)) ∧
      (n = "msd_state" → Follows text (Msd.Status.ofJson (body.getD .null).collapse) msdState) ∧
      (n = "hid_state" → Follows text (hidOfJson (body.getD .null).collapse) hidState)) ∧
    (∀ text text' n, Frames text n none → Frames text' n (some .null) →
      ofText text = ofText text') := by
  refine ⟨fun name n hname => ⟨frames_eventText_none hname, fun body j hbody hj => ?_⟩,
    fun text n body h => ⟨h.other, ?_, ?_⟩, ?_⟩
  · exact frames_eventText_some hname hbody hj
  · rintro rfl
    exact h.msd
  · rintro rfl
    exact h.hid
  · intro text text' n h h'
    rw [h.ofText_eq, h'.ofText_eq]
    rfl

/-- A name with one escape of each kind in it, which has a smiling face behind a solidus. -/
private theorem spellsString_escapes : SpellsString "\"\\u0061\\/\\ud83d\\ude00\"" "a/😀" := by
  have hletter : Json.SpellsUnit ['0', '0', '6', '1'] 'a'.toNat :=
    .mk (i := 0) (j := 0) (k := 6) (l := 1) rfl rfl rfl rfl
  have hhigh : Json.SpellsUnit ['d', '8', '3', 'd'] 0xd83d :=
    .mk (i := 13) (j := 8) (k := 3) (l := 13) rfl rfl rfl rfl
  have hlow : Json.SpellsUnit ['d', 'e', '0', '0'] 0xde00 :=
    .mk (i := 13) (j := 14) (k := 0) (l := 0) rfl rfl rfl rfl
  have hsolidus : Json.escapeLetter? '/' = some '/' := rfl
  refine ⟨_, ?_, .cons (.number hletter) (.cons (.letter hsolidus)
    (.cons (.pair (c := '😀') hhigh hlow (by decide) (by decide) rfl) .nil))⟩
  decide

/-- An unknown name in escapes, a body that decodes and one that does not, and no body at all. -/
theorem events_by_name_on_samples :
    ofText (eventText "\"\\u0061\\/\\ud83d\\ude00\"" none) = .ok (.other "a/😀") ∧
    ofText (eventText (String.ofList (writeString "hid_state"))
      (some (Json.write (.object [("ok", .bool true)])))) = .ok (.hidState true) ∧
    ofText (eventText (String.ofList (writeString "hid_state")) (some (Json.write (.bool true)))) =
      .error (.mismatch (.invalidType (.bool true) "struct HidState")) ∧
    ofText (eventText (String.ofList (writeString "msd_state")) none) =
      ofText (eventText (String.ofList (writeString "msd_state")) (some (Json.write .null))) := by
  obtain ⟨hframes, houtcome, hmissing⟩ := events_by_name
  have hid := hframes _ _ (Json.spellsString_writeString "hid_state")
  have msd := hframes _ _ (Json.spellsString_writeString "msd_state")
  -- The bodies are written values, whose trees are known.
  have htree {j : Json} (hj : j.IsIntegral) (hdepth : j.depth ≤ 126) :
      (draftOf j.write).toJson 126 = .ok j := by
    rw [Json.draftOf_write hj]
    exact Draft.toJson_ofJson j hdepth
  refine ⟨?_, ?_, ?_, ?_⟩
  · exact (houtcome _ _ _ (hframes _ _ spellsString_escapes).1).1 (by decide) (by decide)
  · have hok : Json.IsIntegral (.object [("ok", .bool true)]) := ⟨trivial, trivial⟩
    have hframe := hid.2 _ _ (Json.isText_write hok) (htree hok (by decide))
    exact (((houtcome _ _ _ hframe).2.2 rfl).ok_iff true).mpr rfl
  · have hbool : Json.IsIntegral (.bool true) := trivial
    have hframe := hid.2 _ _ (Json.isText_write hbool) (htree hbool (by decide))
    exact ((houtcome _ _ _ hframe).2.2 rfl).malformed _ rfl
  · have hnull : Json.IsIntegral .null := trivial
    exact hmissing _ _ _ msd.1 (msd.2 _ _ (Json.isText_write hnull) (htree hnull (by decide)))

end Wire.DaemonEvent

end KvmConsole
