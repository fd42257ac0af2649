import KvmConsole.Proofs.Msd.Session

/-!
# Uploads under other numbers

A panel compares the numbers of uploads and shows none of them. So a panel that numbers its uploads
from somewhere else behaves like the one that numbers them from 1, as long as it is told the same
under its own numbers: it answers the same and shows the same, and the numbers stay apart by as much
as they were.

Key results:
* `view_shift`: the numbers are not seen.
* `handle_shift`: what either panel makes of a report.
* `select_shift`, `startUpload_shift`, `abortUpload_shift`, `issue_shift`: the other things that it
  can be asked for.
-/

namespace KvmConsole.Msd

/-- The upload whose number is greater by `k`. -/
def UploadId.shift (k : Nat) (u : UploadId) : UploadId := ⟨u.number + k⟩

/-- Different uploads stay different when their numbers are shifted. -/
private theorem UploadId.shift_inj {k : Nat} {u v : UploadId} : u.shift k = v.shift k ↔ u = v := by
  obtain ⟨m⟩ := u
  obtain ⟨n⟩ := v
  simp [shift]

/-- The same report about the upload whose number is greater by `k`. -/
def Event.shift (k : Nat) : Event → Event
  | .uploadProgress u loaded total => .uploadProgress (u.shift k) loaded total
  | .uploadFinished u status body => .uploadFinished (u.shift k) status body
  | .commandFinished command status body => .commandFinished command status body

/-- The effect is for the user to see: a view, or an error. -/
def Effect.isSeen : Effect → Bool
  | .render _ | .notify _ => true
  | .startUpload _ _ | .cancelUpload _ | .sendCommand _ | .log _ => false

namespace Panel

/-- The panel with all uploads numbered higher by `k`. -/
def shift (k : Nat) (p : Panel) : Panel :=
  { p with upload := p.upload.map (UploadId.shift k), started := p.started + k }

/-- The numbers of the uploads do not decide where the image comes from. -/
private theorem loc_shift (k : Nat) (p : Panel) : (p.shift k).loc = p.loc := by
  simp [loc, shift]

/-- The view does not tell the numbers of the uploads. -/
theorem view_shift (k : Nat) (p : Panel) : (p.shift k).view = p.view := by
  rw [view, view, loc_shift]
  rfl

/-- An upload is under way in a panel if the shifted one is in the shifted panel. -/
private theorem upload_shift_eq_some_iff {k : Nat} {p : Panel} {u : UploadId} :
    (p.shift k).upload = some (u.shift k) ↔ p.upload = some u := by
  simp [shift, UploadId.shift_inj]

/-- What a turn shows to the user, in order. -/
def seen {α : Type} (turn : Turn Panel Effect α) : List Effect :=
  turn.effects.filter Effect.isSeen

/-- The second turn is the first with all uploads numbered higher by `k`, as far as can be seen. -/
structure Agrees {α : Type} (k : Nat) (first second : Turn Panel Effect α) : Prop where
  state : second.state = first.state.shift k
  result : second.result = first.result
  seen : seen second = seen first

variable {α : Type} {k : Nat}

/-- What is seen of a step that shows the view ends with the view. -/
private theorem seen_shown (p : Panel) (first : List Effect) (result : α) :
    seen (p.shown first result) = first.filter Effect.isSeen ++ [.render p.view] := by
  simp [seen, shown, rendering, note, Effect.isSeen]

/-- The result of a turn is not among what is seen. -/
private theorem seen_map {β : Type} (f : α → β) (turn : Turn Panel Effect α) :
    seen (turn.map f) = seen turn := rfl

/-- Two panels that go over to states with the same view agree if what they do first is seen to be
    the same. -/
theorem Agrees.shown {p q : Panel} (hstate : q = p.shift k) {first second : List Effect}
    (hseen : second.filter Effect.isSeen = first.filter Effect.isSeen) (result : α) :
    Agrees k (p.shown first result) (q.shown second result) where
  state := hstate
  result := rfl
  seen := by
    rw [seen_shown, seen_shown, hseen, hstate, view_shift]

/-! ## What either panel does -/

/-- Files are selected without regard to the numbers. -/
theorem select_shift (p : Panel) (file : ImageFile) :
    Agrees k (p.select file) ((p.shift k).select file) := by
  unfold select
  rw [show (p.shift k).status = p.status from rfl]
  cases hstatus : p.status with
  | none => exact ⟨rfl, rfl, rfl⟩
  | some status =>
    by_cases hsize : status.info.size < file.size
    · simp only [if_pos hsize]
      exact .shown rfl rfl _
    · simp only [if_neg hsize]
      exact .shown rfl rfl _

/-- The panel answers with the number of the upload, which is greater by `k`. -/
theorem startUpload_shift (p : Panel) :
    Agrees k (p.startUpload.map (·.map (UploadId.shift k))) (p.shift k).startUpload := by
  unfold startUpload
  rw [show (p.shift k).selected = p.selected from rfl,
    show (p.shift k).upload.isSome = p.upload.isSome from Option.isSome_map ..]
  -- An upload under way is refused by both, and so is a missing file.
  by_cases hupload : p.upload.isSome
  · simp only [if_pos hupload]
    exact ⟨rfl, rfl, rfl⟩
  · simp only [if_neg hupload]
    cases hselected : p.selected with
    | none => exact ⟨rfl, rfl, rfl⟩
    | some file =>
      -- Both take the next number.
      have hnumber : p.started + k + 1 = p.started + 1 + k := by omega
      have hid : (⟨p.started + k + 1⟩ : UploadId) = UploadId.shift k ⟨p.started + 1⟩ :=
        congrArg UploadId.mk hnumber
      refine ⟨?_, congrArg Except.ok hid, ?_⟩
      · show Panel.mk _ _ (some ⟨p.started + k + 1⟩) _ _ (p.started + k + 1) = _
        rw [hid, hnumber]
        rfl
      · simp only [seen_map, seen_shown]
        rfl

/-- An upload is cancelled under its own number in either panel. -/
theorem abortUpload_shift (p : Panel) : Agrees k p.abortUpload (p.shift k).abortUpload := by
  unfold abortUpload
  cases hupload : p.upload with
  | none =>
    rw [show (p.shift k).upload = none by simp [shift, hupload]]
    exact ⟨rfl, rfl, rfl⟩
  | some u =>
    rw [show (p.shift k).upload = some (u.shift k) from upload_shift_eq_some_iff.mpr hupload]
    have hview := view_shift k { p with upload := none, progress := .aborted }
    refine ⟨rfl, rfl, ?_⟩
    simp only [seen, rendering, note, Effect.isSeen, List.filter_append, List.filter_cons]
    exact congrArg (fun v => [Effect.render v]) hview

/-- Commands are issued without regard to the numbers. -/
theorem issue_shift (p : Panel) (command : Command) :
    Agrees k (p.issue command) ((p.shift k).issue command) where
  state := rfl
  result := rfl
  seen := by
    have hview := view_shift k { p with pending := some command }
    simp only [seen, issue, rendering, note, Effect.isSeen, List.filter_append, List.filter_cons]
    exact congrArg (fun v => [Effect.render v]) hview

/-- A report is about the upload in flight for both panels, or for neither. -/
theorem handle_shift (p : Panel) (e : Event) :
    Agrees k (p.handle e) ((p.shift k).handle (e.shift k)) := by
  cases e with
  -- A report is stale for both panels or for neither.
  | uploadProgress u loaded total =>
    simp only [handle, Event.shift, ne_eq, upload_shift_eq_some_iff]
    by_cases hupload : p.upload = some u
    · simp only [if_neg (not_not.mpr hupload)]
      cases Progress.ofBytes loaded total with
      | none => exact ⟨rfl, rfl, rfl⟩
      | some progress =>
        dsimp only
        exact .shown rfl rfl _
    · simp only [hupload, not_false_eq_true, if_true]
      exact ⟨rfl, rfl, rfl⟩
  | uploadFinished u status body =>
    simp only [handle, Event.shift, ne_eq, upload_shift_eq_some_iff]
    by_cases hupload : p.upload = some u
    · -- The end is shown with a success or with an error, and neither names the upload.
      simp only [hupload, not_true_eq_false, if_false]
      refine .shown rfl ?_ _
      by_cases hok : status = httpOk <;> simp [hok, note, Effect.isSeen]
    · simp only [hupload, not_false_eq_true, if_true]
      exact ⟨rfl, rfl, rfl⟩
  | commandFinished command status body => exact .shown rfl rfl _

end Panel

end KvmConsole.Msd
