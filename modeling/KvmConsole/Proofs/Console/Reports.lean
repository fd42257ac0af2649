import KvmConsole.Console.Operation
import KvmConsole.Proofs.Msd.StaleReports

/-!
# Waiting for an end

A console that waits for the end of a command or an upload takes in every report on the way: those
about earlier uploads that were interrupted, and those of progress. None of them ends the wait, and
none is shown as an error.

Key results:
* `handle_of_passesOver`: what the panel makes of a report in which it sees no end.
* `append_of_cons`: a wait passes over such reports, however many there are and in whatever order.
* `awaitCommand_eq`, `awaitUpload_eq`, `awaitUpload_eq_aborted`: what a wait comes to.
-/

namespace KvmConsole

/-! ## What the panel makes of a report -/

namespace Msd.Panel

/-- The panel sees no end in a report. -/
def PassesOver (p : Panel) : Event → Prop
  | .uploadProgress _ _ _ => True
  | .uploadFinished u _ _ => p.upload ≠ some u
  | .commandFinished _ _ _ => False

/-- A stale report is passed over. -/
theorem passesOver_of_stale {p : Panel} {e : Event} {u : UploadId} (he : e.upload? = some u)
    (hupload : p.upload ≠ some u) : p.PassesOver e := by
  cases e with
  | uploadProgress => trivial
  | uploadFinished => exact Option.some.inj he ▸ hupload
  | commandFinished => cases he

/-- What is only logged notifies of nothing. -/
private theorem filterMap_notice?_of_isLog {effects : List Effect} (h : ∀ e ∈ effects, e.isLog) :
    effects.filterMap Effect.notice? = [] := by
  rw [List.filterMap_eq_nil_iff]
  intro e he
  cases e with
  | log => rfl
  | _ => exact absurd (h _ he) Bool.false_ne_true

/-- Whether the panel sees an end in a report does not depend on the progress. -/
private theorem passesOver_with_progress {p : Panel} {progress : Progress} {e : Event} :
    { p with progress }.PassesOver e ↔ p.PassesOver e := by
  cases e <;> exact Iff.rfl

/-- A report in which the panel sees no end changes the progress at most, and that only while an
    upload is in flight. It shows no error. -/
theorem handle_of_passesOver {p : Panel} {e : Event} (h : p.PassesOver e) :
    ∃ progress, (p.handle e).state = { p with progress } ∧
      (p.upload = none → progress = p.progress) ∧
      (p.handle e).effects.filterMap Effect.notice? = [] ∧
      ∀ ok, (p.handle e).result ≠ .uploadFinished ok := by
  -- A stale report is ignored.
  by_cases hstale : ∃ u, e.upload? = some u ∧ p.upload ≠ some u
  · obtain ⟨u, hu, hupload⟩ := hstale
    obtain ⟨hresult, hstate, heffects⟩ := handle_of_stale hu hupload
    refine ⟨p.progress, hstate, fun _ => rfl, filterMap_notice?_of_isLog heffects, ?_⟩
    intro ok hok
    rw [hresult] at hok
    cases hok
  · -- What is left is progress of the upload in flight.
    cases e with
    | uploadProgress u loaded total =>
      have hupload : p.upload = some u := by
        by_cases hupload : p.upload = some u
        · exact hupload
        · exact absurd ⟨u, rfl, hupload⟩ hstale
      simp only [handle, if_neg (not_not_intro hupload)]
      cases Progress.ofBytes loaded total with
      | none =>
        refine ⟨p.progress, rfl, fun _ => rfl, rfl, ?_⟩
        intro ok hok
        cases hok
      | some progress =>
        refine ⟨progress, rfl, ?_, rfl, ?_⟩
        · intro hnone
          rw [hupload] at hnone
          cases hnone
        · intro ok hok
          cases hok
    | uploadFinished u status body => exact absurd ⟨u, rfl, h⟩ hstale
    | commandFinished => exact absurd h id

end Msd.Panel

namespace Console

/-! ## What is shown to the user -/

/-- The error that an effect shows to the user. -/
def Effect.notice? : Effect → Option String
  | .msd e => e.notice?
  | _ => none

/-- The errors shown to the user, in order. -/
def notices (effects : List Effect) : List String := effects.filterMap Effect.notice?

/-- The notifications of two lists come one after the other. -/
@[simp] theorem notices_append (first second : List Effect) :
    notices (first ++ second) = notices first ++ notices second :=
  List.filterMap_append

/-- The notifications of the panel are those of the console. -/
@[simp] theorem notices_map_msd (effects : List Msd.Effect) :
    notices (effects.map .msd) = effects.filterMap Msd.Effect.notice? := by
  rw [notices, List.filterMap_map]
  rfl

/-! ## Passing over reports -/

/-- A wait does not look at what was in the queue before it. -/
private theorem awaitCommand_reports (c : Console) (reports : List Msd.Event)
    (command : Msd.Command)
    (events : List Msd.Event) :
    { c with reports }.awaitCommand command events = c.awaitCommand command events := by
  cases events <;> rfl

/-- The reports that were waiting do not matter to a wait that gets its own. -/
private theorem awaitUpload_reports (c : Console) (reports events : List Msd.Event) :
    { c with reports }.awaitUpload events = c.awaitUpload events := by
  cases events <;> rfl

/-- The wait for a command goes on after a report that is passed over. -/
private theorem awaitCommand_cons {c : Console} {e : Msd.Event} (h : c.panel.PassesOver e)
    (command : Msd.Command) (rest : List Msd.Event) :
    c.awaitCommand command (e :: rest) =
      ({ c with panel := (c.panel.handle e).state }.awaitCommand command rest).after
        ((c.panel.handle e).effects.map .msd) := by
  rw [← awaitCommand_reports { c with panel := (c.panel.handle e).state } rest]
  cases e with
  | uploadProgress => rfl
  | uploadFinished => rfl
  | commandFinished => exact absurd h id

/-- The wait for an upload goes on after a report that is passed over. -/
private theorem awaitUpload_cons {c : Console} {e : Msd.Event} (h : c.panel.PassesOver e)
    (rest : List Msd.Event) :
    c.awaitUpload (e :: rest) =
      ({ c with panel := (c.panel.handle e).state }.awaitUpload rest).after
        ((c.panel.handle e).effects.map .msd) := by
  obtain ⟨-, -, -, -, hresult⟩ := Msd.Panel.handle_of_passesOver h
  rw [← awaitUpload_reports { c with panel := (c.panel.handle e).state } rest]
  cases e with
  | uploadProgress => rfl
  | uploadFinished u status body =>
    -- The end of another upload is not answered as an end, so the wait goes on.
    simp only [awaitUpload, onPanel]
    split
    · rename_i heq
      exact absurd heq (hresult _)
    · rfl
  | commandFinished => exact absurd h id

/-- A wait that passes over one report in which the panel sees no end passes over any number of
    them. -/
theorem append_of_cons {wait : Console → List Msd.Event → Turn Console Effect (Except Fault Unit)}
    (hcons : ∀ {c : Console} {e : Msd.Event}, c.panel.PassesOver e → ∀ rest,
      wait c (e :: rest) =
        (wait { c with panel := (c.panel.handle e).state } rest).after
          ((c.panel.handle e).effects.map .msd))
    {events : List Msd.Event} (c : Console) (rest : List Msd.Event)
    (h : ∀ e ∈ events, c.panel.PassesOver e) :
    ∃ progress effects, (c.panel.upload = none → progress = c.panel.progress) ∧
      notices effects = [] ∧
      wait c (events ++ rest) =
        (wait { c with panel := { c.panel with progress } } rest).after effects := by
  induction events generalizing c with
  | nil => exact ⟨c.panel.progress, [], fun _ => rfl, rfl, rfl⟩
  | cons e events ih =>
    have he := h e List.mem_cons_self
    obtain ⟨progress, hstate, hprogress, hnotices, -⟩ := Msd.Panel.handle_of_passesOver he
    -- The panel has no other upload afterwards, so it sees no end in the remaining reports either.
    obtain ⟨last, effects, hlast, hquiet, heq⟩ :=
      ih { c with panel := { c.panel with progress } } fun x hx =>
        Msd.Panel.passesOver_with_progress.mpr (h x (List.mem_cons_of_mem e hx))
    -- Passing over the first and passing over the rest add up.
    refine ⟨last, (c.panel.handle e).effects.map .msd ++ effects, ?_, ?_, ?_⟩
    · intro hupload
      rw [hlast hupload]
      exact hprogress hupload
    · rw [notices_append, notices_map_msd, hnotices, hquiet, List.append_nil]
    · rw [List.cons_append, hcons he, hstate, heq]
      simp only [Turn.after, List.append_assoc]

/-! ## The end -/

/-- A verdict is good if the status is. -/
theorem verdict_eq_ok_iff {action : Action} {status : UInt16} {body : String} :
    verdict action (status = Msd.Panel.httpOk) status body = .ok () ↔
      status = Msd.Panel.httpOk := by
  by_cases h : status = Msd.Panel.httpOk
  · simp [verdict, h]
  · simp [verdict, h]

/-- An end that is not taken as success is a rejection, with the status and the body of the end. -/
theorem eq_of_verdict_eq_error {action : Action} {status : UInt16} {body : String} {fault : Fault}
    (h : verdict action (status = Msd.Panel.httpOk) status body = .error fault) :
    fault = .rejected action status body := by
  unfold verdict at h
  split at h
  · cases h
  · exact (Except.error.inj h).symm

/-- The end of the command that is waited for ends the wait. A command that the daemon has turned
    down is shown as an error. -/
private theorem awaitCommand_end {c : Console} {command : Msd.Command}
    (hpending : c.panel.pending = some command) (status : UInt16) (body : String)
    (rest : List Msd.Event) :
    ∃ effects,
      notices effects = (if status = Msd.Panel.httpOk then []
        else [Msd.Panel.commandFailedMessage command body]) ∧
      c.awaitCommand command (.commandFinished command status body :: rest) =
        ⟨{ c with panel := { c.panel with pending := none }, reports := rest }, effects,
          verdict (.command command) (status = Msd.Panel.httpOk) status body⟩ := by
  refine ⟨(c.panel.handle (.commandFinished command status body)).effects.map .msd, ?_, ?_⟩
  · -- The effects are those of the panel: one message if the status is no success, and a view.
    rw [notices_map_msd]
    simp only [Msd.Panel.handle, Msd.Panel.shown, List.filterMap_append,
      Msd.Panel.filterMap_notice?_rendering, List.append_nil]
    by_cases hok : status = Msd.Panel.httpOk
    · simp only [hok, decide_true, if_true]
      rfl
    · simp only [hok, decide_false, Bool.false_eq_true, if_false]
      rfl
  · simp [awaitCommand, onPanel, Msd.Panel.handle, Msd.Panel.shown, Turn.map, hpending]

/-- The end of the upload in flight ends the wait. An upload that the daemon has turned down is
    shown as an error. -/
private theorem awaitUpload_end {c : Console} {id : Msd.UploadId}
    (hupload : c.panel.upload = some id)
    (status : UInt16) (body : String) (rest : List Msd.Event) :
    ∃ effects,
      notices effects = (if status = Msd.Panel.httpOk then []
        else [Msd.Panel.uploadFailedMessage body]) ∧
      c.awaitUpload (.uploadFinished id status body :: rest) =
        ⟨{ c with
            panel := { c.panel with selected := none, upload := none, progress := .waiting }
            reports := rest }, effects,
          verdict .upload (status = Msd.Panel.httpOk) status body⟩ := by
  refine ⟨(c.panel.handle (.uploadFinished id status body)).effects.map .msd, ?_, ?_⟩
  · -- The effects are those of the panel: one message if the status is no success, and a view.
    rw [notices_map_msd]
    simp only [Msd.Panel.handle, Msd.Panel.shown, hupload, ne_eq, not_true_eq_false, if_false,
      List.filterMap_append, Msd.Panel.filterMap_notice?_rendering, List.append_nil]
    by_cases hok : status = Msd.Panel.httpOk
    · simp only [hok, decide_true, if_true]
      rfl
    · simp only [hok, decide_false, Bool.false_eq_true, if_false]
      rfl
  · simp [awaitUpload, onPanel, Msd.Panel.handle, Msd.Panel.shown, Turn.map, hupload]

/-- An upload that has no end is aborted. Its file stays selected, and no error is shown. -/
private theorem awaitUpload_nil {c : Console} {id : Msd.UploadId}
    (hupload : c.panel.upload = some id) :
    ∃ effects, notices effects = [] ∧
      c.awaitUpload [] =
        ⟨{ c with
            panel := { c.panel with upload := none, progress := .waiting }
            reports := [] }, effects, .error .aborted⟩ := by
  refine ⟨note .warn "interrupted; aborting upload" [] :: c.panel.abortUpload.effects.map .msd,
    ?_, ?_⟩
  · simp only [Msd.Panel.abortUpload, hupload]
    rfl
  · simp [awaitUpload, onPanel, Msd.Panel.abortUpload, Turn.map, Turn.after, hupload]

/-! ## Whole waits -/

/-- A wait for a command ends with the command, whatever reports about uploads come before. -/
theorem awaitCommand_eq {c : Console} {command : Msd.Command} (hupload : c.panel.upload = none)
    (hpending : c.panel.pending = some command) {events : List Msd.Event}
    (h : ∀ e ∈ events, c.panel.PassesOver e) (status : UInt16) (body : String) :
    ∃ effects,
      notices effects = (if status = Msd.Panel.httpOk then []
        else [Msd.Panel.commandFailedMessage command body]) ∧
      c.awaitCommand command (events ++ [.commandFinished command status body]) =
        ⟨{ c with panel := { c.panel with pending := none }, reports := [] }, effects,
          verdict (.command command) (status = Msd.Panel.httpOk) status body⟩ := by
  obtain ⟨progress, before, hprogress, hquiet, hpass⟩ :=
    append_of_cons (fun hpass rest => awaitCommand_cons hpass command rest) c
      [.commandFinished command status body] h
  -- Without an upload in flight even the progress stays.
  rw [hprogress hupload] at hpass
  obtain ⟨effects, hnotices, hend⟩ := awaitCommand_end hpending status body []
  refine ⟨before ++ effects, ?_, ?_⟩
  · rw [notices_append, hquiet, hnotices, List.nil_append]
  · rw [hpass, hend]
    rfl

/-- A wait for an upload ends with the upload, whatever else is reported before. -/
theorem awaitUpload_eq {c : Console} {id : Msd.UploadId} (hupload : c.panel.upload = some id)
    {events : List Msd.Event} (h : ∀ e ∈ events, c.panel.PassesOver e) (status : UInt16)
    (body : String) :
    ∃ effects,
      notices effects = (if status = Msd.Panel.httpOk then []
        else [Msd.Panel.uploadFailedMessage body]) ∧
      c.awaitUpload (events ++ [.uploadFinished id status body]) =
        ⟨{ c with
            panel := { c.panel with selected := none, upload := none, progress := .waiting }
            reports := [] }, effects,
          verdict .upload (status = Msd.Panel.httpOk) status body⟩ := by
  -- What is passed over changes the progress only.
  obtain ⟨progress, before, -, hquiet, hpass⟩ :=
    append_of_cons awaitUpload_cons c [.uploadFinished id status body] h
  obtain ⟨effects, hnotices, hend⟩ :=
    awaitUpload_end (c := { c with panel := { c.panel with progress } }) hupload status body []
  refine ⟨before ++ effects, ?_, ?_⟩
  · rw [notices_append, hquiet, hnotices, List.nil_append]
  · rw [hpass, hend]
    rfl

/-- A wait for an upload without an end in the reports is aborted. -/
theorem awaitUpload_eq_aborted {c : Console} {id : Msd.UploadId}
    (hupload : c.panel.upload = some id) {events : List Msd.Event}
    (h : ∀ e ∈ events, c.panel.PassesOver e) :
    ∃ effects, notices effects = [] ∧
      c.awaitUpload events =
        ⟨{ c with
            panel := { c.panel with upload := none, progress := .waiting }
            reports := [] }, effects, .error .aborted⟩ := by
  -- What is passed over changes the progress only.
  obtain ⟨progress, before, -, hquiet, hpass⟩ := append_of_cons awaitUpload_cons c [] h
  obtain ⟨effects, hnotices, hend⟩ :=
    awaitUpload_nil (c := { c with panel := { c.panel with progress } }) hupload
  refine ⟨before ++ effects, ?_, ?_⟩
  · rw [notices_append, hquiet, hnotices, List.nil_append]
  · rw [List.append_nil] at hpass
    rw [hpass, hend]
    rfl

end Console

end KvmConsole
