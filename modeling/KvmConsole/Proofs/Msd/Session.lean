import KvmConsole.Proofs.History
import KvmConsole.Proofs.Msd.Reaction

/-!
# Sessions of a panel

The history of a session that begins with a fresh panel, and what is read off its moments: the
uploads handed to the network, those cancelled, and those whose end the panel took in.

Key results:
* `Reacts.movesUpload`: what a step does to the uploads, one of four things.
* `exists_history_eq_concat`: what holds after every session holds after every moment of one.
* `reacts_of_mem_history`: every moment of a session follows the rules of a panel.
-/

namespace KvmConsole.Msd

abbrev Moment : Type := Turn.Moment Panel Step Effect Reply

/-! ## What a moment did -/

/-- The upload that an effect hands to the network. -/
@[simp] def Effect.started? : Effect → Option UploadId
  | .startUpload u _ => some u
  | _ => none

@[simp] def Effect.cancelled? : Effect → Option UploadId
  | .cancelUpload u => some u
  | _ => none

/-- Writes a record and does nothing else. -/
def Effect.isLog : Effect → Bool
  | .log _ => true
  | _ => false

/-- The message that an effect shows to the user. -/
@[simp] def Effect.notice? : Effect → Option String
  | .notify message => some message
  | _ => none

/-- The upload that an event is about. -/
def Event.upload? : Event → Option UploadId
  | .uploadProgress u _ _ | .uploadFinished u _ _ => some u
  | .commandFinished _ _ _ => none

/-- The upload that a step brings a report about. -/
def Step.reported? : Step → Option UploadId
  | .event e => e.upload?
  | _ => none

/-- The status that a step takes over, or that there is none. -/
@[simp] def Step.status? : Step → Option (Option Status)
  | .setStatus status => some status
  | _ => none

namespace Moment

variable (m : Moment)

/-- The uploads handed to the network. -/
def started : List UploadId := m.turn.effects.filterMap Effect.started?

/-- The uploads cancelled. -/
def cancelled : List UploadId := m.turn.effects.filterMap Effect.cancelled?

/-- The messages shown to the user. -/
def notices : List String := m.turn.effects.filterMap Effect.notice?

/-- What was done, apart from records in the log. -/
def actions : List Effect := m.turn.effects.filter (!·.isLog)

/-- The upload whose end was taken in, if any: the panel answers that it has ended, and not that it
    ignores the report. -/
def finished : List UploadId :=
  match m.input, m.turn.result with
  | .event (.uploadFinished u _ _), .handled (.uploadFinished _) => [u]
  | _, _ => []

end Moment

namespace Panel

/-- A rendering starts no upload. -/
@[simp] theorem filterMap_started?_rendering (p : Panel) :
    p.rendering.filterMap Effect.started? = [] := rfl

/-- A rendering cancels no upload. -/
@[simp] theorem filterMap_cancelled?_rendering (p : Panel) :
    p.rendering.filterMap Effect.cancelled? = [] := rfl

/-- A rendering notifies of nothing. -/
@[simp] theorem filterMap_notice?_rendering (p : Panel) :
    p.rendering.filterMap Effect.notice? = [] := rfl

/-- Apart from logging, a rendering is the view that is shown. -/
@[simp] theorem filter_isLog_rendering (p : Panel) :
    p.rendering.filter (!·.isLog) = [.render p.view] := rfl

/-! ## What a step does to the uploads -/

/-- The four things that a moment can do to the uploads, with everything that it says about them. -/
inductive MovesUpload (m : Moment) : Prop where
  /-- An upload goes into flight, under the next number. -/
  | starts (hbefore : m.before.upload = none) (hstarted : m.started = [⟨m.before.started + 1⟩])
      (hcancelled : m.cancelled = []) (hfinished : m.finished = [])
      (hafter : m.turn.state.upload = some ⟨m.before.started + 1⟩)
      (hcount : m.turn.state.started = m.before.started + 1)
  | cancels (u : UploadId) (hbefore : m.before.upload = some u) (hstarted : m.started = [])
      (hcancelled : m.cancelled = [u]) (hfinished : m.finished = [])
      (hafter : m.turn.state.upload = none) (hcount : m.turn.state.started = m.before.started)
  | finishes (u : UploadId) (hbefore : m.before.upload = some u) (hstarted : m.started = [])
      (hcancelled : m.cancelled = []) (hfinished : m.finished = [u])
      (hafter : m.turn.state.upload = none) (hcount : m.turn.state.started = m.before.started)
  | rests (hstarted : m.started = []) (hcancelled : m.cancelled = []) (hfinished : m.finished = [])
      (hafter : m.turn.state.upload = m.before.upload)
      (hcount : m.turn.state.started = m.before.started)

/-- Every reaction starts, cancels or finishes one upload, or leaves the uploads alone. -/
theorem Reacts.movesUpload {p : Panel} {s : Step} {turn : Turn Panel Effect Reply}
    (h : p.Reacts s turn) : MovesUpload ⟨p, s, turn⟩ := by
  cases h with
  | start file hupload _ =>
    exact .starts hupload (by simp [Moment.started, shown, note, List.filterMap_cons])
      (by simp [Moment.cancelled, shown, note, List.filterMap_cons]) rfl rfl rfl
  | abort u hupload => exact .cancels u hupload rfl rfl rfl rfl rfl
  | finish u status body hupload =>
    -- Whether the end is logged or shown as an error, nothing is started or cancelled.
    by_cases hok : status = httpOk
    · refine .finishes u hupload ?_ ?_ rfl rfl rfl
      · simp [Moment.started, shown, note, List.filterMap_cons, hok]
      · simp [Moment.cancelled, shown, note, List.filterMap_cons, hok]
    · refine .finishes u hupload ?_ ?_ rfl rfl rfl
      · simp [Moment.started, shown, List.filterMap_cons, hok]
      · simp [Moment.cancelled, shown, List.filterMap_cons, hok]
  -- An answer may be shown as an error, but has nothing to do with uploads.
  | answered command status body =>
    by_cases hok : status = httpOk
    · refine .rests ?_ ?_ rfl rfl rfl
      · simp [Moment.started, shown, hok]
      · simp [Moment.cancelled, shown, hok]
    · refine .rests ?_ ?_ rfl rfl rfl
      · simp [Moment.started, shown, List.filterMap_cons, hok]
      · simp [Moment.cancelled, shown, List.filterMap_cons, hok]
  | _ => exact .rests rfl rfl rfl rfl rfl

/-! ## Histories -/

/-- The panel after the steps of a session. -/
def after (steps : List Step) : Panel := Turn.final step {} steps

/-- The moments of a session. -/
def history (steps : List Step) : List Moment := Turn.history step {} steps

/-- The turns of the history are those of the session. -/
theorem map_turn_history (steps : List Step) : (history steps).map (·.turn) = session steps :=
  Turn.map_turn_history step {} steps

/-- The last step is made where the steps before it have led. -/
theorem after_concat (steps : List Step) (s : Step) :
    after (steps ++ [s]) = ((after steps).step s).state :=
  Turn.final_concat step {} steps s

/-- One more step adds one moment at the end. -/
theorem history_concat (steps : List Step) (s : Step) :
    history (steps ++ [s]) = history steps ++ [⟨after steps, s, (after steps).step s⟩] :=
  Turn.history_concat step {} steps s

/-- A history cut after one of its moments is that of a shorter session. -/
theorem exists_history_eq_concat {steps : List Step} {past since : List Moment} {m : Moment}
    (hcut : history steps = past ++ m :: since) :
    ∃ earlier, history earlier = past ++ [m] ∧ after earlier = m.turn.state :=
  ⟨past.map (·.input) ++ [m.input], Turn.history_eq_concat_of_cut step {} hcut⟩

/-- Every moment of a session follows one of the rules of a panel. -/
theorem reacts_of_mem_history {steps : List Step} {m : Moment} (hm : m ∈ history steps) :
    m.before.Reacts m.input m.turn := by
  rw [Turn.turn_of_mem_history step {} hm]
  exact reacts_step m.before m.input

end Panel

end KvmConsole.Msd
