import KvmConsole.Proofs.Msd.Session

/-!
# The pending command

The panel has room for one command that waits for its answer. A command that is issued takes the
place of the one before, answered or not, and an answer frees the place only if it is the answer to
the command that is there. Answers may come late, twice, or to commands that were never issued. So
the command that is there is the one issued last, as long as no answer to it has come in since.

Key results:
* `Reacts.movesCommand`: what a step does to the pending command, one of three things.
* `MovesCommand.pending_eq_some_iff`: what one step leaves pending.
* `after_pending_eq_some_iff`: a command is pending if it is the last one and not answered.
* `commandsIn_history`: what is sent is what is issued.
* `pending_command_of_history`: the pending command of a session.
-/

namespace KvmConsole.Msd

open Panel

/-- The command that a step issues. -/
def Step.issued? : Step → Option Command
  | .switchTo target => some (.connect target)
  | .reset => some .reset
  | _ => none

/-- The command whose end a step reports. -/
def Step.answered? : Step → Option Command
  | .event (.commandFinished command _ _) => some command
  | _ => none

/-- The command that an effect sends. -/
@[simp] def Effect.command? : Effect → Option Command
  | .sendCommand command => some command
  | _ => none

/-- The commands sent in a moment. -/
def Moment.commands (m : Moment) : List Command := m.turn.effects.filterMap Effect.command?

/-- The command has been issued, and its end has not been reported since. -/
def Outstanding (h : List Moment) (command : Command) : Prop :=
  Turn.HoldsSince (fun _ m => m.input.issued? = some command)
    (fun m => m.input.answered? ≠ some command) h

/-- The command has been issued, and none has been issued since. -/
def IssuedLast (h : List Moment) (command : Command) : Prop :=
  Turn.HoldsSince (fun _ m => m.input.issued? = some command) (fun m => m.input.issued? = none) h

/-- A command is outstanding if the last step issues it, or if it was before and is not answered
    now. -/
private theorem outstanding_concat {h : List Moment} {m : Moment} {command : Command} :
    Outstanding (h ++ [m]) command ↔
      m.input.issued? = some command ∨
        Outstanding h command ∧ m.input.answered? ≠ some command :=
  Turn.holdsSince_concat (fun _ (m : Moment) => m.input.issued? = some command)
    (fun m => m.input.answered? ≠ some command) h m

/-- A command is the last one issued if the last step issues it, or if that step issues none. -/
private theorem issuedLast_concat {h : List Moment} {m : Moment} {command : Command} :
    IssuedLast (h ++ [m]) command ↔
      m.input.issued? = some command ∨ IssuedLast h command ∧ m.input.issued? = none :=
  Turn.holdsSince_concat (fun _ (m : Moment) => m.input.issued? = some command)
    (fun m => m.input.issued? = none) h m

namespace Panel

/-- A rendering issues no command. -/
@[simp] theorem filterMap_command?_rendering (p : Panel) :
    p.rendering.filterMap Effect.command? = [] := rfl

/-! ## One step -/

/-- The three things that a moment can do to the pending command. -/
inductive MovesCommand (m : Moment) : Prop where
  /-- The command is shown as pending, and then it is sent. -/
  | issues (command : Command) (hissued : m.input.issued? = some command)
      (hanswered : m.input.answered? = none) (hcommands : m.commands = [command])
      (hstate : m.turn.state = { m.before with pending := some command })
      (hactions : m.actions = [.render m.turn.state.view, .sendCommand command])
  | answers (command : Command) (hissued : m.input.issued? = none)
      (hanswered : m.input.answered? = some command) (hcommands : m.commands = [])
      (hpending : m.turn.state.pending =
        if m.before.pending = some command then none else m.before.pending)
  | rests (hissued : m.input.issued? = none) (hanswered : m.input.answered? = none)
      (hcommands : m.commands = []) (hpending : m.turn.state.pending = m.before.pending)

/-- Every reaction issues a command, takes an answer, or leaves the command alone. -/
theorem Reacts.movesCommand {p : Panel} {s : Step} {turn : Turn Panel Effect Reply}
    (h : p.Reacts s turn) : MovesCommand ⟨p, s, turn⟩ := by
  cases h with
  | switchTo target => exact .issues (.connect target) rfl rfl rfl rfl rfl
  | reset => exact .issues .reset rfl rfl rfl rfl rfl
  | answered command status body =>
    refine .answers command rfl rfl ?_ rfl
    by_cases hok : status = httpOk <;> simp [Moment.commands, shown, List.filterMap_cons, hok]
  | finish u status body _ =>
    refine .rests rfl rfl ?_ rfl
    by_cases hok : status = httpOk <;> simp [Moment.commands, shown, note, List.filterMap_cons, hok]
  | _ => exact .rests rfl rfl rfl rfl

end Panel

namespace Panel.MovesCommand

variable {m : Moment}

/-- A step sends the command that it issues, and nothing else. -/
private theorem commands_eq (h : MovesCommand m) : m.commands = m.input.issued?.toList := by
  cases h with
  | issues _ hissued _ hcommands _ _ | answers _ hissued _ hcommands _
  | rests hissued _ hcommands _ =>
    rw [hcommands, hissued]
    rfl

/-- After a step, the command that is pending is the one that the step issued, or the one from
    before if the step issued none and did not bring its end. -/
theorem pending_eq_some_iff (h : MovesCommand m) (command : Command) :
    m.turn.state.pending = some command ↔
      m.input.issued? = some command ∨
        m.before.pending = some command ∧ m.input.issued? = none ∧
          m.input.answered? ≠ some command := by
  cases h with
  -- A new command takes the place of the pending one.
  | issues command' hissued _ _ hstate _ =>
    rw [hstate, hissued]
    simp
  | answers command' hissued hanswered _ hpending =>
    -- The answer frees the place only if it belongs to the command that is there.
    rw [hpending, hissued, hanswered]
    by_cases hthere : m.before.pending = some command'
    · rw [if_pos hthere, hthere]
      simp
    · rw [if_neg hthere]
      have hother : m.before.pending = some command → command' ≠ command := by
        rintro hbefore rfl
        exact hthere hbefore
      simpa using hother
  | rests hissued hanswered _ hpending =>
    rw [hpending, hissued, hanswered]
    simp

/-- The command that a step issues is shown as pending, and then it is sent. -/
private theorem of_issued (h : MovesCommand m) {command : Command}
    (hissued : m.input.issued? = some command) :
    m.turn.state = { m.before with pending := some command } ∧
      m.actions = [.render m.turn.state.view, .sendCommand command] := by
  cases h with
  | issues command' hissued' _ _ hstate hactions =>
    have hsame : command' = command := Option.some.inj (hissued'.symm.trans hissued)
    subst hsame
    exact ⟨hstate, hactions⟩
  | answers _ hnone _ _ _ | rests hnone _ _ _ =>
    rw [hnone] at hissued
    cases hissued

/-- A step that issues no command, and is not the answer to the pending one, leaves that as it
    is. -/
private theorem pending_eq (h : MovesCommand m) (hissued : m.input.issued? = none)
    (hother : ∀ command, m.input.answered? = some command → m.before.pending ≠ some command) :
    m.turn.state.pending = m.before.pending := by
  cases h with
  | issues command hsome _ _ _ _ =>
    rw [hsome] at hissued
    cases hissued
  | answers command _ hanswered _ hpending => rw [hpending, if_neg (hother command hanswered)]
  | rests _ _ _ hpending => exact hpending

end Panel.MovesCommand

/-! ## Whole sessions -/

/-- Every moment of a session moves the commands as its reaction does. -/
private theorem movesCommand_of_mem_history {steps : List Step} {m : Moment}
    (hm : m ∈ history steps) :
    MovesCommand m :=
  (reacts_of_mem_history hm).movesCommand

/-- The commands sent in a history, in order. -/
def commandsIn (h : List Moment) : List Command := h.flatMap Moment.commands

/-- The command that is pending is the last one issued, and has not been answered since. -/
theorem after_pending_eq_some_iff (steps : List Step) (command : Command) :
    (after steps).pending = some command ↔
      IssuedLast (history steps) command ∧ Outstanding (history steps) command := by
  induction steps using List.reverseRecOn with
  | nil => exact iff_of_false nofun fun ⟨hlast, _⟩ => Turn.not_holdsSince_nil _ _ hlast
  | append_singleton steps s ih =>
    have hstep := (reacts_step (after steps) s).movesCommand.pending_eq_some_iff command
    dsimp only at hstep
    rw [after_concat, history_concat, hstep, ih, issuedLast_concat, outstanding_concat]
    grind

/-- What is issued is sent, once and in order. -/
theorem commandsIn_history (steps : List Step) :
    commandsIn (history steps) = steps.filterMap Step.issued? := by
  induction steps using List.reverseRecOn with
  | nil => rfl
  | append_singleton steps s ih =>
    rw [history_concat, commandsIn, List.flatMap_append, List.flatMap_singleton, ← commandsIn, ih,
      List.filterMap_append, (reacts_step (after steps) s).movesCommand.commands_eq]
    cases hs : s.issued? <;> simp [hs]

/-- The pending command of any session. A session cut short is a session, so the first part holds
    after every step.

    * A command is pending if it is the one issued last and its end has not been reported since.
    * Every step leaves the pending command as it is, unless it issues one or brings the answer to
      the pending one. An answer to another command is such a step, and so is everything that
      happens to the status or to an upload.
    * A command that is issued becomes the pending one. Apart from records in the log, exactly two
      things are done: the panel is shown as it is then, and the command is sent.
    * The commands sent are those issued, once each and in order. -/
theorem pending_command_of_history (steps : List Step) :
    (∀ command, (after steps).pending = some command ↔
      IssuedLast (history steps) command ∧ Outstanding (history steps) command) ∧
    (∀ m ∈ history steps, m.input.issued? = none →
      (∀ command, m.input.answered? = some command → m.before.pending ≠ some command) →
      m.turn.state.pending = m.before.pending) ∧
    (∀ m ∈ history steps, ∀ command, m.input.issued? = some command →
      m.turn.state = { m.before with pending := some command } ∧
        m.actions = [.render m.turn.state.view, .sendCommand command]) ∧
    commandsIn (history steps) = steps.filterMap Step.issued? := by
  refine ⟨after_pending_eq_some_iff steps, ?_, ?_, commandsIn_history steps⟩
  · intro m hm hissued hother
    exact (movesCommand_of_mem_history hm).pending_eq hissued hother
  · intro m hm command hissued
    exact (movesCommand_of_mem_history hm).of_issued hissued

end KvmConsole.Msd
