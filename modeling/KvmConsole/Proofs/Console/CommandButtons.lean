import KvmConsole.Proofs.Console.Outcome
import KvmConsole.Proofs.Msd.PendingCommand
import KvmConsole.Proofs.Msd.Shown

/-!
# Buttons of commands

A panel remembers one command that has not been answered, the last one. Its button is disabled until
the answer comes in. A command that was issued before it is forgotten, answered or not, and then the
status alone decides about its button.

Key results:
* `isDisabled_view_iff`: what disables a button.
* `button_while_outstanding_iff`: the button of a command that has not been answered.
* `reset_enables_switch`: a second command enables the button of the first.
-/

namespace KvmConsole.Msd

open Console (isDisabled)
open Panel

namespace Panel

/-! ## What disables a button -/

/-- Without a command to wait for, the button of the command would be enabled: the status is known
    and allows it, and no reset is asked for during an upload. -/
def Offers (p : Panel) (command : Command) : Prop :=
  ∃ status, p.status = some status ∧ status.Allows command ∧
    (command = .reset → p.upload = none)

/-- The button of a command is disabled if the command is the one that is remembered, or is not
    offered at all. -/
theorem isDisabled_view_iff (p : Panel) (command : Command) :
    isDisabled p.view.disabled command ↔ p.pending = some command ∨ ¬ p.Offers command := by
  cases hstatus : p.status with
  | none =>
    -- With nothing known, every button is disabled.
    have hview : p.view.disabled = .everything := by rw [view, hstatus]; rfl
    have hoffers : ¬ p.Offers command := fun ⟨status, h, _⟩ => nomatch hstatus.symm.trans h
    rw [hview]
    refine iff_of_true ?_ (.inr hoffers)
    rcases command with (_ | _) | _ <;> rfl
  | some status =>
    have hview : p.view.disabled = .derive status p.loc := by rw [view, hstatus]; rfl
    -- What is left is a table of the three buttons.
    rw [hview, Offers, hstatus]
    rcases command with target | _
    · cases target <;> cases hto : status.connectedTo <;>
        simp [isDisabled, Disabled.derive, Status.Allows, loc, hto] <;> grind
    · cases hupload : p.upload <;>
        simp [isDisabled, Disabled.derive, Status.Allows, loc, hupload, or_comm]

end Panel

/-! ## Whole sessions -/

/-- The buttons of any session, in the panel as it is and in every view that was ever shown: as long
    as a command has not been answered, its button is disabled if no other command has been issued
    after it. If one has, the button is enabled whenever the status offers the command. -/
theorem button_while_outstanding_iff (steps : List Step) (command : Command) :
    (Outstanding (history steps) command →
      (isDisabled (after steps).view.disabled command ↔
        IssuedLast (history steps) command ∨ ¬ (after steps).Offers command)) ∧
    (∀ past m since, history steps = past ++ m :: since → Outstanding (past ++ [m]) command →
      ∀ v ∈ m.shown, (isDisabled v.disabled command ↔
        IssuedLast (past ++ [m]) command ∨ ¬ m.turn.state.Offers command)) := by
  -- Among the outstanding commands, the pending one is the one issued last.
  have hview : ∀ steps : List Step, Outstanding (history steps) command →
      (isDisabled (after steps).view.disabled command ↔
        IssuedLast (history steps) command ∨ ¬ (after steps).Offers command) := by
    intro steps houtstanding
    rw [isDisabled_view_iff, after_pending_eq_some_iff, and_iff_left houtstanding]
  refine ⟨hview steps, ?_⟩
  intro past m since hcut houtstanding v hv
  obtain ⟨earlier, hhistory, hstate⟩ := exists_history_eq_concat hcut
  have hm : m ∈ history steps := by rw [hcut]; simp
  -- The view shown in a step has the buttons of the panel after it, whatever its progress bar.
  have hdisabled : v.disabled = m.turn.state.view.disabled := by
    rcases (shows_of_mem_history hm).eq_of_mem hv with ⟨_, hview⟩ | ⟨_, hview⟩
    · rw [hview]
    · rw [hview, view_with_progress]
  rw [hdisabled, ← hhistory, ← hstate]
  rw [← hhistory] at houtstanding
  exact hview earlier houtstanding

/-- A switch to the controlled computer, and a reset before the switch has been answered. -/
def overtakenSwitch : List Step :=
  [.setStatus (some ⟨.server, false, true, ⟨4096, none⟩⟩), .switchTo .kvm, .reset]

/-- The reset enables the button of the switch that it overtakes. -/
theorem reset_enables_switch :
    Outstanding (history overtakenSwitch) (.connect .kvm) ∧
      isDisabled (after overtakenSwitch).view.disabled (.connect .kvm) = false := by
  refine ⟨⟨(history overtakenSwitch).take 1, _, (history overtakenSwitch).drop 2, rfl, rfl, ?_⟩,
    rfl⟩
  intro m hm hanswered
  rw [List.mem_singleton.mp hm] at hanswered
  cases hanswered

end KvmConsole.Msd
