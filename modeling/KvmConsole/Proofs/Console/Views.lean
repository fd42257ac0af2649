import KvmConsole.Proofs.Console.Sides
import KvmConsole.Proofs.Msd.Shown
import KvmConsole.Proofs.Pointer.Session

/-!
# What is seen while the control channel is followed

Nothing aborts an upload while the console follows the control channel. So whatever the panels have
shown last is what they are: a step shows the panel after it, or it changes nothing that could be
seen.

Key results:
* `Turn.eq_view_of_getLast?_shown`: why the last view is up to date, for any machine.
* `Panel.shows_step`, `Forwarder.shows_step`: what a step of either panel shows.
* `Runs.panel_view_of_getLast?`, `Runs.pointer_view_of_getLast?`: the last views of a run.
-/

namespace KvmConsole

/-- If each input of a run shows what is there after it, or shows nothing and changes nothing that
    could be seen, then what has been shown last is what is there in the end. -/
theorem Turn.eq_view_of_getLast?_shown {State Input Effect Result View : Type}
    {step : State → Input → Turn State Effect Result} {shown? : Effect → Option View}
    {view : State → View} {inputs : List Input}
    (hstep : ∀ s, ∀ input ∈ inputs,
      (step s input).effects.filterMap shown? = [view (step s input).state] ∨
        (step s input).effects.filterMap shown? = [] ∧ view (step s input).state = view s)
    {state : State} {v : View}
    (h : ((runEffects step state inputs).filterMap shown?).getLast? = some v) :
    v = view (final step state inputs) := by
  induction inputs using List.reverseRecOn with
  | nil => cases h
  | append_singleton inputs input ih =>
    rw [runEffects_append, runEffects_singleton, List.filterMap_append] at h
    rw [final_concat]
    rcases hstep (final step state inputs) input (by simp) with hshown | ⟨hshown, hview⟩
    · rw [hshown, List.getLast?_concat] at h
      exact (Option.some.inj h).symm
    · -- What was shown last still is.
      rw [hshown, List.append_nil] at h
      rw [hview]
      exact ih (fun s x hx => hstep s x (List.mem_append_left _ hx)) h

/-! ## The mass storage panel -/

namespace Msd.Panel

/-- A step that aborts no upload shows the panel after it, or it shows nothing and changes
    nothing. -/
theorem shows_step (p : Panel) {s : Step} (hs : s ≠ .abortUpload) :
    (p.step s).effects.filterMap Effect.shown? = [(p.step s).state.view] ∨
      (p.step s).effects.filterMap Effect.shown? = [] ∧ (p.step s).state.view = p.view := by
  cases (p.reacts_step s).shows with
  | nothing _ hshown hstate _ => exact .inr ⟨hshown, congrArg view hstate⟩
  | current _ _ hshown => exact .inl hshown
  | abort u _ hinput _ _ => exact absurd hinput hs

end Msd.Panel

/-! ## The pointer panel -/

namespace Pointer

/-- The view that an effect shows. -/
@[simp] def Effect.shown? : Effect → Option View
  | .render view => some view
  | _ => none

namespace Forwarder

/-- Sending an event shows nothing. -/
@[simp] theorem filterMap_shown?_sending (channel : Option Channel) (e : HidEvent) :
    (sending channel e).filterMap Effect.shown? = [] := by
  rcases channel with _ | _ | _ <;> rfl

/-- Sending what the tracker gives shows nothing. -/
theorem filterMap_shown?_send (f : Forwarder) (given : Option HidEvent × Tracker) :
    (f.send given).effects.filterMap Effect.shown? = [] := by
  simp [send, List.filterMap_flatMap]

/-- Sending a button shows nothing. -/
private theorem filterMap_shown?_sendButton (f : Forwarder) (b : Button) (pressed : Bool) :
    (f.sendButton b pressed).effects.filterMap Effect.shown? = [] := by
  simp [sendButton, Turn.andThen, Turn.after, tick, filterMap_shown?_send]

/-- A step shows the panel after it, or it shows nothing and changes nothing that could be seen. -/
theorem shows_step (f : Forwarder) (s : Step) :
    (f.step s).effects.filterMap Effect.shown? = [(f.step s).state.view] ∨
      (f.step s).effects.filterMap Effect.shown? = [] ∧ (f.step s).state.view = f.view := by
  cases s with
  | setChannel | setDevice | hover => exact .inl rfl
  | contextMenu | move => exact .inr ⟨rfl, rfl⟩
  | tick | touch | wheel => exact .inr ⟨filterMap_shown?_send _ _, rfl⟩
  | sendButton b pressed => exact .inr ⟨f.filterMap_shown?_sendButton b pressed, rfl⟩
  | button code pressed =>
    refine .inr ?_
    simp only [step, button]
    split
    · exact ⟨f.filterMap_shown?_sendButton _ pressed, rfl⟩
    · exact ⟨rfl, rfl⟩

end Forwarder

end Pointer

/-! ## The console -/

namespace Console

/-- The views of the mass storage panel that are shown in some effects, in order. -/
def panelViews (effects : List Effect) : List Msd.View :=
  (effects.filterMap Effect.msd?).filterMap Msd.Effect.shown?

/-- The views of the pointer panel that are shown in some effects, in order. -/
def pointerViews (effects : List Effect) : List Pointer.View :=
  (effects.filterMap Effect.pointer?).filterMap Pointer.Effect.shown?

/-- No input of the console aborts an upload. -/
theorem abortUpload_notMem_panelSteps (inputs : List Input) :
    Msd.Step.abortUpload ∉ panelSteps inputs := by
  intro hmem
  obtain ⟨input, -, hinput⟩ := List.mem_filterMap.mp hmem
  rcases input with (_ | _ | _) | _ | _ <;> cases hinput

namespace Runs

variable {α : Type} {c : Console} {turn : Turn Console Effect α} {msdSteps : List Msd.Step}
  {hidSteps : List Pointer.Step}

/-- The panel view shown last is the current one, if nothing was aborted. -/
theorem panel_view_of_getLast? (h : c.Runs turn msdSteps hidSteps)
    (hsteps : Msd.Step.abortUpload ∉ msdSteps) {v : Msd.View}
    (hv : (panelViews turn.effects).getLast? = some v) : v = turn.state.panel.view := by
  rw [panelViews, h.msd] at hv
  rw [h.panel]
  refine Turn.eq_view_of_getLast?_shown (fun p s hs => p.shows_step ?_) hv
  rintro rfl
  exact hsteps hs

/-- The pointer view shown last is the current one. -/
theorem pointer_view_of_getLast? (h : c.Runs turn msdSteps hidSteps) {v : Pointer.View}
    (hv : (pointerViews turn.effects).getLast? = some v) : v = turn.state.forwarder.view := by
  rw [pointerViews, h.pointer] at hv
  rw [h.forwarder]
  exact Turn.eq_view_of_getLast?_shown (fun f s _ => f.shows_step s) hv

end Runs

end Console

end KvmConsole
