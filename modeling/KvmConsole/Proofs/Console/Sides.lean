import KvmConsole.Console.Operation
import KvmConsole.Proofs.History

/-!
# The two sides of the console

The console passes each input to one of its panels, or to neither, and the panels share nothing. So
while it follows the control channel there are two runs side by side, one of the mass storage panel
and one of the pointer forwarder, and `Console.Runs` says which. Proofs about the console go over to
the runs and stay with one panel each.

Key results:
* `runs_follow`, `runs_attend`: the two runs of the console.
* `follow_result`: its answers are those of the mass storage panel.
-/

namespace KvmConsole

/-- The outcome of the report in a turn, if it was about one. -/
def Msd.outcomes (turn : Turn Msd.Panel Msd.Effect Msd.Reply) : List Msd.Outcome :=
  match turn.result with
  | .handled outcome => [outcome]
  | _ => []

namespace Console

/-! ## What is on which side -/

/-- What an input is to the mass storage panel. -/
def Input.panelStep? : Input → Option Msd.Step
  | .daemon (.msdState status) => some (.setStatus (some status))
  | .network event => some (.event event)
  | _ => none

/-- What an input is to the pointer forwarder. -/
def Input.pointerStep? : Input → Option Pointer.Step
  | .daemon (.hidState ok) => some (.setDevice ok)
  | .tick => some .tick
  | _ => none

/-- What the mass storage panel is told in some inputs, in order. -/
def panelSteps (inputs : List Input) : List Msd.Step := inputs.filterMap Input.panelStep?

/-- What the pointer forwarder is told in some inputs, in order. -/
def pointerSteps (inputs : List Input) : List Pointer.Step := inputs.filterMap Input.pointerStep?

/-- The panel's step of the first input comes first. -/
private theorem panelSteps_cons (input : Input) (rest : List Input) :
    panelSteps (input :: rest) = input.panelStep?.toList ++ panelSteps rest := by
  rw [panelSteps, List.filterMap_cons]
  cases input.panelStep? <;> rfl

/-- The pointer's step of the first input comes first. -/
private theorem pointerSteps_cons (input : Input) (rest : List Input) :
    pointerSteps (input :: rest) = input.pointerStep?.toList ++ pointerSteps rest := by
  rw [pointerSteps, List.filterMap_cons]
  cases input.pointerStep? <;> rfl

/-- What the mass storage panel does in an effect. -/
@[simp] def Effect.msd? : Effect → Option Msd.Effect
  | .msd effect => some effect
  | _ => none

/-- What the pointer forwarder does in an effect. -/
@[simp] def Effect.pointer? : Effect → Option Pointer.Effect
  | .pointer effect => some effect
  | _ => none

/-- The panel's effects are found among themselves. -/
@[simp] theorem filterMap_msd?_map_msd (effects : List Msd.Effect) :
    (effects.map Effect.msd).filterMap Effect.msd? = effects := by
  rw [List.filterMap_map, Function.comp_def]
  exact List.filterMap_some

/-- None of the panel's effects is the pointer's. -/
@[simp] theorem filterMap_pointer?_map_msd (effects : List Msd.Effect) :
    (effects.map Effect.msd).filterMap Effect.pointer? = [] := by
  rw [List.filterMap_map, List.filterMap_eq_nil_iff]
  exact fun _ _ => rfl

/-- None of the pointer's effects is the panel's. -/
@[simp] theorem filterMap_msd?_map_pointer (effects : List Pointer.Effect) :
    (effects.map Effect.pointer).filterMap Effect.msd? = [] := by
  rw [List.filterMap_map, List.filterMap_eq_nil_iff]
  exact fun _ _ => rfl

/-- The pointer's effects are found among themselves. -/
@[simp] theorem filterMap_pointer?_map_pointer (effects : List Pointer.Effect) :
    (effects.map Effect.pointer).filterMap Effect.pointer? = effects := by
  rw [List.filterMap_map, Function.comp_def]
  exact List.filterMap_some

/-! ## Two runs side by side -/

/-- In a turn of the console the panel and the forwarder each take some steps, in order, and nothing
    else happens to them. -/
structure Runs {α : Type} (c : Console) (turn : Turn Console Effect α)
    (msdSteps : List Msd.Step) (hidSteps : List Pointer.Step) : Prop where
  panel : turn.state.panel = Turn.final Msd.Panel.step c.panel msdSteps
  msd : turn.effects.filterMap Effect.msd? = Turn.runEffects Msd.Panel.step c.panel msdSteps
  forwarder :
    turn.state.forwarder = Turn.final Pointer.Forwarder.step c.forwarder hidSteps
  pointer :
    turn.effects.filterMap Effect.pointer? =
      Turn.runEffects Pointer.Forwarder.step c.forwarder hidSteps
  client : turn.state.client = c.client
  reports : turn.state.reports = c.reports

namespace Runs

variable {α β : Type} {c : Console} {turn : Turn Console Effect α}
  {msdSteps msdSteps' : List Msd.Step} {hidSteps hidSteps' : List Pointer.Step}

/-- A change of the result changes neither run. -/
protected theorem map (h : c.Runs turn msdSteps hidSteps) (f : α → β) :
    c.Runs (turn.map f) msdSteps hidSteps :=
  ⟨h.panel, h.msd, h.forwarder, h.pointer, h.client, h.reports⟩

/-- A record of the console's own work is on neither side. -/
theorem after_note (h : c.Runs turn msdSteps hidSteps) (level : Log.Level)
    (message : String) (fields : List (String × Log.Value)) :
    c.Runs (turn.after [note level message fields]) msdSteps hidSteps :=
  ⟨h.panel, h.msd, h.forwarder, h.pointer, h.client, h.reports⟩

/-- Two turns after one another run both sides further. -/
theorem andThen (h : c.Runs turn msdSteps hidSteps)
    (next : Console → Turn Console Effect β)
    (hnext : turn.state.Runs (next turn.state) msdSteps' hidSteps') :
    c.Runs (turn.andThen next) (msdSteps ++ msdSteps') (hidSteps ++ hidSteps') where
  panel := by
    rw [Turn.final_append, ← h.panel]
    exact hnext.panel
  msd := by
    rw [Turn.runEffects_append, ← h.msd, ← h.panel, ← hnext.msd]
    exact List.filterMap_append
  forwarder := by
    rw [Turn.final_append, ← h.forwarder]
    exact hnext.forwarder
  pointer := by
    rw [Turn.runEffects_append, ← h.pointer, ← h.forwarder, ← hnext.pointer]
    exact List.filterMap_append
  client := hnext.client.trans h.client
  reports := hnext.reports.trans h.reports

/-- What is seen of the panel in the turn is what is seen of its run. -/
theorem filterMap_msd {Seen : Type} (h : c.Runs turn msdSteps hidSteps)
    (seen : Msd.Effect → Option Seen) :
    (turn.effects.filterMap Effect.msd?).filterMap seen =
      (Turn.run Msd.Panel.step c.panel msdSteps).flatMap (·.effects.filterMap seen) := by
  rw [h.msd, Turn.runEffects, List.filterMap_flatMap]

/-- What is seen of the forwarder in the turn is what is seen of its run. -/
theorem filterMap_pointer {Seen : Type} (h : c.Runs turn msdSteps hidSteps)
    (seen : Pointer.Effect → Option Seen) :
    (turn.effects.filterMap Effect.pointer?).filterMap seen =
      (Turn.run Pointer.Forwarder.step c.forwarder hidSteps).flatMap
        (·.effects.filterMap seen) := by
  rw [h.pointer, Turn.runEffects, List.filterMap_flatMap]

/-- The two runs say everything about the console after the turn. -/
theorem state_eq (h : c.Runs turn msdSteps hidSteps) :
    turn.state =
      { c with
        panel := Turn.final Msd.Panel.step c.panel msdSteps
        forwarder := Turn.final Pointer.Forwarder.step c.forwarder hidSteps } := by
  rw [← h.panel, ← h.forwarder, ← h.client, ← h.reports]

end Runs

variable {α : Type} (c : Console)

/-- Doing nothing runs neither side. -/
private theorem runs_idle (result : α) :
    c.Runs (.idle c result) [] [] := ⟨rfl, rfl, rfl, rfl, rfl, rfl⟩

/-- A turn of the panel is one of its steps, and the pointer rests. -/
private theorem runs_onPanel (turn : Msd.Panel → Turn Msd.Panel Msd.Effect α) (s : Msd.Step)
    (hstate : (turn c.panel).state = (c.panel.step s).state)
    (heffects : (turn c.panel).effects = (c.panel.step s).effects) :
    c.Runs (c.onPanel turn) [s] [] where
  panel := hstate
  msd := by
    rw [Turn.runEffects_singleton, ← heffects]
    exact filterMap_msd?_map_msd _
  forwarder := rfl
  pointer := filterMap_pointer?_map_msd _
  client := rfl
  reports := rfl

/-- A turn of the pointer is one of its steps, and the panel rests. -/
private theorem runs_onPointer (s : Pointer.Step) : c.Runs (c.onPointer (·.step s)) [] [s] where
  panel := rfl
  msd := filterMap_msd?_map_pointer _
  forwarder := rfl
  pointer := by
    rw [Turn.runEffects_singleton]
    exact filterMap_pointer?_map_pointer _
  client := rfl
  reports := rfl

/-- An input is passed to one panel at most. -/
private theorem runs_react (input : Input) :
    c.Runs (c.react input) input.panelStep?.toList input.pointerStep?.toList := by
  cases input with
  | daemon event =>
    cases event with
    | msdState status =>
      exact (c.runs_onPanel (·.setStatus (some status)) (.setStatus (some status)) rfl rfl).map
        fun _ => none
    | hidState ok => exact ((c.runs_onPointer (.setDevice ok)).map fun _ => ()).map fun _ => none
    | other name => exact ⟨rfl, rfl, rfl, rfl, rfl, rfl⟩
  | network event => exact (c.runs_onPanel (·.handle event) (.event event) rfl rfl).map _
  | tick => exact (c.runs_onPointer .tick).map fun _ => none

/-- Following inputs runs each side through its own steps. -/
theorem runs_follow (inputs : List Input) :
    c.Runs (c.follow inputs) (panelSteps inputs) (pointerSteps inputs) := by
  induction inputs generalizing c with
  | nil => exact c.runs_idle []
  | cons input rest ih =>
    rw [panelSteps_cons, pointerSteps_cons]
    exact (c.runs_react input).andThen
      (fun next => (next.follow rest).map ((c.react input).result.toList ++ ·))
      ((ih (c.react input).state).map _)

/-- When the channel is opened the forwarder has it, and in the end neither panel has anything. -/
theorem runs_attend (inputs : List Input) (farewell : String) :
    c.Runs (c.attend inputs farewell) (panelSteps inputs ++ [.setStatus none])
      (.setChannel (some .accepting) :: (pointerSteps inputs ++ [.setChannel none])) := by
  have hleave (c : Console) :
      c.Runs ((c.onPointer (·.setChannel none)).andThen fun c => c.onPanel (·.setStatus none))
        [.setStatus none] [.setChannel none] :=
    (c.runs_onPointer (.setChannel none)).andThen (·.onPanel (·.setStatus none))
      (runs_onPanel _ (·.setStatus none) (.setStatus none) rfl rfl)
  exact ((c.runs_onPointer (.setChannel (some .accepting))).andThen (·.follow inputs)
    (runs_follow _ inputs)).andThen _ ((hleave _).after_note .info farewell [])

/-- The console answers what the mass storage panel does. -/
theorem follow_result (inputs : List Input) :
    (c.follow inputs).result =
      (Turn.run Msd.Panel.step c.panel (panelSteps inputs)).flatMap Msd.outcomes := by
  induction inputs generalizing c with
  | nil => rfl
  | cons input rest ih =>
    have hpanel := (c.runs_react input).panel
    have hrest := ih (c.react input).state
    rw [hpanel] at hrest
    -- An input is a step of the panel or none, and only the panel answers.
    have hfirst : (c.react input).result.toList =
        (Turn.run Msd.Panel.step c.panel input.panelStep?.toList).flatMap Msd.outcomes := by
      rcases input with (_ | _ | _) | event | _ <;> rfl
    rw [panelSteps_cons, Turn.run_append, List.flatMap_append, ← hrest, ← hfirst]
    rfl

end Console

end KvmConsole
