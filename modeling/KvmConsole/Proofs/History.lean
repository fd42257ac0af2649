import KvmConsole.Turn
import Mathlib.Data.List.Induction

/-!
# Histories of a machine

`Turn.run` gives the turns of a run. A history also keeps what each turn came from: the state that
it found and the input. What has been true "since" a moment is said by cutting a history there, so
a property of a whole run is a property of its history, shown by adding moments at the end.

Key results:
* `map_turn_history`: the turns of a history are those of `Turn.run`.
* `history_concat`: one more input adds one moment.
* `inputs_eq_of_cut`, `history_eq_append_cons`: a cut through a history is a cut through the
  inputs.
* `history_eq_concat_of_cut`: what holds after every run holds after every moment of one.
* `history_mem_invariant`: what every step keeps holds at every moment. Where only the steps of the
  run keep it, it is `history_mem_invariant_of_mem`.
* `run_of_commutes`: a change of the state that no step of a run notices.
* `final_eq_getLast?`: a part of the state that is overwritten is what was written last.
* `history_filter_not`: moments that left the state as it was can be taken out of a run.
* `holdsSince_concat`: what has been true since some moment, and still is one moment later.
* `final_iff_holdsSince`: what a run has made true and left so.
-/

namespace KvmConsole.Turn

/-- One moment of a run: the state before, the input, and the turn. -/
structure Moment (State Input Effect Result : Type) where
  before : State
  input : Input
  turn : Turn State Effect Result
  deriving DecidableEq

variable {State Input Effect Result : Type}

/-- The state after a list of inputs. -/
def final (step : State → Input → Turn State Effect Result) (state : State)
    (inputs : List Input) : State :=
  inputs.foldl (fun state input => (step state input).state) state

/-- The moments of a run, in order. -/
def history (step : State → Input → Turn State Effect Result) (state : State) :
    List Input → List (Moment State Input Effect Result)
  | [] => []
  | input :: rest =>
    ⟨state, input, step state input⟩ :: history step (step state input).state rest

variable (step : State → Input → Turn State Effect Result) (state : State)

/-- The turns of a history are those of the run. -/
theorem map_turn_history (inputs : List Input) :
    (history step state inputs).map (·.turn) = run step state inputs := by
  induction inputs generalizing state with
  | nil => rfl
  | cons input rest ih => simp only [history, run, List.map_cons, ih]

/-- The inputs of a history are those it was given. -/
@[simp] theorem map_input_history (inputs : List Input) :
    (history step state inputs).map (·.input) = inputs := by
  induction inputs generalizing state with
  | nil => rfl
  | cons input rest ih => simp only [history, List.map_cons, ih]

/-- The first input is taken before the rest. -/
private theorem final_cons (input : Input) (rest : List Input) :
    final step state (input :: rest) = final step (step state input).state rest := rfl

/-- A run goes on from where the first inputs have led. -/
theorem final_append (first second : List Input) :
    final step state (first ++ second) = final step (final step state first) second :=
  List.foldl_append

/-- The last input is taken where the inputs before it have led. -/
theorem final_concat (inputs : List Input) (input : Input) :
    final step state (inputs ++ [input]) = (step (final step state inputs) input).state :=
  final_append step state inputs [input]

/-- The history of a longer run is the history of its beginning and that of what follows. -/
theorem history_append (first second : List Input) :
    history step state (first ++ second) =
      history step state first ++ history step (final step state first) second := by
  induction first generalizing state with
  | nil => rfl
  | cons input rest ih =>
    simp only [List.cons_append, history, ih]
    rfl

/-- One more input adds one moment at the end. -/
theorem history_concat (inputs : List Input) (input : Input) :
    history step state (inputs ++ [input]) =
      history step state inputs ++
        [⟨final step state inputs, input, step (final step state inputs) input⟩] :=
  history_append step state inputs [input]

/-- A cut through a history is a cut through the inputs. -/
theorem inputs_eq_of_cut {inputs : List Input}
    {past since : List (Moment State Input Effect Result)}
    {m : Moment State Input Effect Result}
    (h : history step state inputs = past ++ m :: since) :
    inputs = past.map (·.input) ++ m.input :: since.map (·.input) := by
  rw [← map_input_history step state inputs, h, List.map_append, List.map_cons]

/-- What comes before a moment of a history and what follows it are histories too, and the moment
    is the step from the state reached there. -/
theorem history_eq_append_cons {inputs : List Input}
    {past since : List (Moment State Input Effect Result)}
    {m : Moment State Input Effect Result}
    (h : history step state inputs = past ++ m :: since) :
    past = history step state (past.map (·.input)) ∧
      m.before = final step state (past.map (·.input)) ∧
      m.turn = step m.before m.input ∧
      since = history step m.turn.state (since.map (·.input)) := by
  have hcut := h
  rw [inputs_eq_of_cut step state h, history_append] at hcut
  -- A history has one moment for each input, so both cuts are at the same place.
  have hlength : (history step state (past.map (·.input))).length = past.length := by
    rw [← List.length_map (·.input), map_input_history, List.length_map]
  obtain ⟨hpast, hrest⟩ := List.append_inj hcut hlength
  obtain ⟨hm, hsince⟩ := List.cons.inj hrest
  refine ⟨hpast.symm, ?_, ?_, ?_⟩
  · rw [← hm]
  · rw [← hm]
  · rw [← hsince, ← hm, map_input_history]

/-- A history cut after one of its moments is that of a shorter run. -/
theorem history_eq_concat_of_cut {inputs : List Input}
    {past since : List (Moment State Input Effect Result)}
    {m : Moment State Input Effect Result}
    (h : history step state inputs = past ++ m :: since) :
    history step state (past.map (·.input) ++ [m.input]) = past ++ [m] ∧
      final step state (past.map (·.input) ++ [m.input]) = m.turn.state := by
  obtain ⟨hpast, hbefore, hturn, -⟩ := history_eq_append_cons step state h
  have hm : m = ⟨m.before, m.input, step m.before m.input⟩ := by rw [← hturn]
  constructor
  · rw [history_concat, ← hpast, ← hbefore, ← hm]
  · rw [final_concat, ← hbefore, ← hturn]

/-- A run leads to where what follows one of its moments leads from there. -/
theorem final_eq_of_cut {inputs : List Input}
    {past since : List (Moment State Input Effect Result)}
    {m : Moment State Input Effect Result}
    (h : history step state inputs = past ++ m :: since) :
    final step state inputs = final step m.turn.state (since.map (·.input)) := by
  obtain ⟨-, hbefore, hturn, -⟩ := history_eq_append_cons step state h
  rw [inputs_eq_of_cut step state h, final_append, ← hbefore, hturn]
  rfl

/-- What the steps of a run keep holds after it. -/
theorem final_invariant_of_mem {P : State → Prop} {inputs : List Input}
    (hstep : ∀ s, ∀ input ∈ inputs, P s → P (step s input).state) {state : State}
    (h : P state) : P (final step state inputs) := by
  induction inputs using List.reverseRecOn with
  | nil => exact h
  | append_singleton inputs input ih =>
    rw [final_concat]
    refine hstep _ input (by simp) (ih fun s i hi => hstep s i ?_)
    exact List.mem_append_left [input] hi

/-- What the steps of a run keep holds at every moment of it, and the turn of a moment is the step
    from there. -/
theorem history_mem_invariant_of_mem {P : State → Prop} {inputs : List Input}
    (hstep : ∀ s, ∀ input ∈ inputs, P s → P (step s input).state) {state : State}
    (h : P state) {m : Moment State Input Effect Result} (hm : m ∈ history step state inputs) :
    P m.before ∧ m.input ∈ inputs ∧ m.turn = step m.before m.input := by
  -- What comes before the moment is a run of its own, which leads to it.
  obtain ⟨past, since, hcut⟩ := List.append_of_mem hm
  obtain ⟨-, hbefore, hturn, -⟩ := history_eq_append_cons step state hcut
  have hinputs := inputs_eq_of_cut step state hcut
  refine ⟨?_, by rw [hinputs]; simp, hturn⟩
  rw [hbefore]
  refine final_invariant_of_mem step (fun s i hi => hstep s i ?_) h
  rw [hinputs]
  exact List.mem_append_left _ hi

/-- What every step keeps holds after every run. -/
theorem final_invariant {P : State → Prop}
    (hstep : ∀ s input, P s → P (step s input).state) {state : State}
    (h : P state) (inputs : List Input) : P (final step state inputs) :=
  final_invariant_of_mem step (fun s input _ => hstep s input) h

/-- What every step keeps holds at every moment of a run, and the turn of a moment is the step
    from there. -/
theorem history_mem_invariant {P : State → Prop}
    (hstep : ∀ s input, P s → P (step s input).state) {state : State}
    (h : P state) {inputs : List Input} {m : Moment State Input Effect Result}
    (hm : m ∈ history step state inputs) :
    P m.before ∧ m.turn = step m.before m.input := by
  obtain ⟨hbefore, -, hturn⟩ :=
    history_mem_invariant_of_mem step (fun s input _ => hstep s input) h hm
  exact ⟨hbefore, hturn⟩

/-- A part of the state that some inputs overwrite, and all others leave as it is, is what was
    written last. -/
theorem final_eq_getLast? {α : Type} (part : State → α) (written? : Input → Option α)
    (hstep : ∀ s input, part (step s input).state = (written? input).getD (part s))
    (inputs : List Input) :
    part (final step state inputs) =
      ((history step state inputs).filterMap (written? ·.input)).getLast?.getD (part state) := by
  induction inputs using List.reverseRecOn with
  | nil => rfl
  | append_singleton inputs input ih =>
    rw [final_concat, hstep, ih, history_concat, List.filterMap_append]
    cases hwritten : written? input with
    | none => simp [hwritten]
    | some value => simp [hwritten]

/-- The turn of a moment is the step from there. -/
theorem turn_of_mem_history {inputs : List Input} {m : Moment State Input Effect Result}
    (hm : m ∈ history step state inputs) : m.turn = step m.before m.input :=
  (history_mem_invariant (P := fun _ => True) step (fun _ _ _ => trivial) trivial hm).2

/-! ## What a run does -/

/-- A run goes on from where the first inputs have led. -/
theorem run_append (first second : List Input) :
    run step state (first ++ second) =
      run step state first ++ run step (final step state first) second := by
  simp only [← map_turn_history, history_append, List.map_append]

/-- What is done in a run, in order. -/
def runEffects (inputs : List Input) : List Effect := (run step state inputs).flatMap (·.effects)

/-- The effects of the first inputs come before those of the rest. -/
theorem runEffects_append (first second : List Input) :
    runEffects step state (first ++ second) =
      runEffects step state first ++ runEffects step (final step state first) second := by
  simp only [runEffects, run_append, List.flatMap_append]

/-- A single input has the effects of its step. -/
theorem runEffects_singleton (input : Input) :
    runEffects step state [input] = (step state input).effects :=
  List.flatMap_singleton _ _

/-- The effects of the first step come before those of the rest. -/
theorem runEffects_cons (input : Input) (rest : List Input) :
    runEffects step state (input :: rest) =
      (step state input).effects ++ runEffects step (step state input).state rest :=
  List.flatMap_cons

/-- A turn with another state. -/
def mapState (change : State → State) (turn : Turn State Effect Result) :
    Turn State Effect Result :=
  { turn with state := change turn.state }

/-- If the inputs of a run do the same whether or not the state has been changed, and keep the
    change, then so does the run. -/
theorem run_of_commutes (change : State → State) {inputs : List Input}
    (hstep : ∀ s, ∀ input ∈ inputs, step (change s) input = (step s input).mapState change)
    (state : State) :
    run step (change state) inputs = (run step state inputs).map (mapState change) ∧
      final step (change state) inputs = change (final step state inputs) := by
  induction inputs generalizing state with
  | nil => exact ⟨rfl, rfl⟩
  | cons input rest ih =>
    have hinput := hstep state input List.mem_cons_self
    -- The first step keeps the change, and the rest goes on from there.
    have hstate : (step (change state) input).state = change (step state input).state := by
      rw [hinput]
      rfl
    obtain ⟨hrun, hfinal⟩ :=
      ih (fun s i hi => hstep s i (List.mem_cons_of_mem input hi)) (step state input).state
    constructor
    · simp only [run, List.map_cons]
      rw [hstate, hrun, hinput]
    · rw [final_cons, hstate, hfinal, final_cons]

/-- An input that does nothing but answer may come any number of times. -/
theorem run_replicate_of_idle {step : State → Input → Turn State Effect Result} {state : State}
    {input : Input} {result : Result} (hidle : step state input = .idle state result) (n : Nat) :
    run step state (List.replicate n input) = List.replicate n (.idle state result) ∧
      final step state (List.replicate n input) = state := by
  induction n with
  | zero => exact ⟨rfl, rfl⟩
  | succ n ih =>
    have hstate : (step state input).state = state := by
      rw [hidle]
      rfl
    constructor
    · simp only [List.replicate_succ, run]
      rw [hstate, ih.1, hidle]
    · rw [List.replicate_succ, final_cons, hstate, ih.2]

/-! ## Leaving moments out -/

/-- If the moments that a test picks out leave the state as it was, then a run without their inputs
    has all the other moments, unchanged, and comes to the same state. -/
theorem history_filter_not (picks : Moment State Input Effect Result → Bool)
    (hpicks : ∀ s input, picks ⟨s, input, step s input⟩ → (step s input).state = s)
    (inputs : List Input) :
    let kept := (history step state inputs).filter (!picks ·)
    history step state (kept.map (·.input)) = kept ∧
      final step state (kept.map (·.input)) = final step state inputs := by
  induction inputs generalizing state with
  | nil => exact ⟨rfl, rfl⟩
  | cons input rest ih =>
    obtain ⟨hhistory, hstate⟩ := ih (step state input).state
    dsimp only [history]
    cases hpick : picks ⟨state, input, step state input⟩ with
    | true =>
      -- The moment is left out, and the rest of the run starts from the same state.
      have hidle := hpicks state input hpick
      rw [List.filter_cons_of_neg (by simp [hpick]), final_cons, hidle]
      rw [hidle] at hhistory hstate
      exact ⟨hhistory, hstate⟩
    | false =>
      -- The moment is kept, and what it leads to is what it led to before.
      rw [List.filter_cons_of_pos (by simp [hpick]), final_cons]
      exact ⟨congrArg _ hhistory, hstate⟩

/-! ## What has been true since a moment -/

/-- Something started at a place in a list, given what came before it, and everything after that
    place lets it stay. -/
def HoldsSince {α : Type} (starts : List α → α → Prop) (stays : α → Prop) (list : List α) : Prop :=
  ∃ past x since, list = past ++ x :: since ∧ starts past x ∧ ∀ y ∈ since, stays y

section HoldsSince

variable {α : Type} (starts : List α → α → Prop) (stays : α → Prop)

/-- Nothing has started in the empty list. -/
theorem not_holdsSince_nil : ¬ HoldsSince starts stays [] := by
  rintro ⟨past, x, since, h, -, -⟩
  exact List.append_ne_nil_of_right_ne_nil past (List.cons_ne_nil x since) h.symm

/-- What holds since some element holds after one more if it starts there, or if it held before and
    the new element lets it stay. -/
theorem holdsSince_concat (list : List α) (x : α) :
    HoldsSince starts stays (list ++ [x]) ↔
      starts list x ∨ HoldsSince starts stays list ∧ stays x := by
  constructor
  · rintro ⟨past, y, since, hcut, hstarts, hsince⟩
    -- The new element is where it started, or the last one since.
    rcases List.eq_nil_or_concat since with rfl | ⟨init, last, rfl⟩
    · obtain ⟨hpast, hx⟩ := List.append_inj' hcut rfl
      rw [hpast, List.singleton_inj.mp hx]
      exact .inl hstarts
    · rw [List.concat_eq_append, ← List.cons_append, ← List.append_assoc] at hcut
      obtain ⟨hlist, hx⟩ := List.append_inj' hcut rfl
      rw [List.singleton_inj.mp hx]
      refine .inr ⟨⟨past, y, init, hlist, hstarts, fun z hz => ?_⟩, ?_⟩
      · exact hsince z (by simp [hz])
      · exact hsince last (by simp)
  · rintro (hstarts | ⟨⟨past, y, since, rfl, hstarts, hsince⟩, hstays⟩)
    · exact ⟨list, x, [], rfl, hstarts, fun _ hz => absurd hz List.not_mem_nil⟩
    · refine ⟨past, y, since ++ [x], by simp, hstarts, fun z hz => ?_⟩
      rcases List.mem_append.mp hz with hz | hz
      · exact hsince z hz
      · rwa [List.mem_singleton.mp hz]

/-- If each step makes something true, leaves it as it was, or ends it, then it is true after a run
    in which a step has made it true and all steps since have left it so. -/
theorem final_iff_holdsSince {P : State → Prop}
    {Makes Leaves : Moment State Input Effect Result → Prop}
    (hstep : ∀ s input, P (step s input).state ↔
      Makes ⟨s, input, step s input⟩ ∨ P s ∧ Leaves ⟨s, input, step s input⟩)
    {state : State} (h : ¬ P state) (inputs : List Input) :
    P (final step state inputs) ↔
      HoldsSince (fun _ m => Makes m) Leaves (history step state inputs) := by
  induction inputs using List.reverseRecOn with
  | nil => exact iff_of_false h (not_holdsSince_nil _ _)
  | append_singleton inputs input ih =>
    rw [final_concat, history_concat, holdsSince_concat, hstep, ih]

/-- What has been true since a moment, told by the place of that moment. -/
private theorem holdsSince_iff_exists_getElem (list : List α) :
    HoldsSince starts stays list ↔
      ∃ k, ∃ h : k < list.length, starts (list.take k) list[k] ∧
        ∀ y ∈ list.drop (k + 1), stays y := by
  constructor
  · rintro ⟨past, x, since, rfl, hstarts, hsince⟩
    refine ⟨past.length, by simp, ?_⟩
    simpa using ⟨hstarts, hsince⟩
  · rintro ⟨k, h, hstarts, hsince⟩
    refine ⟨list.take k, list[k], list.drop (k + 1), ?_, hstarts, hsince⟩
    rw [← List.drop_eq_getElem_cons h, List.take_append_drop]

instance [∀ past x, Decidable (starts past x)] [DecidablePred stays] (list : List α) :
    Decidable (HoldsSince starts stays list) :=
  decidable_of_iff' _ (holdsSince_iff_exists_getElem starts stays list)

end HoldsSince

end KvmConsole.Turn
