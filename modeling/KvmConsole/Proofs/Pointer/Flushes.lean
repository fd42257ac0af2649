import KvmConsole.Proofs.Pointer.LastMove
import Mathlib.Data.List.Chain

/-!
# Moves and buttons of a session

A flush gives out a move if the position is another one than that of the last move. Ticks, touches
and buttons flush, and nothing else gives out a move. So no two moves in a row come from one
position, and there are never more moves than observations: between two moves the position has to
be observed anew.

Key results:
* `Tracker.movesOf_step`, `Tracker.lastSent_step`: what a step does about the position.
* `Tracker.effects_of_flushes`: a flush gives out a move at most, and then the button.
* `after_lastMovedTo`: a tracker knows what the last move was made from.
* `length_movedIn_add_due_le`: a move is paid for by an observation.
* `isChain_movedIn`: no two moves in a row come from one position.
* `moves_before_buttons`: what each step gives out, and what the whole session gives out.
-/

namespace KvmConsole.Pointer

@[simp] def HidEvent.isButton : HidEvent → Bool
  | .mouseButton _ _ => true
  | _ => false

/-- The events that the tracker gave out in a history, in order. -/
def generatedIn (h : List Moment) : List HidEvent := h.flatMap Moment.generated

/-- What the tracker takes to be observed before anything is. -/
def Observation.initial : Observation := ⟨.origin, 0, 0⟩

/-- What has been observed last in a history. -/
def lastSeen (h : List Moment) : Observation := (lastObserved? h).getD .initial

/-- What had been observed last when the moves of a history were given out, one observation for
    each move and in order. It starts with what was observed before. -/
def movedFrom (last : Observation) : List Moment → List Observation
  | [] => []
  | m :: rest =>
    let seen := m.input.observed?.getD last
    (movesOf m.generated).map (fun _ => seen) ++ movedFrom seen rest

/-- What the moves of a session were made from, in order. -/
def movedIn (h : List Moment) : List Observation := movedFrom .initial h

/-- The position that the last move was made from. Before any move it is the corner. -/
def lastMovedTo (h : List Moment) : Position :=
  ((movedIn h).getLast?.map (·.position)).getD .origin

/-- The last moment generates its events after all others. -/
private theorem generatedIn_concat (h : List Moment) (m : Moment) :
    generatedIn (h ++ [m]) = generatedIn h ++ m.generated := by
  rw [generatedIn, List.flatMap_append, List.flatMap_singleton, generatedIn]

/-- A moment adds one position if it generates a move, namely the one that was observed last. -/
private theorem movedFrom_concat (last : Observation) (h : List Moment) (m : Moment) :
    movedFrom last (h ++ [m]) =
      movedFrom last h ++
        (movesOf m.generated).map fun _ => (lastObserved? (h ++ [m])).getD last := by
  induction h generalizing last with
  | nil => cases hm : m.input.observed? <;> simp [movedFrom, lastObserved?, observationsIn, hm]
  | cons x rest ih =>
    -- What was observed at the first moment is what was observed before the others.
    have hlast : (lastObserved? (rest ++ [m])).getD (x.input.observed?.getD last) =
        (lastObserved? (x :: rest ++ [m])).getD last := by
      cases hx : x.input.observed? with
      | none => simp [lastObserved?, observationsIn, hx]
      | some o => simp [lastObserved?, observationsIn, hx, List.getLast?_cons]
    rw [List.cons_append, movedFrom, ih, hlast, movedFrom, List.append_assoc]
    rfl

/-- A moment adds one position if it generates a move, counting from the start of a session. -/
private theorem movedIn_concat (h : List Moment) (m : Moment) :
    movedIn (h ++ [m]) =
      movedIn h ++ (movesOf m.generated).map fun _ => lastSeen (h ++ [m]) :=
  movedFrom_concat .initial h m

/-! ## What a step gives out -/

namespace Tracker

variable (t : Tracker) (s : Step)

/-- A step that does not flush gives out no move. -/
private theorem movesOf_step_of_not_flushes (h : s.flushes = false) :
    movesOf (t.step s).effects = [] := by
  obtain ⟨wheel, steps, hsteps, hstep⟩ := t.step_eq s
  have hbutton : s.buttonEvent? = none := by
    cases hs : s.buttonEvent? with
    | none => rfl
    | some e => exact absurd (Step.flushes_of_buttonEvent? hs) (by simp [h])
  have heffects : (t.step s).effects = steps := by simp [hstep, h, flushed, hbutton]
  -- Only the steps of the wheel are left, and they are no moves.
  rw [heffects, movesOf, List.filter_eq_nil_iff]
  intro e he
  obtain ⟨y, rfl⟩ := hsteps e he
  exact Bool.false_ne_true

/-- A flush gives out the move to the position if it is not the one of the last move. -/
theorem movesOf_step :
    movesOf (t.step s).effects =
      if s.flushes ∧ (t.step s).state.current ≠ t.lastSent then
        [(t.step s).state.seen.moveEvent]
      else [] := by
  cases t.movesPointer_step s with
  -- No move is made, so that nothing was flushed or nothing is new.
  | rests hmoves _ hflushed =>
    rw [hmoves, if_neg]
    exact fun ⟨hflushes, hnew⟩ => hnew (hflushed hflushes)
  -- A move is made, and that happens in a flush alone.
  | moves hmoves _ hnew =>
    have hflushes : s.flushes := by
      by_contra h
      rw [t.movesOf_step_of_not_flushes s (by simpa using h)] at hmoves
      cases hmoves
    rw [hmoves, if_pos ⟨hflushes, hnew⟩]

/-- A move counts as sent, and nothing else does. -/
theorem lastSent_step :
    (t.step s).state.lastSent =
      if movesOf (t.step s).effects = [] then t.lastSent else (t.step s).state.current := by
  cases t.movesPointer_step s with
  | rests hmoves hlast _ => rw [hlast, if_pos hmoves]
  | moves hmoves hlast _ => rw [hlast, hmoves, if_neg (List.cons_ne_nil _ _)]

/-- A flush gives out a move at most, and then the button. -/
theorem effects_of_flushes (h : s.flushes) :
    (t.step s).effects = movesOf (t.step s).effects ++ s.buttonEvent?.toList := by
  -- A step that flushes does not turn the wheel.
  have hturned : s.turned? = none := by
    cases s with
    | wheel => cases h
    | _ => rfl
  have heffects : (t.step s).effects =
      ((t.noted s.observed?).flushed s.flushes).1.toList ++ s.buttonEvent?.toList := by
    simp [step, wheeled, hturned]
  have hbutton : movesOf s.buttonEvent?.toList = [] := by
    rw [movesOf, List.filter_eq_nil_iff]
    intro e he
    rw [Step.isMove_of_buttonEvent? (Option.mem_toList.mp he)]
    exact Bool.false_ne_true
  have hmove : movesOf ((t.noted s.observed?).flushed s.flushes).1.toList =
      ((t.noted s.observed?).flushed s.flushes).1.toList := by
    rw [flushed_eq]
    split <;> rfl
  rw [heffects, movesOf_append, hmove, hbutton, List.append_nil]

/-- A step gives out the button that it presses or releases, and no other. -/
private theorem filter_isButton_step :
    (t.step s).effects.filter HidEvent.isButton = s.buttonEvent?.toList := by
  obtain ⟨wheel, steps, hsteps, hstep⟩ := t.step_eq s
  -- Of the three kinds of events a step may give out, two are no buttons.
  have hmove :
      ((t.noted s.observed?).flushed s.flushes).1.toList.filter HidEvent.isButton = [] := by
    rw [flushed_eq]
    split <;> rfl
  have hwheel : steps.filter HidEvent.isButton = [] := by
    rw [List.filter_eq_nil_iff]
    intro e he
    obtain ⟨y, rfl⟩ := hsteps e he
    exact Bool.false_ne_true
  have hbutton : s.buttonEvent?.toList.filter HidEvent.isButton = s.buttonEvent?.toList := by
    rw [List.filter_eq_self]
    intro e he
    obtain ⟨b, pressed, rfl⟩ := Step.exists_of_buttonEvent? (Option.mem_toList.mp he)
    rfl
  rw [hstep, List.filter_append, List.filter_append, hmove, hbutton, hwheel, List.append_nil,
    List.nil_append]

/-- The number of moves that a flush would give out now. -/
def due : Nat := if t.current = t.lastSent then 0 else 1

/-- An observation makes one move due at most, and a move that is given out is due no more. -/
private theorem length_movesOf_step_le :
    (movesOf (t.step s).effects).length + (t.step s).state.due ≤
      t.due + s.observed?.toList.length := by
  have hcurrent : s.observed? = none → (t.step s).state.current = t.current := by
    intro hs
    have hseen := t.seen_step s
    rw [hs] at hseen
    exact congrArg Observation.position hseen
  simp only [due]
  -- A move needs a new position, which was observed in this step or was due before.
  cases t.movesPointer_step s with
  | rests hmoves hlast _ =>
    rw [hmoves, hlast]
    cases hs : s.observed? with
    | none =>
      rw [hcurrent hs]
      exact Nat.le_of_eq (Nat.add_comm _ _)
    | some o => split <;> simp
  | moves hmoves hlast hnew =>
    rw [hmoves, if_pos hlast.symm]
    cases hs : s.observed? with
    | none =>
      rw [hcurrent hs] at hnew
      rw [if_neg hnew]
      simp
    | some o => simp

end Tracker

/-! ## What a session gives out -/

namespace Forwarder

variable (touchCapture : Bool)

/-- A tracker knows what the last move was made from. -/
theorem after_lastMovedTo (steps : List Step) :
    (after touchCapture steps).tracker.lastSent = lastMovedTo (history touchCapture steps) := by
  induction steps using List.reverseRecOn with
  | nil => rfl
  | append_singleton steps s ih =>
    have hseen := after_seen touchCapture (steps ++ [s])
    have hmoves := (after touchCapture steps).tracker.movesOf_step s
    rw [history_concat] at hseen ⊢
    rw [after_concat, tracker_step] at hseen ⊢
    rw [Tracker.lastSent_step, lastMovedTo, movedIn_concat, Moment.generated]
    -- What was sent last changes exactly when a move is made.
    split at hmoves
    · rw [hmoves, if_neg (List.cons_ne_nil _ _), List.map_singleton, List.getLast?_concat]
      exact congrArg Observation.position hseen
    · rw [hmoves, if_pos rfl, List.map_nil, List.append_nil, ih, lastMovedTo]

/-- A move is paid for by an observation. -/
theorem length_movedIn_add_due_le (steps : List Step) :
    (movedIn (history touchCapture steps)).length + (after touchCapture steps).tracker.due ≤
      (observationsIn (history touchCapture steps)).length := by
  induction steps using List.reverseRecOn with
  | nil => exact Nat.le_refl 0
  | append_singleton steps s ih =>
    have hstep := (after touchCapture steps).tracker.length_movesOf_step_le s
    have hobserved : ([s].filterMap Step.observed?).length = s.observed?.toList.length := by
      cases hs : s.observed? <;> simp [hs]
    -- The budget of the step is added to the one of the steps before.
    rw [observationsIn_history] at ih ⊢
    rw [history_concat, movedIn_concat, after_concat, tracker_step, List.filterMap_append,
      List.length_append, List.length_append, List.length_map, hobserved]
    dsimp only [Moment.generated]
    omega

variable {touchCapture}

/-- A moment gives out a move if it flushes a position other than that of the last move. -/
private theorem movesOf_generated_of_cut {steps : List Step} {past since : List Moment} {m : Moment}
    (hcut : history touchCapture steps = past ++ m :: since) :
    movesOf m.generated =
      if m.input.flushes ∧ (lastSeen (past ++ [m])).position ≠ lastMovedTo past then
        [(lastSeen (past ++ [m])).moveEvent]
      else [] := by
  obtain ⟨hpast, hbefore, hturn, -⟩ := Turn.history_eq_append_cons step { touchCapture } hcut
  obtain ⟨hhistory, hafter⟩ := Turn.history_eq_concat_of_cut step { touchCapture } hcut
  -- The tracker remembers what the history tells: the last move and the last observation.
  have hlast := after_lastMovedTo touchCapture (past.map (·.input))
  have hseen := after_seen touchCapture (past.map (·.input) ++ [m.input])
  rw [history, ← hpast, after, ← hbefore] at hlast
  rw [history, hhistory, after, hafter, hturn, tracker_step] at hseen
  have hposition : (m.before.tracker.step m.input).state.current =
      (lastSeen (past ++ [m])).position := congrArg Observation.position hseen
  rw [Moment.generated, Tracker.movesOf_step, hposition, hlast, hseen]
  rfl

variable (touchCapture)

/-- The moves of a session are those to what had been observed. -/
private theorem movesOf_generatedIn (steps : List Step) :
    movesOf (generatedIn (history touchCapture steps)) =
      (movedIn (history touchCapture steps)).map Observation.moveEvent := by
  induction steps using List.reverseRecOn with
  | nil => rfl
  | append_singleton steps s ih =>
    have hmoves := movesOf_generated_of_cut (history_concat touchCapture steps s)
    rw [history_concat, generatedIn_concat, movesOf_append, ih, movedIn_concat, List.map_append]
    split at hmoves
    · rw [hmoves]
      rfl
    · rw [hmoves]
      rfl

/-- Two moves in a row are made from different positions, the first one from another position than
    the corner. -/
theorem isChain_movedIn (steps : List Step) :
    (Position.origin :: (movedIn (history touchCapture steps)).map (·.position)).IsChain
      (· ≠ ·) := by
  induction steps using List.reverseRecOn with
  | nil => exact List.isChain_singleton _
  | append_singleton steps s ih =>
    have hmoves := movesOf_generated_of_cut (history_concat touchCapture steps s)
    rw [history_concat, movedIn_concat, List.map_append, ← List.cons_append]
    split at hmoves
    · -- A move is made because the position differs from the one that was moved to last.
      rename_i hnew
      rw [hmoves, List.map_singleton, List.map_singleton, List.isChain_append]
      refine ⟨ih, List.isChain_singleton _, ?_⟩
      intro x hx y hy
      have hlast : lastMovedTo (history touchCapture steps) = x := by
        rw [List.getLast?_cons, List.getLast?_map] at hx
        exact Option.some.inj hx
      have hseen : (lastSeen _).position = y := Option.some.inj hy
      rw [← hlast, ← hseen]
      exact hnew.2.symm
    · -- No move is made, and the chain stays as it is.
      rw [hmoves]
      simpa using ih

/-- The buttons of a session are those that its steps press and release. -/
private theorem filter_isButton_generatedIn (steps : List Step) :
    (generatedIn (history touchCapture steps)).filter HidEvent.isButton =
      steps.filterMap Step.buttonEvent? := by
  induction steps using List.reverseRecOn with
  | nil => rfl
  | append_singleton steps s ih =>
    rw [history_concat, generatedIn_concat, List.filter_append, ih, Moment.generated,
      Tracker.filter_isButton_step, List.filterMap_append]
    cases hs : s.buttonEvent? <;> simp [hs]

end Forwarder

open Forwarder

/-- Moves and buttons in any session.

    * Ticks, touches and the buttons that are forwarded flush the position. Such a step gives out
      one move if what has been observed last is at another position than the last move was made
      from, and none otherwise. The move is to that observation. A button follows it, and nothing
      else. Then the position counts as sent.
    * No other step gives out a move or changes what counts as sent. A button that is not forwarded
      does nothing at all.
    * What is given out is sent if the channel accepts events.

    In the session as a whole, the moves are those to the observations they were made from. No two
    in a row come from one position, and there are no more of them than observations. The buttons
    are those that were pressed and released, each of them once and in order. -/
theorem moves_before_buttons (touchCapture : Bool) (steps : List Step) :
    (∀ past m since, history touchCapture steps = past ++ m :: since →
      (m.input.flushes →
        m.generated =
          (if (lastSeen (past ++ [m])).position ≠ lastMovedTo past then
            [(lastSeen (past ++ [m])).moveEvent]
          else []) ++ m.input.buttonEvent?.toList ∧
        m.turn.state.tracker.lastSent = m.turn.state.tracker.current) ∧
      (m.input.flushes = false →
        movesOf m.generated = [] ∧
          m.turn.state.tracker.lastSent = m.before.tracker.lastSent) ∧
      (∀ code pressed, m.input = .button code pressed → Button.ofCode? code = none →
        m.generated = [] ∧ m.turn.state = m.before) ∧
      (channelIn past = some .accepting → m.sent = m.generated)) ∧
    let h := history touchCapture steps
    movesOf (generatedIn h) = (movedIn h).map Observation.moveEvent ∧
    (Position.origin :: (movedIn h).map (·.position)).IsChain (· ≠ ·) ∧
    (movesOf (generatedIn h)).length ≤ (observationsIn h).length ∧
    (generatedIn h).filter HidEvent.isButton = steps.filterMap Step.buttonEvent? := by
  constructor
  · intro past m since hcut
    have hturn := (step_of_history_eq hcut).2
    have hmoves := movesOf_generated_of_cut hcut
    have htracker := tracker_of_turn_eq hturn
    refine ⟨?_, ?_, ?_, sent_of_accepting hcut⟩
    · -- A flush makes the move first.
      intro hflushes
      have hgenerated : m.generated = movesOf m.generated ++ m.input.buttonEvent?.toList :=
        m.before.tracker.effects_of_flushes m.input hflushes
      rw [hmoves] at hgenerated
      simp only [hflushes, true_and] at hgenerated
      rw [htracker]
      exact ⟨hgenerated, m.before.tracker.lastSent_of_flushes m.input hflushes⟩
    · -- Without a flush there is no move, and what was sent last stays.
      intro hquiet
      have hnone : movesOf m.generated = [] :=
        m.before.tracker.movesOf_step_of_not_flushes m.input hquiet
      refine ⟨hnone, ?_⟩
      rw [htracker, Tracker.lastSent_step]
      exact if_pos hnone
    · -- A button without a name is ignored altogether.
      intro code pressed hinput hcode
      constructor
      · rw [Moment.generated, hinput, Tracker.step_button_of_none _ hcode]
      · rw [hturn, hinput]
        simp only [step, button, hcode]
  · -- The sums over a whole session follow from the steps.
    intro h
    have hcount := length_movedIn_add_due_le touchCapture steps
    have hmoves := movesOf_generatedIn touchCapture steps
    refine ⟨hmoves, isChain_movedIn touchCapture steps, ?_,
      filter_isButton_generatedIn touchCapture steps⟩
    rw [hmoves, List.length_map]
    exact Nat.le_of_add_right_le hcount

end KvmConsole.Pointer
