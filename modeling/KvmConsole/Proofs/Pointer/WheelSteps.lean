import KvmConsole.Proofs.Binary64.Arithmetic
import KvmConsole.Proofs.Pointer.Session
import Mathlib.Data.List.DropRight

/-!
# Steps of the wheel

The tracker adds up vertical movements in binary64. Below the threshold it keeps the sum, and from
there on it gives out one step and starts anew from zero. A sum that is not a number is not below
the threshold either, so that it does not outlast the step it came about in. Whole movements of up
to 52 bits are added without rounding: then the steps come where the exact sum since the last step
reaches the threshold.

Key results:
* `Tracker.accumulateWheel_keeps`, `Tracker.isBelow_step`: whatever the movements, what is kept is a
  number below the threshold.
* `KeepsSum.step`, `Forwarder.exists_keepsSum`: what is kept of whole movements is their exact sum
  since the last step.
* `wheel_steps_at_crossings`: steps of the wheel in any session.
-/

namespace KvmConsole.Pointer

@[simp] def HidEvent.isWheel : HidEvent → Bool
  | .mouseWheel _ _ => true
  | _ => false

/-- The steps of the wheel in some events, in order. -/
def wheelsOf (events : List HidEvent) : List HidEvent := events.filter HidEvent.isWheel

/-- How far the wheel has been turned in a history since the last moment that gave out a step of
    it, without rounding. -/
def turnedSince (h : List Moment) : ℚ :=
  ((h.rtakeWhile fun m => wheelsOf m.generated = []).map fun m =>
    (m.input.turned?.map Binary64.toRat).getD 0).sum

/-- A moment without a wheel step adds its delta. -/
private theorem turnedSince_concat_of_quiet (h : List Moment) (m : Moment)
    (hm : wheelsOf m.generated = []) :
    turnedSince (h ++ [m]) = turnedSince h + (m.input.turned?.map Binary64.toRat).getD 0 := by
  simp [turnedSince, hm]

/-- A wheel step starts the sum anew. -/
private theorem turnedSince_concat_of_step (h : List Moment) (m : Moment)
    (hm : wheelsOf m.generated ≠ []) : turnedSince (h ++ [m]) = 0 := by
  simp [turnedSince, hm]

/-- A movement by a whole number of 52 bits at most. -/
def IsWhole (delta : Binary64) : Prop := ∃ n : ℤ, delta.HasValue n ∧ |n| ≤ 2 ^ 52

/-- Natural numbers up to the bound are whole deltas. -/
private theorem isWhole_ofNat {n : ℕ} (h : n ≤ 2 ^ 52) : IsWhole (Binary64.ofNat n) :=
  ⟨n, by exact_mod_cast Binary64.hasValue_ofNat_of_le (by omega), by exact_mod_cast h⟩

/-- A number below the threshold, in either direction. -/
def IsBelow (x : Binary64) : Prop := ∃ v, x.HasValue v ∧ |v| < 100

/-- The threshold is a hundred. -/
private theorem hasValue_wheelThreshold : wheelThreshold.HasValue 100 :=
  Binary64.hasValue_ofNat_of_le (n := 100) (by norm_num)

/-- Nothing accumulated is below the threshold. -/
private theorem isBelow_zero : IsBelow 0 := ⟨0, Binary64.hasValue_zero, by norm_num⟩

/-- Nothing but a number is below the threshold. -/
private theorem isBelow_of_lt {x : Binary64} (h : x.abs.lt wheelThreshold) : IsBelow x := by
  cases x with
  | nan => cases h
  | infinity negative =>
    obtain ⟨s, hs⟩ := hasValue_wheelThreshold
    rw [hs] at h
    cases h
  | finite negative v =>
    have hv : (Binary64.finite negative v).HasValue v := ⟨negative, rfl⟩
    rw [hv.abs.lt_eq hasValue_wheelThreshold] at h
    exact ⟨v, hv, of_decide_eq_true h⟩

/-! ## What a step makes of the wheel -/

namespace Tracker

variable (t : Tracker)

/-- Turning the wheel only accumulates. -/
private theorem step_wheel (dx dy : Binary64) :
    t.step (.wheel dx dy) =
      ⟨(t.accumulateWheel dy).2, (t.accumulateWheel dy).1.toList, ()⟩ := by
  simp [step, noted, flushed, wheeled, Step.observed?, Step.flushes, Step.buttonEvent?,
    Step.turned?]

/-- A step that does not turn the wheel leaves it as it was. -/
private theorem step_of_unturned {s : Step} (hs : s.turned? = none) :
    wheelsOf (t.step s).effects = [] ∧ (t.step s).state.wheel = t.wheel := by
  have hstep : t.step s =
      ⟨((t.noted s.observed?).flushed s.flushes).2,
        ((t.noted s.observed?).flushed s.flushes).1.toList ++ s.buttonEvent?.toList, ()⟩ := by
    simp [step, hs, wheeled]
  have hnoted : (t.noted s.observed?).wheel = t.wheel := by cases s.observed? <;> rfl
  have hbutton : s.buttonEvent?.toList.filter HidEvent.isWheel = [] := by
    rw [List.filter_eq_nil_iff]
    intro e he
    obtain ⟨b, pressed, rfl⟩ := Step.exists_of_buttonEvent? (Option.mem_toList.mp he)
    exact Bool.false_ne_true
  -- Neither the move nor the button is a wheel step.
  rw [hstep, wheelsOf, List.filter_append, hbutton, List.append_nil, flushed_eq]
  split
  · exact ⟨rfl, hnoted⟩
  · exact ⟨rfl, hnoted⟩

/-- Turning the wheel has no part in the position. What is kept is below the threshold, and a step
    leaves nothing. -/
theorem accumulateWheel_keeps (delta : Binary64) :
    ∃ wheel, (t.accumulateWheel delta).2 = { t with wheel } ∧ IsBelow wheel ∧
      ((t.accumulateWheel delta).1 ≠ none → wheel = 0) := by
  simp only [accumulateWheel]
  split
  · rename_i hlt
    exact ⟨_, rfl, isBelow_of_lt hlt, fun hstep => absurd rfl hstep⟩
  · exact ⟨0, rfl, isBelow_zero, fun _ => rfl⟩

/-- A movement whose sum with what is kept is a number. -/
private theorem accumulateWheel_of_hasValue {delta : Binary64} {sum : ℚ}
    (h : (t.wheel + delta).HasValue sum) :
    t.accumulateWheel delta =
      if 100 ≤ |sum| then
        (some (.mouseWheel 0 (if 0 < sum then -5 else 5)), { t with wheel := 0 })
      else (none, { t with wheel := t.wheel + delta }) := by
  simp only [accumulateWheel, h.abs.lt_eq hasValue_wheelThreshold, Binary64.hasValue_zero.lt_eq h,
    decide_eq_true_eq]
  by_cases hsum : 100 ≤ |sum|
  · rw [if_neg (not_lt.mpr hsum), if_pos hsum]
  · rw [if_pos (not_le.mp hsum), if_neg hsum]

end Tracker

/-- A whole movement is added to a whole sum below the threshold without rounding. -/
private theorem hasValue_add_of_isWhole {x delta : Binary64} {a n : ℤ} (hx : x.HasValue a)
    (ha : |a| < 100) (hdelta : delta.HasValue n) (hn : |n| ≤ 2 ^ 52) :
    (x + delta).HasValue (a + n : ℤ) := by
  -- The sum is an integer of 53 bits, and so it is exact.
  have hsum : |a + n| ≤ 2 ^ 53 := by
    rw [abs_le] at hn ⊢
    rw [abs_lt] at ha
    omega
  have hrange : Binary64.InRange ((a : ℚ) + n) := by
    apply Binary64.inRange_of_le
    calc |(a : ℚ) + n| ≤ 2 ^ 53 := by exact_mod_cast hsum
      _ ≤ 2 ^ 128 := by norm_num
  have hadd := hx.add hdelta hrange
  rw [← Int.cast_add, Binary64.nearest_of_isExact (Binary64.isExact_intCast hsum)] at hadd
  exact hadd

/-- The wheel is turned by its own steps only. -/
private theorem Step.eq_of_turned? {s : Step} {dy : Binary64} (h : s.turned? = some dy) :
    ∃ dx, s = .wheel dx dy := by
  cases s with
  | wheel dx dy' => exact ⟨dx, by rw [Option.some.inj h]⟩
  | _ => cases h

/-! ## Sessions -/

namespace Tracker

variable {t : Tracker}

/-- What is kept stays below the threshold. -/
theorem isBelow_step (h : IsBelow t.wheel) (s : Step) : IsBelow (t.step s).state.wheel := by
  cases hs : s.turned? with
  | none =>
    rw [(t.step_of_unturned hs).2]
    exact h
  | some dy =>
    obtain ⟨dx, rfl⟩ := Step.eq_of_turned? hs
    obtain ⟨wheel, hwheel, hbelow, -⟩ := t.accumulateWheel_keeps dy
    rw [step_wheel, hwheel]
    exact hbelow

/-- A step of the wheel spends what was kept. -/
private theorem wheel_step_of_spent {s : Step} (hspent : wheelsOf (t.step s).effects ≠ []) :
    (t.step s).state.wheel = 0 := by
  cases hs : s.turned? with
  | none => exact absurd (t.step_of_unturned hs).1 hspent
  | some dy =>
    obtain ⟨dx, rfl⟩ := Step.eq_of_turned? hs
    obtain ⟨wheel, hwheel, -, hzero⟩ := t.accumulateWheel_keeps dy
    rw [step_wheel] at hspent
    rw [step_wheel, hwheel]
    refine hzero fun hnone => hspent ?_
    rw [hnone]
    rfl

end Tracker

/-- The sum of the movements in a history since the last step of the wheel is a whole number below
    the threshold, and the tracker after it keeps that number. -/
structure KeepsSum (h : List Moment) (t : Tracker) (a : ℤ) : Prop where
  sum : turnedSince h = a
  kept : t.wheel.HasValue a
  below : |a| < 100

/-- A whole movement, after a history that has kept the exact sum. -/
theorem KeepsSum.accumulateWheel {h : List Moment} {t : Tracker} {a : ℤ} (hkeeps : KeepsSum h t a)
    {dy : Binary64} (hdy : IsWhole dy) :
    let sum := turnedSince h + dy.toRat
    (∃ b : ℤ, sum = b ∧ (t.wheel + dy).HasValue b) ∧
      t.accumulateWheel dy =
        if 100 ≤ |sum| then
          (some (.mouseWheel 0 (if 0 < sum then -5 else 5)), { t with wheel := 0 })
        else (none, { t with wheel := t.wheel + dy }) := by
  obtain ⟨n, hvalue, hn⟩ := hdy
  have hadd := hasValue_add_of_isWhole hkeeps.kept hkeeps.below hvalue hn
  -- The sum over the history is the one that the tracker computes.
  have hsum : turnedSince h + dy.toRat = (a + n : ℤ) := by
    rw [hkeeps.sum, hvalue.toRat_eq, Int.cast_add]
  refine ⟨⟨a + n, hsum, hadd⟩, ?_⟩
  rw [hsum]
  exact t.accumulateWheel_of_hasValue hadd

/-- A step keeps the exact sum, if it turns the wheel by a whole movement or not at all. -/
theorem KeepsSum.step {h : List Moment} {f : Forwarder} {a : ℤ} (hkeeps : KeepsSum h f.tracker a)
    {s : Step} (hwhole : ∀ dy, s.turned? = some dy → IsWhole dy) :
    ∃ b, KeepsSum (h ++ [⟨f, s, f.step s⟩]) (f.tracker.step s).state b := by
  cases hs : s.turned? with
  | none =>
    -- The wheel is not turned, and the sum stays.
    obtain ⟨hquiet, hwheel⟩ := f.tracker.step_of_unturned hs
    refine ⟨a, ?_, ?_, hkeeps.below⟩
    · rw [turnedSince_concat_of_quiet h ⟨f, s, f.step s⟩ hquiet, hkeeps.sum, hs]
      exact add_zero _
    · rw [hwheel]
      exact hkeeps.kept
  | some dy =>
    obtain ⟨⟨b, hsum, hadd⟩, haccumulate⟩ := hkeeps.accumulateWheel (hwhole dy hs)
    obtain ⟨dx, rfl⟩ := Step.eq_of_turned? hs
    have hstep := f.tracker.step_wheel dx dy
    rw [haccumulate] at hstep
    split at hstep
    · -- The threshold is reached: what was added up is spent.
      have hspent : wheelsOf (f.tracker.step (.wheel dx dy)).effects ≠ [] := by
        rw [hstep]
        exact List.cons_ne_nil _ _
      refine ⟨0, ?_, ?_, by norm_num⟩
      · rw [turnedSince_concat_of_step h ⟨f, _, f.step _⟩ hspent, Int.cast_zero]
      · rw [hstep, Int.cast_zero]
        exact Binary64.hasValue_zero
    · -- The threshold is not reached, and the delta is kept.
      rename_i hreached
      have hquiet : wheelsOf (f.tracker.step (.wheel dx dy)).effects = [] := by
        rw [hstep]
        rfl
      refine ⟨b, ?_, ?_, ?_⟩
      · rw [turnedSince_concat_of_quiet h ⟨f, _, f.step _⟩ hquiet]
        exact hsum
      · rw [hstep]
        exact hadd
      · rw [hsum, not_le] at hreached
        exact_mod_cast hreached

namespace Forwarder

/-- Whatever has happened, what is kept is below the threshold. -/
private theorem isBelow_of_cut {touchCapture : Bool} {steps : List Step} {past since : List Moment}
    {m : Moment} (hcut : history touchCapture steps = past ++ m :: since) :
    IsBelow m.before.tracker.wheel := by
  obtain ⟨-, hbefore, -⟩ := Turn.history_eq_append_cons step { touchCapture } hcut
  rw [hbefore]
  refine Turn.final_invariant (P := fun f => IsBelow f.tracker.wheel) step ?_ ?_ _
  · intro f s hf
    rw [tracker_step]
    exact Tracker.isBelow_step hf s
  · exact isBelow_zero

/-- A session of whole movements keeps the exact sum. -/
theorem exists_keepsSum (touchCapture : Bool) (steps : List Step)
    (hwhole : ∀ s ∈ steps, ∀ dy, s.turned? = some dy → IsWhole dy) :
    ∃ a, KeepsSum (history touchCapture steps) (after touchCapture steps).tracker a := by
  induction steps using List.reverseRecOn with
  | nil => exact ⟨0, rfl, by exact_mod_cast Binary64.hasValue_zero, by norm_num⟩
  | append_singleton steps s ih =>
    obtain ⟨a, hkeeps⟩ := ih fun x hx => hwhole x (List.mem_append_left _ hx)
    rw [history_concat, after_concat, tracker_step]
    exact hkeeps.step (hwhole s (by simp))

/-- A session of whole movements keeps the exact sum before and after each of its moments. -/
private theorem exists_keepsSum_of_cut {touchCapture : Bool} {steps : List Step}
    (hwhole : ∀ s ∈ steps, ∀ dy, s.turned? = some dy → IsWhole dy)
    {past since : List Moment} {m : Moment}
    (hcut : history touchCapture steps = past ++ m :: since) :
    (∃ a, KeepsSum past m.before.tracker a) ∧
      ∃ b, KeepsSum (past ++ [m]) m.turn.state.tracker b := by
  -- The moments up to a cut are the history of the inputs up to there.
  obtain ⟨hpast, hbefore, -⟩ := Turn.history_eq_append_cons step { touchCapture } hcut
  obtain ⟨hhistory, hafter⟩ := Turn.history_eq_concat_of_cut step { touchCapture } hcut
  have hsteps := Turn.inputs_eq_of_cut step { touchCapture } hcut
  constructor
  · have hkeeps := exists_keepsSum touchCapture (past.map (·.input)) fun s hs =>
      hwhole s (by rw [hsteps]; exact List.mem_append_left _ hs)
    rwa [history, ← hpast, after, ← hbefore] at hkeeps
  · have hkeeps := exists_keepsSum touchCapture (past.map (·.input) ++ [m.input]) fun s hs =>
      hwhole s (by rw [hsteps, List.append_cons]; exact List.mem_append_left _ hs)
    rwa [history, hhistory, after, hafter] at hkeeps

end Forwarder

open Forwarder

/-- Steps of the wheel in any session.

    * Nothing but turning the wheel gives out a step of it or changes what is kept of the movements.
      Turning it has no part in the position, and the horizontal movement has no part in anything.
      After a step nothing is kept. Whatever the movements are, infinities and no numbers among
      them, what is kept is a number below the threshold in magnitude.
    * What is given out is sent if the channel accepts events.

    If all vertical movements are whole numbers of 52 bits at most, then a turn of the wheel gives
    out a step exactly when the sum of the movements since the last step, without rounding, reaches
    the threshold in magnitude. There is one step, however great the sum is, and in the opposite
    direction. Until then the sum is below the threshold, and what is kept is that sum. -/
theorem wheel_steps_at_crossings (touchCapture : Bool) (steps : List Step) :
    (∀ past m since, history touchCapture steps = past ++ m :: since →
      (m.input.turned? = none →
        wheelsOf m.generated = [] ∧ m.turn.state.tracker.wheel = m.before.tracker.wheel) ∧
      (∀ dx dy, m.input = .wheel dx dy →
        (∃ wheel, m.turn.state.tracker = { m.before.tracker with wheel }) ∧
        ∀ dx', m.before.step (.wheel dx' dy) = m.turn) ∧
      (wheelsOf m.generated ≠ [] → m.turn.state.tracker.wheel = 0) ∧
      (∃ v, m.turn.state.tracker.wheel.HasValue v ∧ |v| < 100) ∧
      (channelIn past = some .accepting → m.sent = m.generated)) ∧
    ((∀ s ∈ steps, ∀ dy, s.turned? = some dy → IsWhole dy) →
      ∀ past m since, history touchCapture steps = past ++ m :: since →
        (∀ dx dy, m.input = .wheel dx dy →
          let sum := turnedSince past + dy.toRat
          m.generated =
            if 100 ≤ |sum| then [.mouseWheel 0 (if 0 < sum then -5 else 5)] else []) ∧
        |turnedSince past| < 100 ∧
        m.turn.state.tracker.wheel.HasValue (turnedSince (past ++ [m]))) := by
  constructor
  · intro past m since hcut
    have hturn := (step_of_history_eq hcut).2
    have htracker := tracker_of_turn_eq hturn
    refine ⟨?_, ?_, ?_, ?_, sent_of_accepting hcut⟩
    · -- Whatever the deltas are.
      intro hunturned
      rw [htracker]
      exact m.before.tracker.step_of_unturned hunturned
    · intro dx dy hinput
      obtain ⟨wheel, hwheel, -⟩ := m.before.tracker.accumulateWheel_keeps dy
      constructor
      · rw [htracker, hinput, Tracker.step_wheel]
        exact ⟨wheel, hwheel⟩
      · intro dx'
        rw [hturn, hinput]
        rfl
    · intro hspent
      rw [htracker]
      exact Tracker.wheel_step_of_spent hspent
    · rw [htracker]
      exact Tracker.isBelow_step (isBelow_of_cut hcut) m.input
  · -- Over whole deltas the accumulated number is the sum itself.
    intro hwhole past m since hcut
    obtain ⟨⟨a, hbefore⟩, b, hafter⟩ := exists_keepsSum_of_cut hwhole hcut
    refine ⟨?_, ?_, ?_⟩
    · intro dx dy hinput sum
      have hdy : IsWhole dy := by
        refine hwhole m.input ?_ dy (by rw [hinput]; rfl)
        rw [Turn.inputs_eq_of_cut step { touchCapture } hcut]
        exact List.mem_append_right _ List.mem_cons_self
      rw [Moment.generated, hinput, Tracker.step_wheel, (hbefore.accumulateWheel hdy).2]
      by_cases hreached : 100 ≤ |sum|
      · rw [if_pos hreached, if_pos hreached]
        rfl
      · rw [if_neg hreached, if_neg hreached]
        rfl
    · rw [hbefore.sum]
      exact_mod_cast hbefore.below
    · rw [hafter.sum]
      exact hafter.kept

/-- Two movements that reach the threshold together, and one that does so alone. -/
theorem wheel_steps_at_crossings_scroll :
    let steps : List Step := [.wheel 0 60, .tick, .wheel 5 40, .wheel 0 250]
    (∀ s ∈ steps, ∀ dy, s.turned? = some dy → IsWhole dy) ∧
      ∀ past m since, history false steps = past ++ m :: since →
        |turnedSince past| < 100 ∧
        m.turn.state.tracker.wheel.HasValue (turnedSince (past ++ [m])) := by
  intro steps
  have hwhole : ∀ s ∈ steps, ∀ dy, s.turned? = some dy → IsWhole dy := by
    intro s hs dy hdy
    simp only [steps, List.mem_cons, List.not_mem_nil, or_false] at hs
    rcases hs with rfl | rfl | rfl | rfl <;> cases hdy <;> exact isWhole_ofNat (by norm_num)
  refine ⟨hwhole, fun past m since hcut => ?_⟩
  exact ((wheel_steps_at_crossings false steps).2 hwhole past m since hcut).2

end KvmConsole.Pointer
