import KvmConsole.Proofs.Pointer.Session

/-!
# Coalescing moves

A move only tells the tracker where the pointer is. Nothing but a flush looks at that, and the next
observation takes its place. So a move that is followed by another observation before any flush
might as well not have happened. And right after a flush there is nothing to send, so that ticks do
nothing.

Key results:
* `step_told_of_quiet`: a step that neither observes nor flushes does not notice what was observed.
* `step_told_of_observed`: an observation takes the place of the one before.
* `step_tick_of_flushes`: there is nothing to flush after a flush.
* `moves_coalesce`: moves left out of a session, and ticks put into one.
-/

namespace KvmConsole.Pointer

/-- The wheel does not notice what was observed. -/
private theorem Tracker.accumulateWheel_observe (t : Tracker) (position : Position)
    (viewport : Viewport)
    (delta : Binary64) :
    (t.observe position viewport).accumulateWheel delta =
      ((t.accumulateWheel delta).1, (t.accumulateWheel delta).2.observe position viewport) := by
  -- Both have the same sum of movements, and nothing else of them is looked at.
  have hwheel : (t.observe position viewport).wheel = t.wheel := rfl
  simp only [accumulateWheel, hwheel]
  split <;> rfl

namespace Forwarder

/-- A forwarder that has been told where the pointer is. -/
def told (o : Observation) (f : Forwarder) : Forwarder :=
  { f with tracker := f.tracker.observe o.position o.viewport }

variable (f : Forwarder) (o : Observation) {s : Step}

/-- A move without touch only makes the tracker observe a position. -/
private theorem step_move (x y : Binary64) (region : Region) :
    f.step (.move x y region) =
      .idle (f.told ⟨region.localPosition x y, region.viewport⟩) .none :=
  rfl

/-- A step that neither observes nor flushes does not notice what was observed. -/
theorem step_told_of_quiet (hflushes : s.flushes = false) (hobserved : s.observed? = none) :
    (f.told o).step s = (f.step s).mapState (told o) := by
  cases s with
  | setChannel | setDevice | hover | contextMenu => rfl
  -- The steps that observe something and those that flush are excluded.
  | move | touch => cases hobserved
  | tick | sendButton => cases hflushes
  | button code pressed =>
    have hcode : Button.ofCode? code = none := by simpa [Step.flushes] using hflushes
    simp only [step, button, hcode]
    rfl
  -- The wheel is turned and the pointer is moved in different parts of the tracker.
  | wheel dx dy =>
    simp only [step, wheel, told, Tracker.accumulateWheel_observe]
    rfl

/-- An observation takes the place of the one before. -/
theorem step_told_of_observed (hobserved : s.observed?.isSome) : (f.told o).step s = f.step s := by
  cases s with
  | move | touch => rfl
  | _ => cases hobserved

/-- There is nothing to flush after a flush. -/
theorem step_tick_of_flushes (hflushes : s.flushes) :
    (f.step s).state.step .tick = .idle (f.step s).state .none := by
  have hsent : (f.step s).state.tracker.current = (f.step s).state.tracker.lastSent := by
    rw [tracker_step, f.tracker.lastSent_of_flushes s hflushes]
  have htake : (f.step s).state.tracker.takeMove = (none, (f.step s).state.tracker) :=
    if_pos hsent
  rw [step, tick, htake]
  rfl

end Forwarder

open Forwarder

/-- Moves coalesce in any session.

    * Take out a move that is followed by another move or a touch, with no step in between that
      observes or flushes. The move does nothing but tell the tracker where the pointer is. The
      steps in between do and answer the same without it, and what the tracker was told is all that
      is different in their states. From the later observation on everything is the same.
    * Put any number of ticks right after a step that flushes. They do nothing and leave the state
      as it is, and everything else is the same. -/
theorem moves_coalesce (touchCapture : Bool) (before between since : List Step) :
    (∀ x y region observing, (∀ s ∈ between, s.flushes = false ∧ s.observed? = none) →
      observing.observed?.isSome →
      let o : Observation := ⟨region.localPosition x y, region.viewport⟩
      let f := after touchCapture before
      let quiet := Turn.run step f between
      let rest := Turn.run step (Turn.final step f between) (observing :: since)
      session touchCapture (before ++ .move x y region :: (between ++ observing :: since)) =
          session touchCapture before ++
            .idle (f.told o) .none :: (quiet.map (Turn.mapState (told o)) ++ rest) ∧
        session touchCapture (before ++ (between ++ observing :: since)) =
          session touchCapture before ++ (quiet ++ rest)) ∧
    (∀ s n, s.flushes →
      let f := after touchCapture (before ++ [s])
      let rest := Turn.run step f since
      session touchCapture (before ++ [s] ++ (List.replicate n .tick ++ since)) =
          session touchCapture (before ++ [s]) ++ (List.replicate n (.idle f .none) ++ rest) ∧
        session touchCapture (before ++ [s] ++ since) =
          session touchCapture (before ++ [s]) ++ rest) := by
  constructor
  · intro x y region observing hbetween hobserving o f quiet rest
    -- The change that the move makes is carried through to the observation, and ends there.
    obtain ⟨hquiet, hfinal⟩ := Turn.run_of_commutes step (told o)
      (fun g s hs => g.step_told_of_quiet o (hbetween s hs).1 (hbetween s hs).2) f
    have hrest :
        Turn.run step (told o (Turn.final step f between)) (observing :: since) = rest := by
      simp only [rest, Turn.run]
      rw [step_told_of_observed _ o hobserving]
    constructor
    · rw [session_append, Turn.run, step_move]
      dsimp only [Turn.idle]
      rw [Turn.run_append, hquiet, hfinal, hrest]
    · rw [session_append, Turn.run_append]
  · -- After a flush the current position has been sent, so that a tick has nothing to do.
    intro s n hflushes f rest
    have hidle : f.step .tick = .idle f .none := by
      have htick := (after touchCapture before).step_tick_of_flushes hflushes
      rw [← after_concat] at htick
      exact htick
    obtain ⟨hticks, hfinal⟩ := Turn.run_replicate_of_idle hidle n
    constructor
    · rw [session_append, Turn.run_append, hticks, hfinal]
    · rw [session_append]

end KvmConsole.Pointer
