import KvmConsole.Console.Operation
import KvmConsole.Proofs.History

/-!
# What the console takes from the control channel

Between the daemon and the panels stand the reader, which drops what it cannot use, a queue, and the
choices of the console. None of them loses an event or changes the order: what has been taken, what
waits and what can still be read is always what the daemon has sent.

Key results:
* `Link.pushed_step`, `Link.pushed_run`: what one choice preserves, and what any number of them do.
* `Link.exists_taken_iff`: the console may take in exactly the interleavings of the events with
  reports and ticks.
-/

namespace KvmConsole.Console

/-- The event that the daemon has pushed. -/
@[simp] def Input.pushed? : Input → Option Wire.DaemonEvent
  | .daemon event => some event
  | _ => none

/-- A frame adds its event, if there is one, unless it ends the stream. -/
theorem understood_cons (frame : Daemon.Frame) (rest : List Daemon.Frame) :
    understood (frame :: rest) =
      if frame.isEnd then [] else (frameEvent? frame).toList ++ understood rest := by
  rw [understood, beforeEnd, List.takeWhile_cons]
  cases frame.isEnd with
  | true => rfl
  | false =>
    simp only [Bool.not_false, if_true, List.filterMap_cons]
    cases frameEvent? frame <;> rfl

namespace Link

/-- The channel after some choices. -/
def after (frames : List Daemon.Frame) (choices : List Choice) : Link :=
  Turn.final step { frames } choices

/-- What some choices bring to the console, in order. -/
def taken (frames : List Daemon.Frame) (choices : List Choice) : List Input :=
  Turn.runEffects step { frames } choices

/-- The events that are still to be taken. -/
def ahead (l : Link) : List Wire.DaemonEvent :=
  l.queue ++ if l.reading then understood l.frames else []

/-- Nothing is ahead of a link that is over. -/
private theorem ahead_of_isOver {l : Link} (h : l.isOver) : l.ahead = [] := by
  simp only [isOver, Bool.and_eq_true, Bool.not_eq_true', List.isEmpty_iff] at h
  simp [ahead, h.1, h.2]

/-- Reading moves an event from the channel into the queue. -/
private theorem ahead_readFrame {l : Link} (h : l.reading) : l.readFrame.ahead = l.ahead := by
  rw [readFrame]
  split
  · rename_i hframes
    simp [ahead, hframes, h, understood, beforeEnd]
  · rename_i frame rest hframes
    rw [ahead.eq_def l, hframes, h, understood_cons]
    cases hend : frame.isEnd with
    | true => simp [ahead]
    | false => simp [ahead]

/-- Whatever is chosen, no event is lost or gets ahead of another. -/
theorem pushed_step (l : Link) (choice : Choice) :
    (l.step choice).effects.filterMap Input.pushed? ++ (l.step choice).state.ahead = l.ahead := by
  cases choice with
  | read =>
    rw [step]
    cases h : l.reading with
    | true => exact ahead_readFrame h
    | false => rfl
  | take =>
    rw [step]
    split
    · rfl
    · -- The first event of the queue is given out.
      rename_i event rest hqueue
      simp [ahead, hqueue]
  | report => rfl
  | tick => rfl

/-- What has been given out and what is ahead make up what was ahead at the start. -/
theorem pushed_run (l : Link) (choices : List Choice) :
    (Turn.runEffects step l choices).filterMap Input.pushed? ++ (Turn.final step l choices).ahead =
      l.ahead := by
  induction choices generalizing l with
  | nil => rfl
  | cons choice rest ih =>
    rw [Turn.runEffects_cons, List.filterMap_append, List.append_assoc]
    have hrest := ih (l.step choice).state
    rw [← l.pushed_step choice, ← hrest]
    rfl

/-- When it is over, the console has taken in all events, once each and in order. -/
theorem pushed_taken {frames : List Daemon.Frame} {choices : List Choice}
    (hover : (after frames choices).isOver) :
    (taken frames choices).filterMap Input.pushed? = understood frames := by
  have hrun := pushed_run { frames } choices
  have hahead : (Turn.final step { frames } choices).ahead = [] := ahead_of_isOver hover
  rw [hahead, List.append_nil] at hrun
  exact hrun

/-- The reader may read to the end before the console takes in anything. -/
private theorem exists_read_all (frames : List Daemon.Frame) (queue : List Wire.DaemonEvent) :
    ∃ choices rest,
      Turn.final step ⟨frames, true, queue⟩ choices = ⟨rest, false, queue ++ understood frames⟩ ∧
      Turn.runEffects step ⟨frames, true, queue⟩ choices = [] := by
  induction frames generalizing queue with
  -- Reading without a frame ends the reader.
  | nil =>
    have hnil : understood [] = [] := rfl
    refine ⟨[.read], [], ?_, rfl⟩
    rw [hnil, List.append_nil]
    rfl
  -- A frame that ends the stream ends the reader, and any other is read before the rest.
  | cons frame frames ih =>
    rw [understood_cons]
    cases hend : frame.isEnd with
    | true =>
      refine ⟨[.read], frames, ?_, rfl⟩
      simp [Turn.final, step, readFrame, Turn.idle, hend]
    | false =>
      obtain ⟨choices, rest, hfinal, heffects⟩ := ih (queue ++ (frameEvent? frame).toList)
      have hread : step ⟨frame :: frames, true, queue⟩ .read =
          .idle ⟨frames, true, queue ++ (frameEvent? frame).toList⟩ () := by
        simp [step, readFrame, hend]
      refine ⟨.read :: choices, rest, ?_, ?_⟩
      · rw [List.append_assoc] at hfinal
        rw [if_neg Bool.false_ne_true, ← hfinal]
        exact congrArg (fun t => Turn.final step t.state choices) hread
      · rw [Turn.runEffects_cons, hread]
        exact heffects

/-- The choice that brings an input. -/
def choiceFor : Input → Choice
  | .daemon _ => .take
  | .network event => .report event
  | .tick => .tick

/-- When all events are in the queue, the console may take them in among any other inputs. -/
private theorem take_all (rest : List Daemon.Frame) (inputs : List Input) :
    Turn.final step ⟨rest, false, inputs.filterMap Input.pushed?⟩ (inputs.map choiceFor) =
      ⟨rest, false, []⟩ ∧
    Turn.runEffects step ⟨rest, false, inputs.filterMap Input.pushed?⟩ (inputs.map choiceFor) =
      inputs := by
  induction inputs with
  | nil => exact ⟨rfl, rfl⟩
  | cons input inputs ih =>
    obtain ⟨hfinal, heffects⟩ := ih
    rw [List.map_cons, Turn.runEffects_cons]
    cases input with
    | daemon | network | tick => exact ⟨hfinal, congrArg _ heffects⟩

/-- The console may take in exactly the interleavings of the events, in order, with any reports and
    ticks. -/
theorem exists_taken_iff {frames : List Daemon.Frame} {inputs : List Input} :
    (∃ choices, (after frames choices).isOver ∧ taken frames choices = inputs) ↔
      inputs.filterMap Input.pushed? = understood frames := by
  constructor
  · rintro ⟨choices, hover, rfl⟩
    exact pushed_taken hover
  · -- First everything is read, and then the inputs are taken in as they come.
    intro hpushed
    obtain ⟨reads, rest, hread, hnone⟩ := exists_read_all frames []
    obtain ⟨hfinal, heffects⟩ := take_all rest inputs
    rw [List.nil_append, ← hpushed] at hread
    refine ⟨reads ++ inputs.map choiceFor, ?_, ?_⟩
    · rw [after, Turn.final_append, hread, hfinal]
      rfl
    · rw [taken, Turn.runEffects_append, hnone, hread, heffects, List.nil_append]

end Link

end KvmConsole.Console
