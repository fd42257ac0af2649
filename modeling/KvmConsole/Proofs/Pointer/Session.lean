import KvmConsole.Pointer.Forwarder
import KvmConsole.Proofs.History

/-!
# Sessions of a forwarder

A forwarder does two things in a step: its tracker gives out events, and the channel takes them,
refuses them, or is not there. `Tracker.step` is the first without the second, written down as what
a step observes, whether it flushes the position, which button it sends and how far it turns the
wheel. Proofs about sessions use the equations of a step below and never open the forwarder.

Key results:
* `Tracker.movesPointer_step`: a step gives out one move at most, to the position after it.
* `Tracker.pairwise_step`: a move comes before everything else that a step gives out.
* `Forwarder.tracker_step`, `Forwarder.channel_step`: the state after a step.
* `Forwarder.sent_step`, `Forwarder.refused_step`: what the channel makes of a step.
* `Forwarder.step_of_history_eq`, `Forwarder.sent_and_refused_of_turn_eq`: a moment of a session
  finds the channel that was set last, and that channel takes or refuses everything.
-/

namespace KvmConsole.Pointer

/-- A position, and the size of the region that it was measured in. -/
structure Observation where
  position : Position
  viewport : Viewport
  deriving DecidableEq

/-- The corner of the region. -/
def Position.origin : Position := ⟨0, 0⟩

/-- The move to a position in a region of some size. -/
def Observation.moveEvent (o : Observation) : HidEvent :=
  .mouseMove (rescale o.position.x o.viewport.width) (rescale o.position.y o.viewport.height)

/-- The moves in some events, in order. -/
def movesOf (events : List HidEvent) : List HidEvent := events.filter HidEvent.isMove

/-- The moves of two lists come one after the other. -/
theorem movesOf_append (first second : List HidEvent) :
    movesOf (first ++ second) = movesOf first ++ movesOf second :=
  List.filter_append first second

/-! ## What a step asks for -/

namespace Step

/-- What a step tells of the position. -/
def observed? : Step → Option Observation
  | .move x y region | .touch x y region => some ⟨region.localPosition x y, region.viewport⟩
  | _ => none

/-- Whether a step sends the position, if it has changed. -/
def flushes : Step → Bool
  | .touch _ _ _ | .tick | .sendButton _ _ => true
  | .button code _ => (Button.ofCode? code).isSome
  | _ => false

/-- The event of the button that a step presses or releases. -/
def buttonEvent? : Step → Option HidEvent
  | .button code pressed => (Button.ofCode? code).map (HidEvent.mouseButton · pressed)
  | .sendButton b pressed => some (.mouseButton b pressed)
  | _ => none

/-- How far a step turns the wheel. -/
def turned? : Step → Option Binary64
  | .wheel _ dy => some dy
  | _ => none

/-- The channel, or the lack of one, that a step brings about. -/
def channel? : Step → Option (Option Channel)
  | .setChannel channel => some channel
  | _ => none

/-- Whether a step changes the channel. -/
def isChannel (s : Step) : Bool := s.channel?.isSome

/-- The event of a button step is a button event. -/
theorem exists_of_buttonEvent? {s : Step} {e : HidEvent} (h : s.buttonEvent? = some e) :
    ∃ b pressed, e = .mouseButton b pressed := by
  cases s with
  | button code pressed =>
    obtain ⟨b, -, hb⟩ := Option.map_eq_some_iff.mp h
    exact ⟨b, pressed, hb.symm⟩
  | sendButton b pressed => exact ⟨b, pressed, (Option.some.inj h).symm⟩
  | _ => cases h

/-- The event of a button step is no move. -/
theorem isMove_of_buttonEvent? {s : Step} {e : HidEvent} (h : s.buttonEvent? = some e) :
    e.isMove = false := by
  obtain ⟨b, pressed, rfl⟩ := exists_of_buttonEvent? h
  rfl

/-- Buttons flush the position. -/
theorem flushes_of_buttonEvent? {s : Step} {e : HidEvent} (h : s.buttonEvent? = some e) :
    s.flushes := by
  cases s with
  | button code pressed =>
    obtain ⟨b, hb, -⟩ := Option.map_eq_some_iff.mp h
    simp only [flushes, hb, Option.isSome_some]
  | sendButton => rfl
  | _ => cases h

end Step

/-! ## What a tracker makes of a step -/

namespace Tracker

/-- Takes note of an observation, if there is one. -/
def noted (t : Tracker) : Option Observation → Tracker
  | none => t
  | some o => t.observe o.position o.viewport

/-- Takes the move to send, if that is asked for. -/
def flushed (t : Tracker) (asked : Bool) : Option HidEvent × Tracker :=
  if asked then t.takeMove else (none, t)

/-- Adds a movement of the wheel, if there is one. -/
def wheeled (t : Tracker) : Option Binary64 → Option HidEvent × Tracker
  | none => (none, t)
  | some delta => t.accumulateWheel delta

/-- What a tracker gives out in a step, in order, and the tracker after it. -/
def step (t : Tracker) (s : Step) : Turn Tracker HidEvent Unit :=
  let moved := (t.noted s.observed?).flushed s.flushes
  let turned := moved.2.wheeled s.turned?
  ⟨turned.2, moved.1.toList ++ s.buttonEvent?.toList ++ turned.1.toList, ()⟩

/-- What the tracker was told last. -/
def seen (t : Tracker) : Observation := ⟨t.current, t.viewport⟩

variable (t : Tracker) (s : Step)

/-- After a step the tracker has seen what was observed, or what it had seen before. -/
@[simp] theorem seen_noted (o : Option Observation) : (t.noted o).seen = o.getD t.seen := by
  cases o <;> rfl

/-- Observing something sends nothing. -/
@[simp] theorem lastSent_noted (o : Option Observation) : (t.noted o).lastSent = t.lastSent := by
  cases o <;> rfl

/-- A flush gives out the move to the position if it has changed, and then it counts as sent. -/
theorem flushed_eq (asked : Bool) :
    t.flushed asked =
      if asked ∧ t.current ≠ t.lastSent then
        (some t.seen.moveEvent, { t with lastSent := t.current })
      else (none, t) := by
  cases asked with
  | false => rfl
  | true =>
    by_cases h : t.current = t.lastSent
    · simp [flushed, takeMove, h]
    · simp [flushed, takeMove, h, moveEvent, Observation.moveEvent, seen]

/-- The wheel has no part in the position, and gives out nothing but its own steps. -/
private theorem wheeled_eq (delta : Option Binary64) :
    ∃ wheel, (t.wheeled delta).2 = { t with wheel } ∧
      ∀ e ∈ (t.wheeled delta).1.toList, ∃ y, e = .mouseWheel 0 y := by
  cases delta with
  | none => exact ⟨t.wheel, rfl, nofun⟩
  | some delta =>
    simp only [wheeled, accumulateWheel]
    split
    · exact ⟨_, rfl, nofun⟩
    · exact ⟨_, rfl, fun e he => ⟨_, List.mem_singleton.mp he⟩⟩

/-- A step comes to a flush of the position, then the button, and then the wheel. -/
theorem step_eq :
    ∃ wheel steps, (∀ e ∈ steps, ∃ y, e = .mouseWheel 0 y) ∧
      t.step s =
        ⟨{ ((t.noted s.observed?).flushed s.flushes).2 with wheel },
          ((t.noted s.observed?).flushed s.flushes).1.toList ++
            (s.buttonEvent?.toList ++ steps), ()⟩ := by
  obtain ⟨wheel, hwheel, hsteps⟩ :=
    ((t.noted s.observed?).flushed s.flushes).2.wheeled_eq s.turned?
  refine ⟨wheel, _, hsteps, ?_⟩
  rw [← hwheel, step, List.append_assoc]

/-- A tick flushes. -/
private theorem effects_tick : (t.step .tick).effects = t.takeMove.1.toList := by
  simp [step, noted, flushed, wheeled, Step.observed?, Step.flushes, Step.buttonEvent?,
    Step.turned?]

/-- A touch is observed and then flushed. -/
private theorem effects_touch (x y : Binary64) (region : Region) :
    (t.step (.touch x y region)).effects =
      (t.observe (region.localPosition x y) region.viewport).takeMove.1.toList := by
  simp [step, noted, flushed, wheeled, Step.observed?, Step.flushes, Step.buttonEvent?,
    Step.turned?]

/-- A button is sent after a flush. -/
private theorem effects_sendButton (b : Button) (pressed : Bool) :
    (t.step (.sendButton b pressed)).effects =
      t.takeMove.1.toList ++ [.mouseButton b pressed] := by
  simp [step, noted, flushed, wheeled, Step.observed?, Step.flushes, Step.buttonEvent?,
    Step.turned?]

/-- The wheel gives out what has been accumulated. -/
private theorem effects_wheel (dx dy : Binary64) :
    (t.step (.wheel dx dy)).effects = (t.accumulateWheel dy).1.toList := by
  simp [step, noted, flushed, wheeled, Step.observed?, Step.flushes, Step.buttonEvent?,
    Step.turned?]

/-- A button of the page that stands for one of the daemon's is that one. -/
private theorem step_button {code : Int16} {b : Button} (h : Button.ofCode? code = some b)
    (pressed : Bool) : t.step (.button code pressed) = t.step (.sendButton b pressed) := by
  simp only [step, Step.flushes, Step.buttonEvent?, h]
  rfl

/-- Any other button of the page does nothing. -/
theorem step_button_of_none {code : Int16} (h : Button.ofCode? code = none) (pressed : Bool) :
    t.step (.button code pressed) = ⟨t, [], ()⟩ := by
  simp only [step, Step.flushes, Step.buttonEvent?, h]
  rfl

/-- What the tracker has been told is what the step tells it, or what it was told before. -/
theorem seen_step : (t.step s).state.seen = s.observed?.getD t.seen := by
  obtain ⟨wheel, steps, -, hstep⟩ := t.step_eq s
  rw [hstep, flushed_eq, ← seen_noted]
  split <;> rfl

/-- Buttons and steps of the wheel are no moves. -/
private theorem isMove_of_mem_others {steps : List HidEvent}
    (hsteps : ∀ e ∈ steps, ∃ y, e = .mouseWheel 0 y) {e : HidEvent}
    (he : e ∈ s.buttonEvent?.toList ++ steps) : e.isMove = false := by
  rcases List.mem_append.mp he with hbutton | hwheel
  · exact Step.isMove_of_buttonEvent? (Option.mem_toList.mp hbutton)
  · obtain ⟨y, hy⟩ := hsteps e hwheel
    rw [hy]
    rfl

/-- The two things that a step can do with the position. -/
inductive MovesPointer (t : Tracker) (s : Step) : Prop where
  /-- No move is given out: the step does not flush, or there is nothing to flush. -/
  | rests (hmoves : movesOf (t.step s).effects = [])
      (hlast : (t.step s).state.lastSent = t.lastSent)
      (hflushed : s.flushes → (t.step s).state.current = t.lastSent)
  /-- The move to a new position is given out. -/
  | moves (hmoves : movesOf (t.step s).effects = [(t.step s).state.seen.moveEvent])
      (hlast : (t.step s).state.lastSent = (t.step s).state.current)
      (hnew : (t.step s).state.current ≠ t.lastSent)

/-- A step either makes a move or leaves the pointer alone. -/
theorem movesPointer_step : t.MovesPointer s := by
  obtain ⟨wheel, steps, hsteps, hstep⟩ := t.step_eq s
  have hnone : movesOf (s.buttonEvent?.toList ++ steps) = [] := by
    rw [movesOf, List.filter_eq_nil_iff]
    intro e he
    rw [isMove_of_mem_others s hsteps he]
    exact Bool.false_ne_true
  rw [flushed_eq, lastSent_noted] at hstep
  split at hstep
  · -- A flush, and the position is new.
    rename_i h
    refine .moves ?_ ?_ ?_
    · rw [hstep, movesOf_append, hnone]
      rfl
    · rw [hstep]
    · rw [hstep]
      exact h.2
  · rename_i h
    refine .rests ?_ ?_ ?_
    · rw [hstep]
      exact hnone
    · rw [hstep]
      exact t.lastSent_noted s.observed?
    · intro hflushes
      rw [hstep]
      exact Classical.not_not.mp fun hne => h ⟨hflushes, hne⟩

/-- After a flush the position counts as sent, whether or not it has changed. -/
theorem lastSent_of_flushes (hs : s.flushes) :
    (t.step s).state.lastSent = (t.step s).state.current := by
  cases t.movesPointer_step s with
  | rests _ hlast hflushed => rw [hlast, hflushed hs]
  | moves _ hlast _ => exact hlast

/-- A move comes before everything else that a step gives out. -/
theorem pairwise_step : (t.step s).effects.Pairwise fun a b => b.isMove → a.isMove := by
  obtain ⟨wheel, steps, hsteps, hstep⟩ := t.step_eq s
  -- What comes after the flush contains no move.
  have hlater : ∀ e ∈ s.buttonEvent?.toList ++ steps, ∀ a : HidEvent, e.isMove → a.isMove :=
    fun e he a hmove =>
      absurd ((isMove_of_mem_others s hsteps he).symm.trans hmove) Bool.false_ne_true
  rw [hstep, List.pairwise_append]
  refine ⟨?_, List.pairwise_of_forall_mem_list ?_, ?_⟩
  · cases ((t.noted s.observed?).flushed s.flushes).1 with
    | none => exact .nil
    | some e => exact List.pairwise_singleton _ e
  · exact fun a _ b hb => hlater b hb a
  · exact fun a _ b hb => hlater b hb a

/-- A step that gives out a button flushes the position. -/
theorem flushes_of_mem_step {b : Button} {pressed : Bool}
    (h : .mouseButton b pressed ∈ (t.step s).effects) : s.flushes := by
  obtain ⟨wheel, steps, hsteps, hstep⟩ := t.step_eq s
  rw [hstep, List.mem_append, List.mem_append] at h
  -- Of the three parts of a step only the second holds buttons.
  rcases h with hmove | hbutton | hwheel
  · rw [flushed_eq] at hmove
    split at hmove
    · exact nomatch List.mem_singleton.mp hmove
    · cases hmove
  · exact Step.flushes_of_buttonEvent? (Option.mem_toList.mp hbutton)
  · obtain ⟨y, hy⟩ := hsteps _ hwheel
    cases hy

end Tracker

/-! ## What a forwarder makes of a step -/

/-- The event that the channel has taken in an effect. -/
@[simp] def Effect.sent? : Effect → Option HidEvent
  | .sent e => some e
  | _ => none

/-- The event that the channel has refused in an effect. -/
@[simp] def Effect.refused? : Effect → Option HidEvent
  | .refused e => some e
  | _ => none

namespace Forwarder

/-- An event is sent if the channel accepts it. -/
@[simp] theorem filterMap_sent?_sending (channel : Option Channel) (e : HidEvent) :
    (sending channel e).filterMap Effect.sent? =
      if channel = some .accepting then [e] else [] := by
  rcases channel with _ | _ | _ <;> rfl

/-- An event is refused if the channel is closed. -/
@[simp] theorem filterMap_refused?_sending (channel : Option Channel) (e : HidEvent) :
    (sending channel e).filterMap Effect.refused? =
      if channel = some .closed then [e] else [] := by
  rcases channel with _ | _ | _ <;> rfl

variable (f : Forwarder) (s : Step)

/-- The events of a button are passed on one by one, the move first. -/
private theorem effects_sendButton (b : Button) (pressed : Bool) :
    (f.sendButton b pressed).effects =
      (f.tracker.step (.sendButton b pressed)).effects.flatMap (sending f.channel) := by
  rw [Tracker.effects_sendButton, List.flatMap_append, List.flatMap_singleton]
  rfl

/-- A step puts what the tracker gives out on the channel, or there is nothing to put on it. -/
private theorem effects_step :
    (f.step s).effects = (f.tracker.step s).effects.flatMap (sending f.channel) ∨
      (f.tracker.step s).effects = [] ∧
        ∀ e ∈ (f.step s).effects, e.sent? = none ∧ e.refused? = none := by
  cases s with
  -- These steps only change what is shown.
  | setChannel | setDevice | hover =>
    exact .inr ⟨rfl, by simp [step, setChannel, setDevice, hover, shown, note]⟩
  | contextMenu | move => exact .inl rfl
  | tick =>
    rw [Tracker.effects_tick]
    exact .inl rfl
  | touch x y region =>
    rw [Tracker.effects_touch]
    exact .inl rfl
  | wheel dx dy =>
    rw [Tracker.effects_wheel]
    exact .inl rfl
  | sendButton b pressed => exact .inl (f.effects_sendButton b pressed)
  -- A button counts if its code has a name.
  | button code pressed =>
    cases hb : Button.ofCode? code with
    | none =>
      refine .inr ⟨?_, ?_⟩
      · rw [Tracker.step_button_of_none _ hb]
      · simp [step, button, hb, note]
    | some b =>
      refine .inl ?_
      rw [Tracker.step_button _ hb, ← f.effects_sendButton b pressed]
      simp only [step, button, hb, Turn.map]

/-- The tracker of a forwarder takes every step as it would alone. -/
theorem tracker_step : (f.step s).state.tracker = (f.tracker.step s).state := by
  cases s with
  | button code pressed =>
    cases hb : Button.ofCode? code with
    | none =>
      rw [Tracker.step_button_of_none _ hb]
      simp only [step, button, hb]
    | some b =>
      rw [Tracker.step_button _ hb]
      simp only [step, button, hb]
      rfl
  | _ => rfl

/-- Only the steps that set the channel change it. -/
theorem channel_step : (f.step s).state.channel = s.channel?.getD f.channel := by
  cases s with
  | button code pressed =>
    simp only [step, button]
    cases Button.ofCode? code <;> rfl
  | _ => rfl

/-- An accepting channel takes everything that a step gives out, in order. -/
theorem sent_step :
    (f.step s).effects.filterMap Effect.sent? =
      if f.channel = some .accepting then (f.tracker.step s).effects else [] := by
  rcases f.effects_step s with h | ⟨hnone, h⟩
  · rw [h, List.filterMap_flatMap]
    simp only [filterMap_sent?_sending]
    split <;> simp
  · rw [hnone, ite_self, List.filterMap_eq_nil_iff]
    exact fun e he => (h e he).1

/-- A closed channel refuses everything that a step gives out, in order. -/
theorem refused_step :
    (f.step s).effects.filterMap Effect.refused? =
      if f.channel = some .closed then (f.tracker.step s).effects else [] := by
  rcases f.effects_step s with h | ⟨hnone, h⟩
  · rw [h, List.filterMap_flatMap]
    simp only [filterMap_refused?_sending]
    split <;> simp
  · rw [hnone, ite_self, List.filterMap_eq_nil_iff]
    exact fun e he => (h e he).2

end Forwarder

/-! ## Histories -/

abbrev Moment : Type := Turn.Moment Forwarder Step Effect Response

namespace Moment

variable (m : Moment)

/-- The events that the tracker gave out, in order. -/
def generated : List HidEvent := (m.before.tracker.step m.input).effects

/-- The events that the channel took, in order. -/
def sent : List HidEvent := m.turn.effects.filterMap Effect.sent?

/-- The events that the channel refused, in order. -/
def refused : List HidEvent := m.turn.effects.filterMap Effect.refused?

end Moment

/-- The events that a channel took in a history, in order. -/
def sentIn (h : List Moment) : List HidEvent := h.flatMap Moment.sent

/-- The channel that was set last in a history. Before any was set, there is none. -/
def channelIn (h : List Moment) : Option Channel :=
  (h.filterMap (·.input.channel?)).getLast?.getD none

namespace Forwarder

/-- The forwarder after the steps of a session. -/
def after (touchCapture : Bool) (steps : List Step) : Forwarder :=
  Turn.final step { touchCapture } steps

/-- The moments of a session. -/
def history (touchCapture : Bool) (steps : List Step) : List Moment :=
  Turn.history step { touchCapture } steps

variable (touchCapture : Bool)

/-- The turns of the history are those of the session. -/
theorem map_turn_history (steps : List Step) :
    (history touchCapture steps).map (·.turn) = session touchCapture steps :=
  Turn.map_turn_history step { touchCapture } steps

/-- A session goes on from where its beginning has led. -/
theorem session_append (first second : List Step) :
    session touchCapture (first ++ second) =
      session touchCapture first ++ Turn.run step (after touchCapture first) second :=
  Turn.run_append step { touchCapture } first second

/-- The last step is made where the steps before it have led. -/
theorem after_concat (steps : List Step) (s : Step) :
    after touchCapture (steps ++ [s]) = ((after touchCapture steps).step s).state :=
  Turn.final_concat step { touchCapture } steps s

/-- One more step adds one moment at the end. -/
theorem history_concat (steps : List Step) (s : Step) :
    history touchCapture (steps ++ [s]) =
      history touchCapture steps ++
        [⟨after touchCapture steps, s, (after touchCapture steps).step s⟩] :=
  Turn.history_concat step { touchCapture } steps s

/-- The channel of a forwarder is the one that was set last. -/
private theorem after_channel (steps : List Step) :
    (after touchCapture steps).channel = channelIn (history touchCapture steps) :=
  Turn.final_eq_getLast? step { touchCapture } (·.channel) Step.channel? channel_step steps

variable {touchCapture}

/-- A moment of a session finds the channel that was set last before it, and its turn is the step
    from there. -/
theorem step_of_history_eq {steps : List Step} {past since : List Moment} {m : Moment}
    (hcut : history touchCapture steps = past ++ m :: since) :
    m.before.channel = channelIn past ∧ m.turn = m.before.step m.input := by
  obtain ⟨hpast, hbefore, hturn, -⟩ := Turn.history_eq_append_cons step { touchCapture } hcut
  refine ⟨?_, hturn⟩
  have hpast : past = history touchCapture (past.map (·.input)) := hpast
  have hchannel := after_channel touchCapture (past.map (·.input))
  rw [← hpast] at hchannel
  rw [hbefore]
  exact hchannel

/-- An accepting channel takes all that the tracker gives out, a closed one refuses all of it. -/
theorem sent_and_refused_of_turn_eq {m : Moment} (h : m.turn = m.before.step m.input) :
    m.sent = (if m.before.channel = some .accepting then m.generated else []) ∧
      m.refused = if m.before.channel = some .closed then m.generated else [] := by
  rw [Moment.sent, Moment.refused, h]
  exact ⟨sent_step m.before m.input, refused_step m.before m.input⟩

/-- After a moment the tracker is where its step has led. -/
theorem tracker_of_turn_eq {m : Moment} (h : m.turn = m.before.step m.input) :
    m.turn.state.tracker = (m.before.tracker.step m.input).state := by
  rw [h, tracker_step]

/-- What is given out while the channel accepts events is sent. -/
theorem sent_of_accepting {touchCapture : Bool} {steps : List Step} {past since : List Moment}
    {m : Moment} (hcut : history touchCapture steps = past ++ m :: since)
    (hopen : channelIn past = some .accepting) : m.sent = m.generated := by
  obtain ⟨hchannel, hturn⟩ := step_of_history_eq hcut
  rw [(sent_and_refused_of_turn_eq hturn).1, hchannel, if_pos hopen]

end Forwarder

end KvmConsole.Pointer
