import KvmConsole.Proofs.Console.Link
import KvmConsole.Proofs.Console.Views
import KvmConsole.Proofs.Wire.StatusRoundTrip

/-!
# What the panels are told

While the console follows the control channel, the mass storage panel is told the statuses that the
daemon has sent, and the pointer forwarder the states of the input device: all that can be read
before the channel ends, once each and in order, whatever else there is in between and whenever the
console finds the time. In the end both panels are told that there is nothing any more.

Key results:
* `status_understood`, `device_understood`: which events are understood in which texts.
* `of_isNoise`: everything else in the frames might as well not be there.
* `watch_applies_understood`: what the panels are told while the control channel is followed.
-/

namespace KvmConsole

/-- The health of the input device that a step takes note of. -/
@[simp] def Pointer.Step.device? : Pointer.Step → Option Bool
  | .setDevice ok => some ok
  | _ => none

@[simp] def Wire.DaemonEvent.status? : Wire.DaemonEvent → Option Msd.Status
  | .msdState status => some status
  | _ => none

@[simp] def Wire.DaemonEvent.device? : Wire.DaemonEvent → Option Bool
  | .hidState ok => some ok
  | _ => none

namespace Console

/-! ## What is in the frames -/

/-- The text in a frame. -/
def textOf? : Daemon.Frame → Option String
  | .text text => some text
  | _ => none

/-- The status in a text, if it can be read as an event with a status. -/
def statusIn? (text : String) : Option Msd.Status :=
  match Wire.DaemonEvent.ofText text with
  | .ok (.msdState status) => some status
  | _ => none

/-- The health of the input device in a text, if it can be read as an event that tells it. -/
def deviceIn? (text : String) : Option Bool :=
  match Wire.DaemonEvent.ofText text with
  | .ok (.hidState ok) => some ok
  | _ => none

/-- The texts in frames, up to the end of the channel. -/
def textsIn (frames : List Daemon.Frame) : List String := (beforeEnd frames).filterMap textOf?

/-- The statuses in frames, in order. -/
def statusesIn (frames : List Daemon.Frame) : List Msd.Status :=
  (textsIn frames).filterMap statusIn?

/-- What frames tell of the input device, in order. -/
def devicesIn (frames : List Daemon.Frame) : List Bool := (textsIn frames).filterMap deviceIn?

/-- The statuses among the understood events are those in the frames. -/
theorem status_understood (frames : List Daemon.Frame) :
    (understood frames).filterMap Wire.DaemonEvent.status? = statusesIn frames := by
  rw [understood, statusesIn, textsIn, List.filterMap_filterMap, List.filterMap_filterMap]
  congr 1
  funext frame
  cases frame with
  | text text =>
    simp only [frameEvent?, textOf?, Option.bind_some, statusIn?]
    rcases Wire.DaemonEvent.ofText text with _ | _ | _ | _ <;> rfl
  | _ => rfl

/-- The states of the device among the understood events are those in the frames. -/
theorem device_understood (frames : List Daemon.Frame) :
    (understood frames).filterMap Wire.DaemonEvent.device? = devicesIn frames := by
  rw [understood, devicesIn, textsIn, List.filterMap_filterMap, List.filterMap_filterMap]
  congr 1
  funext frame
  cases frame with
  | text text =>
    simp only [frameEvent?, textOf?, Option.bind_some, deviceIn?]
    rcases Wire.DaemonEvent.ofText text with _ | _ | _ | _ <;> rfl
  | _ => rfl

/-- A frame that does not end the channel and tells nothing of the device: one without a text, or
    with a text that cannot be read or that holds another event. -/
def IsNoise (frame : Daemon.Frame) : Prop :=
  frame.isEnd = false ∧ ∀ text, frame = .text text → statusIn? text = none ∧ deviceIn? text = none

/-- What is chosen from frames does not depend on those that are not chosen. -/
private theorem filterMap_beforeEnd_of_none {α : Type} {f : Daemon.Frame → Option α}
    {frame : Daemon.Frame} (hend : frame.isEnd = false) (hnone : f frame = none)
    (before after : List Daemon.Frame) :
    (beforeEnd (before ++ frame :: after)).filterMap f =
      (beforeEnd (before ++ after)).filterMap f := by
  induction before with
  | nil =>
    rw [List.nil_append, List.nil_append, beforeEnd, List.takeWhile_cons_of_pos (by simp [hend]),
      List.filterMap_cons_none hnone, beforeEnd]
  | cons first before ih =>
    simp only [beforeEnd, List.cons_append, List.takeWhile_cons] at ih ⊢
    -- The channel ends at the first frame already, or goes on.
    split
    · rw [List.filterMap_cons, List.filterMap_cons, ih]
    · rfl

/-- Noise may be left out. -/
theorem of_isNoise {frame : Daemon.Frame} (h : IsNoise frame) (before after : List Daemon.Frame) :
    statusesIn (before ++ frame :: after) = statusesIn (before ++ after) ∧
      devicesIn (before ++ frame :: after) = devicesIn (before ++ after) := by
  simp only [statusesIn, devicesIn, textsIn, List.filterMap_filterMap]
  have hnone : ∀ {α : Type} (f : String → Option α), (∀ text, frame = .text text → f text = none) →
      (textOf? frame).bind f = none := by
    intro α f hf
    cases frame with
    | text text => exact hf text rfl
    | _ => rfl
  exact ⟨filterMap_beforeEnd_of_none h.1 (hnone _ fun text ht => (h.2 text ht).1) before after,
    filterMap_beforeEnd_of_none h.1 (hnone _ fun text ht => (h.2 text ht).2) before after⟩

/-! ## What the panels are told -/

/-- The panel is told every status that was pushed. -/
private theorem status_panelSteps (inputs : List Input) :
    (panelSteps inputs).filterMap Msd.Step.status? =
      ((inputs.filterMap Input.pushed?).filterMap Wire.DaemonEvent.status?).map some := by
  rw [panelSteps, List.filterMap_filterMap, List.filterMap_filterMap, List.map_filterMap]
  congr 1
  funext input
  rcases input with (_ | _ | _) | _ | _ <;> rfl

/-- The pointer is told every state of the device that was pushed. -/
private theorem device_pointerSteps (inputs : List Input) :
    (pointerSteps inputs).filterMap Pointer.Step.device? =
      (inputs.filterMap Input.pushed?).filterMap Wire.DaemonEvent.device? := by
  rw [pointerSteps, List.filterMap_filterMap, List.filterMap_filterMap]
  congr 1
  funext input
  rcases input with (_ | _ | _) | _ | _ <;> rfl

/-- When the console leaves the channel it has shown, last of all, a panel without a state and one
    without a channel. -/
private theorem attend_leaves (c : Console) (inputs : List Input) (farewell : String) :
    (c.attend inputs farewell).state.panel.status = none ∧
    (panelViews (c.attend inputs farewell).effects).getLast? = some .blank ∧
    (pointerViews (c.attend inputs farewell).effects).getLast? =
      some (c.attend inputs farewell).state.forwarder.view ∧
    (c.attend inputs farewell).state.forwarder.view.captureActive = false := by
  have h := c.runs_attend inputs farewell
  have hpanel := h.panel
  have hforwarder := h.forwarder
  rw [Turn.final_concat] at hpanel
  rw [← List.cons_append, Turn.final_concat] at hforwarder
  -- The last step of each side is the one that takes leave of the channel.
  refine ⟨by rw [hpanel]; rfl, ?_, ?_, by rw [hforwarder]; rfl⟩
  · rw [panelViews, h.msd, Turn.runEffects_append, Turn.runEffects_singleton,
      List.filterMap_append]
    exact List.getLast?_concat
  · rw [pointerViews, h.pointer, ← List.cons_append, Turn.runEffects_append,
      Turn.runEffects_singleton, List.filterMap_append, hforwarder]
    exact List.getLast?_concat

/-- What the panels are told while the console follows the control channel, whatever frames come on
    it.

    * Let the reader and the console go on in any order until it is over, and let `inputs` be what
      the console has taken in. The mass storage panel has been told exactly the statuses in the
      frames, in order, and then that there is none. The forwarder has been told exactly the states
      of the input device in the frames, in order, between getting the channel and losing it.
      Nothing else has happened to either but the reports and ticks among the inputs.
    * Afterwards the status is not known. The last view of the mass storage panel is one without a
      state, in which every button is disabled, and the last view of the pointer panel takes no
      input.
    * A frame that is noise makes no difference, wherever it comes.
    * `watch` is a case of this, and it ends well. -/
theorem watch_applies_understood (c : Console) (frames : List Daemon.Frame) :
    (∀ choices, (Link.after frames choices).isOver → ∀ farewell,
      let inputs := Link.taken frames choices
      let turn := c.attend inputs farewell
      c.Runs turn (panelSteps inputs ++ [.setStatus none])
        (.setChannel (some .accepting) :: (pointerSteps inputs ++ [.setChannel none])) ∧
      (panelSteps inputs).filterMap Msd.Step.status? = (statusesIn frames).map some ∧
      (pointerSteps inputs).filterMap Pointer.Step.device? = devicesIn frames ∧
      turn.state.panel.status = none ∧
      (∃ v, (panelViews turn.effects).getLast? = some v ∧
        v.mode = .noState ∧ v.disabled = .everything) ∧
      ∃ v, (pointerViews turn.effects).getLast? = some v ∧ v.captureActive = false) ∧
    (∀ before noise after, frames = before ++ noise :: after → IsNoise noise →
      statusesIn frames = statusesIn (before ++ after) ∧
      devicesIn frames = devicesIn (before ++ after)) ∧
    ∀ network, (c.client.openChannel network).result = .ok frames →
      (c.watch true network).result.result = .ok () ∧
      ∃ choices, (Link.after frames choices).isOver ∧
        (c.watch true network).state =
          (c.attend (Link.taken frames choices) "control channel closed").state ∧
        (c.watch true network).effects =
          (c.attend (Link.taken frames choices) "control channel closed").effects := by
  refine ⟨?_, ?_, ?_⟩
  · intro choices hover farewell inputs turn
    have hpushed : inputs.filterMap Input.pushed? = understood frames := Link.pushed_taken hover
    obtain ⟨hstatus, hpanel, hpointer, hinactive⟩ := c.attend_leaves inputs farewell
    refine ⟨c.runs_attend inputs farewell, ?_, ?_, hstatus, ⟨_, hpanel, rfl, rfl⟩,
      ⟨_, hpointer, hinactive⟩⟩
    · rw [status_panelSteps, hpushed, status_understood]
    · rw [device_pointerSteps, hpushed, device_understood]
  · rintro before noise after rfl hnoise
    exact of_isNoise hnoise before after
  · intro network hopen
    have hpushed : (Input.tick :: (understood frames).map Input.daemon).filterMap Input.pushed? =
        understood frames := by
      rw [List.filterMap_cons_none rfl, List.filterMap_map]
      exact List.filterMap_some
    -- The order in which the model takes the inputs is one of the possible ones.
    obtain ⟨choices, hover, htaken⟩ := Link.exists_taken_iff.mpr hpushed
    rw [watch, hopen]
    refine ⟨rfl, choices, hover, ?_, ?_⟩
    · rw [htaken]
      rfl
    · rw [htaken]
      rfl

/-- An empty device of 4096 bytes. -/
def attachedDevice : Msd.Status := ⟨.server, false, true, ⟨4096, none⟩⟩

/-- The daemon tells of an empty device, sends a ping, and closes the channel. -/
def closedFrames : List Daemon.Frame :=
  [.text (Wire.DaemonEvent.msdText attachedDevice.text), .ping "", .close]

/-- A console with the default settings follows a channel that is soon closed. It takes the status
    before the reader has read the ping. -/
theorem watch_applies_understood_closed :
    ∃ c, ofSettings {} = .ok c ∧
      let inputs := Link.taken closedFrames [.read, .tick, .take, .read, .read]
      (panelSteps inputs).filterMap Msd.Step.status? = [some attachedDevice] ∧
      statusesIn (closedFrames.take 1 ++ closedFrames.drop 2) = [attachedDevice] ∧
      (c.attend inputs "control channel closed").state.panel.status = none ∧
      (c.watch true (.daemon [.channel closedFrames false])).result.result = .ok () := by
  have hopened : (ofSettings {}).map
      (fun c => (c.client.openChannel (.daemon [.channel closedFrames false])).result) =
        .ok (.ok closedFrames) := rfl
  have hevent : frameEvent? (.text (Wire.DaemonEvent.msdText attachedDevice.text)) =
      some (.msdState attachedDevice) := by
    rw [frameEvent?, attachedDevice.ofText_msdText]
    rfl
  have hping : frameEvent? (.ping "") = none := rfl
  -- The reader has come to the closing frame and the console has taken in what was read.
  have hover : (Link.after closedFrames [.read, .tick, .take, .read, .read]).isOver := by
    simp [Link.after, Turn.final, Link.step, Link.readFrame, Turn.idle, Link.isOver, closedFrames,
      Daemon.Frame.isEnd, hevent, hping]
  have hnoise : IsNoise (.ping "") := by
    refine ⟨rfl, fun text htext => ?_⟩
    cases htext
  have hstatuses : statusesIn closedFrames = [attachedDevice] := by
    rw [← status_understood, closedFrames, understood_cons, hevent]
    rfl
  -- The default settings make a console.
  cases hc : ofSettings {} with
  | error reason =>
    rw [hc] at hopened
    cases hopened
  | ok c =>
    rw [hc] at hopened
    obtain ⟨htaken, hdropped, hwatch⟩ := watch_applies_understood c closedFrames
    obtain ⟨-, htold, -, hleft, -⟩ := htaken _ hover "control channel closed"
    rw [hstatuses] at htold
    refine ⟨c, rfl, htold, ?_, hleft, (hwatch _ (Except.ok.inj hopened)).1⟩
    rw [← hstatuses]
    exact (hdropped [_] (.ping "") [.close] rfl hnoise).1.symm

end Console

end KvmConsole
