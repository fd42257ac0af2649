import KvmConsole.Console.Link
import KvmConsole.Wire.HidEvent

/-!
# Operations of the console

Four things the console does from beginning to end: it asks for the status of the device, has it
carry out a command, uploads an image, or follows the control channel. A command and an upload ask
for the status first, and go on only if it enables their button. Then they take in the reports of
the network until one of them is their end. Between two operations the panel has no upload and no
command of its own. An upload that the user has interrupted leaves its file selected, and what is
reported about it afterwards stays in the queue until a later operation comes across it.
-/

namespace KvmConsole.Console

/-- What an operation comes to: the console after it, what it did, and what came of its requests. -/
abbrev Operation (α : Type) := Turn Console Effect (Daemon.Exchange (Except Fault α))

namespace Operation

variable {α β : Type}

/-- An operation that ends at once, with no request. -/
def ending (c : Console) (network : Daemon.Network) (result : Except Fault α) : Operation α :=
  .idle c ⟨result, [], network⟩

/-- Goes on with the value of an operation, or ends with its fault. -/
def bind (operation : Operation α) (next : Console → Daemon.Network → α → Operation β) :
    Operation β :=
  let exchange := operation.result
  match exchange.result with
  | .error fault => operation.map fun _ => ⟨.error fault, exchange.requests, exchange.network⟩
  | .ok value =>
    operation.andThen fun c =>
      (next c exchange.network value).map fun e =>
        { e with requests := exchange.requests ++ e.requests }

end Operation

/-! ## The status -/

/-- Asks for the status and shows it. -/
def refresh (c : Console) (network : Daemon.Network) : Operation Msd.Status :=
  let exchange := c.client.status network
  match exchange.result with
  | .error reason => .idle c (exchange.map fun _ => .error (.daemon reason))
  | .ok status =>
    (c.onPanel (·.setStatus (some status))).map fun _ => exchange.map fun _ => .ok status

/-! ## Commands -/

/-- Whether the button of a command is disabled. -/
def isDisabled (d : Msd.Disabled) : Msd.Command → Bool
  | .connect .kvm => d.switchToKvm
  | .connect .server => d.switchToServer
  | .reset => d.reset

/-- Issues a command to the panel. -/
def issue (c : Console) : Msd.Command → Turn Console Effect Unit
  | .connect target => c.onPanel (·.switchTo target)
  | .reset => c.onPanel (·.reset)

/-- What the report of an end means to the one who waits for it. -/
def verdict (action : Action) (ok : Bool) (status : UInt16) (body : String) : Except Fault Unit :=
  if ok then .ok () else .error (.rejected action status body)

/-- Takes in the reports of a queue until one of them is the end of a command. -/
def awaitCommand (c : Console) (command : Msd.Command) :
    List Msd.Event → Turn Console Effect (Except Fault Unit)
  | [] => .idle { c with reports := [] } (.error .disconnected)
  | event :: rest =>
    let turn := { c with reports := rest }.onPanel (·.handle event)
    match event, turn.result with
    | .commandFinished _ status body, .commandFinished done ok =>
      if done = command then turn.map fun _ => verdict (.command command) ok status body
      else turn.andThen (·.awaitCommand command rest)
    | _, _ => turn.andThen (·.awaitCommand command rest)

/-- Sends a command and waits for its end. -/
def command (c : Console) (command : Msd.Command) (network : Daemon.Network) : Operation Unit :=
  Operation.bind (c.refresh network) fun c network _ =>
    if isDisabled c.panel.view.disabled command then
      .ending c network (.error (.disabled (.command command)))
    else
      let exchange := c.client.command command network
      ((c.issue command).andThen fun c =>
          c.awaitCommand command (c.reports ++ exchange.result)).map fun result =>
        exchange.map fun _ => result

/-! ## Uploads -/

/-- Takes in the reports of a queue until one of them is the end of the upload in flight. If none
    is, the user has to interrupt the upload. -/
def awaitUpload (c : Console) : List Msd.Event → Turn Console Effect (Except Fault Unit)
  | [] =>
    (({ c with reports := [] }.onPanel (·.abortUpload)).after
        [note .warn "interrupted; aborting upload" []]).map
      fun _ => .error .aborted
  | event :: rest =>
    let turn := { c with reports := rest }.onPanel (·.handle event)
    match event, turn.result with
    | .uploadFinished _ status body, .uploadFinished ok =>
      turn.map fun _ => verdict .upload ok status body
    | _, _ => turn.andThen (·.awaitUpload rest)

/-- Uploads a file and waits for the end. `limits` says how the reads of the file come up short. -/
def upload (c : Console) (file : Msd.ImageFile) (files : Files) (limits : List Nat)
    (network : Daemon.Network) : Operation Unit :=
  Operation.bind (c.refresh network) fun c network _ =>
    if c.panel.view.disabled.selectNewImage then .ending c network (.error (.disabled .upload))
    else
      let selection := c.onPanel (·.select file)
      match selection.result with
      | .error refusal => selection.map fun _ => ⟨.error (.msd refusal), [], network⟩
      | .ok () =>
        selection.andThen fun c =>
          let start := c.onPanel (·.startUpload)
          match start.result with
          | .error refusal => start.map fun _ => ⟨.error (.msd refusal), [], network⟩
          | .ok id =>
            let exchange := c.client.upload id file files limits network
            (start.andThen fun c => c.awaitUpload (c.reports ++ exchange.result)).map fun result =>
              exchange.map fun _ => result

/-! ## Following the control channel -/

/-- The frames before the channel is closed or lost. -/
def beforeEnd (frames : List Daemon.Frame) : List Daemon.Frame := frames.takeWhile (!·.isEnd)

/-- The events in frames. Frames without an event are passed over. -/
def understood (frames : List Daemon.Frame) : List Wire.DaemonEvent :=
  (beforeEnd frames).filterMap frameEvent?

/-- The texts that the console has sent on the channel. -/
def sentTexts (effects : List Effect) : List String :=
  effects.filterMap fun
    | .pointer (.sent event) => some event.text
    | _ => none

/-- The texts that the daemon has taken: one for each frame in which it waits for one. -/
def takenTexts (frames : List Daemon.Frame) (effects : List Effect) : List String :=
  (sentTexts effects).take ((beforeEnd frames).count .receive)

/-- Follows an open channel over some inputs and leaves it. Afterwards nothing is known of the
    device. -/
def attend (c : Console) (inputs : List Input) (farewell : String) : Turn Console Effect Unit :=
  (((c.onPointer (·.setChannel (some .accepting))).andThen (·.follow inputs)).andThen fun c =>
    ((c.onPointer (·.setChannel none)).andThen fun c => c.onPanel (·.setStatus none)).after
      [note .info farewell []])

/-- Follows the control channel until it is closed, or no longer than to the first tick if the
    console has been told to stop. That tick comes at once. Reports that wait in the queue are about
    uploads that are over; they are left there. -/
def watch (c : Console) (running : Bool) (network : Daemon.Network) : Operation Unit :=
  let exchange := c.client.openChannel network
  match exchange.result with
  | .error reason => .idle c (exchange.map fun _ => .error (.daemon reason))
  | .ok frames =>
    let turn :=
      if running then c.attend (.tick :: (understood frames).map .daemon) "control channel closed"
      else c.attend [] "shutdown flag set; leaving watch loop"
    let taken := takenTexts frames turn.effects
    turn.map fun _ =>
      ⟨.ok (), exchange.requests.map fun r => { r with payload := .channel taken },
        exchange.network⟩

end KvmConsole.Console
