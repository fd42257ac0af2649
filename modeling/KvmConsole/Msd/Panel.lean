import KvmConsole.Log.Record
import KvmConsole.Msd.View
import KvmConsole.Turn

/-!
# The mass storage panel

The panel keeps the last status together with what this client is doing: the picked file, the upload
in flight, the command that waits for its answer, and the progress. After every change it is
rendered as a whole.

Network operations are only started here. What becomes of them comes back as an `Event`. An upload
is known by its number, and the panel forgets the number before it cancels the upload, so that
whatever was reported about it on the way is recognised as stale.
-/

namespace KvmConsole.Msd

/-- The number of an upload. A panel counts its uploads from 1. -/
structure UploadId where
  number : Nat
  deriving DecidableEq, Repr

/-- What the network reports about an operation. -/
inductive Event where
  /-- That many bytes of the upload have been handed over; the total may be unknown. -/
  | uploadProgress (id : UploadId) (loaded : UInt64) (total : Option UInt64)
  /-- The upload ended, with an HTTP status and the body, or with status 0 and the reason. -/
  | uploadFinished (id : UploadId) (status : UInt16) (body : String)
  | commandFinished (command : Command) (status : UInt16) (body : String)
  deriving DecidableEq, Repr

/-- What the panel did with an event. -/
inductive Outcome where
  /-- The event belongs to an upload that is not in flight. -/
  | ignored
  | progress
  | uploadFinished (ok : Bool)
  | commandFinished (command : Command) (ok : Bool)
  deriving DecidableEq, Repr

/-- Why the panel refused a request. -/
inductive Refusal where
  | unavailable
  | imageTooBig (size max : UInt64)
  | noImageSelected
  | uploadInProgress
  deriving DecidableEq, Repr

def Refusal.message : Refusal → String
  | unavailable => "mass storage device status is unavailable"
  | imageTooBig size max =>
    "image of " ++ toString size.toNat ++ " bytes does not fit in " ++ toString max.toNat ++
      " bytes of storage"
  | noImageSelected => "no image file selected"
  | uploadInProgress => "an upload is already in progress"

/-- What the panel does. -/
inductive Effect where
  | render (view : View)
  /-- Shows an error to the user. -/
  | notify (message : String)
  | startUpload (id : UploadId) (file : ImageFile)
  | cancelUpload (id : UploadId)
  | sendCommand (command : Command)
  | log (record : Log.Record)
  deriving DecidableEq, Repr

structure Panel where
  status : Option Status := none
  selected : Option ImageFile := none
  /-- The upload in flight. -/
  upload : Option UploadId := none
  pending : Option Command := none
  progress : Progress := .waiting
  /-- The number of uploads started so far. -/
  started : Nat := 0
  deriving DecidableEq, Repr

namespace Panel

/-- The answer of the daemon to a request that it has carried out. -/
def httpOk : UInt16 := 200

/-- What the view needs to know besides the status. -/
def loc (p : Panel) : Local := ⟨p.selected, p.upload.isSome, p.pending, p.progress⟩

/-- The panel as it would be rendered now. -/
def view (p : Panel) : View := render p.status p.loc

/-- A record of the panel's own work. -/
def note (level : Log.Level) (message : String) (fields : List (String × Log.Value)) : Effect :=
  .log ⟨level, "kvmd_web_console::application::msd_controller", message, fields⟩

/-- Renders the panel as it is. -/
def rendering (p : Panel) : List Effect :=
  [note .debug "rendering MSD panel" [("mode", .plain p.view.mode.name)], .render p.view]

/-- Goes over to `p` and shows it, after some other effects. -/
def shown {α : Type} (p : Panel) (first : List Effect) (result : α) : Turn Panel Effect α :=
  ⟨p, first ++ p.rendering, result⟩

/-- Takes over a status, or forgets the last one. -/
def setStatus (p : Panel) (status : Option Status) : Turn Panel Effect Unit :=
  { p with status }.shown [] ()

def tooBigMessage (max : UInt64) : String :=
  "New image is too big for your Mass Storage Device. Maximum: " ++ sizeText max

/-- Takes a file as the next image. One that does not fit is refused, and then none is selected. -/
def select (p : Panel) (file : ImageFile) : Turn Panel Effect (Except Refusal Unit) :=
  match p.status with
  | none =>
    ⟨p, [note .warn "image selected before MSD status is known" [("name", .plain file.name)]],
      .error .unavailable⟩
  | some status =>
    let max := status.info.size
    if max < file.size then
      { p with selected := none }.shown [.notify (tooBigMessage max)]
        (.error (.imageTooBig file.size max))
    else
      { p with selected := some file }.shown
        [note .info "new image selected"
          [("name", .plain file.name), ("size", .natural file.size.toNat)]]
        (.ok ())

/-- Uploads the selected file, unless an upload is in flight. -/
def startUpload (p : Panel) : Turn Panel Effect (Except Refusal UploadId) :=
  if p.upload.isSome then .idle p (.error .uploadInProgress)
  else
    match p.selected with
    | none => .idle p (.error .noImageSelected)
    | some file =>
      let id : UploadId := ⟨p.started + 1⟩
      { p with upload := some id, progress := .waiting, started := p.started + 1 }.shown
        [note .info "starting image upload"
            [("id", .natural id.number), ("name", .plain file.name),
              ("size", .natural file.size.toNat)],
          .startUpload id file]
        (.ok id)

/-- Cancels the upload in flight. That it was aborted is shown once. -/
def abortUpload (p : Panel) : Turn Panel Effect Unit :=
  match p.upload with
  | none => ⟨p, [note .debug "abort requested with no upload in flight" []], ()⟩
  | some id =>
    let aborted := { p with upload := none, progress := .aborted }
    ⟨{ aborted with progress := .waiting },
      [note .info "aborting image upload" [("id", .natural id.number)], .cancelUpload id] ++
        aborted.rendering,
      ()⟩

/-- Sends a command. Its button is disabled until it is answered or another command is sent. -/
def issue (p : Panel) (command : Command) : Turn Panel Effect Unit :=
  let issued := { p with pending := some command }
  ⟨issued,
    note .info "sending MSD command" [("command", .plain command.constructorText)] ::
      issued.rendering ++ [.sendCommand command],
    ()⟩

/-- Attaches the device to a machine. -/
def switchTo (p : Panel) (target : Target) : Turn Panel Effect Unit := p.issue (.connect target)

def reset (p : Panel) : Turn Panel Effect Unit := p.issue .reset

/-- What the user is told about a command that failed. -/
def commandFailedMessage (command : Command) (body : String) : String :=
  match command with
  | .connect target => "Can't switch the Mass Storage Device to " ++ target.name ++ ": " ++ body
  | .reset => "Mass Storage Device reset failed: " ++ body

def uploadFailedMessage (body : String) : String :=
  "Can't upload image to the Mass Storage Device: " ++ body

/-- Takes in what the network reports. Reports about any upload but the one in flight are
    ignored. -/
def handle (p : Panel) : Event → Turn Panel Effect Outcome
  | .uploadProgress id loaded total =>
    if p.upload ≠ some id then
      ⟨p, [note .debug "dropping progress of a detached upload" [("id", .natural id.number)]],
        .ignored⟩
    else
      match Progress.ofBytes loaded total with
      | none => .idle p .progress
      | some progress => { p with progress }.shown [] .progress
  | .uploadFinished id status body =>
    if p.upload ≠ some id then
      ⟨p, [note .debug "dropping completion of a detached upload" [("id", .natural id.number)]],
        .ignored⟩
    else
      let ok : Bool := status = httpOk
      { p with selected := none, upload := none, progress := .waiting }.shown
        [if ok then note .info "image upload finished" [("id", .natural id.number)]
          else .notify (uploadFailedMessage body)]
        (.uploadFinished ok)
  | .commandFinished command status body =>
    let ok : Bool := status = httpOk
    { p with pending := if p.pending = some command then none else p.pending }.shown
      (if ok then [] else [.notify (commandFailedMessage command body)])
      (.commandFinished command ok)

end Panel

/-! ## Sessions -/

/-- Anything that can happen to a panel. -/
inductive Step where
  | setStatus (status : Option Status)
  | select (file : ImageFile)
  | startUpload
  | abortUpload
  | switchTo (target : Target)
  | reset
  | event (event : Event)
  deriving DecidableEq, Repr

/-- What a step answers. -/
inductive Reply where
  | done
  | selected
  | started (id : UploadId)
  | refused (reason : Refusal)
  | handled (outcome : Outcome)
  deriving DecidableEq, Repr

def Reply.ofExcept {α : Type} (ok : α → Reply) : Except Refusal α → Reply
  | .ok a => ok a
  | .error e => refused e

namespace Panel

def step (p : Panel) : Step → Turn Panel Effect Reply
  | .setStatus status => (p.setStatus status).map fun _ => .done
  | .select file => (p.select file).map (.ofExcept fun _ => .selected)
  | .startUpload => p.startUpload.map (.ofExcept .started)
  | .abortUpload => p.abortUpload.map fun _ => .done
  | .switchTo target => (p.switchTo target).map fun _ => .done
  | .reset => p.reset.map fun _ => .done
  | .event event => (p.handle event).map .handled

/-- The turns of a session that begins with a fresh panel. -/
def session (steps : List Step) : List (Turn Panel Effect Reply) := Turn.run step {} steps

end Panel

end KvmConsole.Msd
