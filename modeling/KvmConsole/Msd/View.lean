import KvmConsole.Led
import KvmConsole.Msd.Progress
import KvmConsole.Msd.Size
import KvmConsole.Msd.Status

/-!
# The mass storage panel as shown

`render` is a function of the last status and of what this client is doing itself. It gives every
label, light, banner and button of the panel; the panel's mode is derived anew each time and never
stored.
-/

namespace KvmConsole.Msd

/-- What the panel needs to know besides the status. -/
structure Local where
  /-- The image file that the user has picked. -/
  selected : Option ImageFile
  /-- This client is uploading. -/
  uploading : Bool
  /-- A command of this client that has not been answered. -/
  pending : Option Command
  progress : Progress
  deriving DecidableEq, Repr

/-- What the panel as a whole is busy with. -/
inductive Mode where
  /-- Nothing is known about the device. -/
  | noState
  | idle
  /-- An image is being written, by whichever client. -/
  | uploading
  /-- A command waits for its answer. -/
  | switching
  deriving DecidableEq, Repr

def Mode.name : Mode → String
  | noState => "NoState"
  | idle => "Idle"
  | uploading => "Uploading"
  | switching => "Switching"

/-- An upload outranks a pending command. -/
def Mode.derive (status : Option Status) (loc : Local) : Mode :=
  match status with
  | none => .noState
  | some s =>
    if s.busy || loc.uploading then .uploading
    else if loc.pending.isSome then .switching
    else .idle

/-- The buttons that cannot be pressed. -/
structure Disabled where
  switchToKvm : Bool
  switchToServer : Bool
  selectNewImage : Bool
  upload : Bool
  abortUpload : Bool
  reset : Bool
  deriving DecidableEq, Repr

namespace Disabled

def everything : Disabled := ⟨true, true, true, true, true, true⟩

/-- No button can be pressed. -/
def all (d : Disabled) : Bool := d = everything

end Disabled

/-- The picked file as shown. -/
structure PendingFile where
  name : String
  size : String
  deriving DecidableEq, Repr

structure ProgressBar where
  label : String
  percent : Nat
  deriving DecidableEq, Repr

def ProgressBar.waiting : ProgressBar := ⟨"Waiting for upload...", 0⟩

/-- Everything that the panel shows. -/
structure View where
  mode : Mode
  led : Led
  ledTitle : String
  statusText : String
  /-- Another client is uploading. -/
  otherUserUploading : Bool
  /-- The current image is incomplete. -/
  imageBroken : Bool
  imageName : String
  imageSize : String
  storageSize : String
  disabled : Disabled
  pendingFile : Option PendingFile
  progress : ProgressBar
  deriving DecidableEq, Repr

/-- The panel when nothing is known about the device. -/
def View.blank : View where
  mode := .noState
  led := .gray
  ledTitle := ""
  statusText := ""
  otherUserUploading := false
  imageBroken := false
  imageName := ""
  imageSize := ""
  storageSize := ""
  disabled := .everything
  pendingFile := none
  progress := .waiting

/-- Shown for an image that is not there. -/
def noneLabel : String := "None"

/-- Shown for a device out of operation. -/
def unavailableLabel : String := "Unavailable"

/-- The light, its title and the status line. -/
def Status.headline (s : Status) : Led × String × String :=
  match s.connectedTo with
  | .server => (.green, "MSD connected to Server", "Connected to Server")
  | .kvm =>
    if s.busy then (.fastBlink, "Uploading new image", "Uploading new image")
    else if s.inOperate then (.gray, "MSD connected to KVM", "Connected to KVM")
    else (.gray, "MSD unavailable", unavailableLabel)

/-- The buttons that a status and this client's own work rule out. -/
def Disabled.derive (s : Status) (loc : Local) : Disabled :=
  let off := !s.inOperate
  let onKvm : Bool := s.connectedTo = .kvm
  { switchToKvm := off || onKvm || s.busy || loc.pending = some (.connect .kvm)
    switchToServer := off || !onKvm || s.busy || loc.pending = some (.connect .server)
    selectNewImage := off || !onKvm || s.busy || loc.uploading
    upload := off || !onKvm || s.busy || loc.selected.isNone || loc.uploading
    abortUpload := off || !loc.uploading
    reset := off || loc.uploading || loc.pending = some .reset }

/-- The progress bar. Percentages are shown while this client uploads. -/
def Local.progressBar (loc : Local) : ProgressBar :=
  match loc.progress with
  | .active percent => if loc.uploading then ⟨toString percent ++ "%", percent⟩ else .waiting
  | .aborted => ⟨"Aborted", 0⟩
  | .waiting => .waiting

/-- The panel for a known status. -/
def Status.render (s : Status) (loc : Local) : View :=
  let (led, ledTitle, statusText) := s.headline
  let image := s.operationalImage
  { mode := .derive (some s) loc
    led, ledTitle, statusText
    otherUserUploading := s.connectedTo = .kvm && s.busy && !loc.uploading
    imageBroken := image.any (!·.complete) && !s.busy
    imageName := (image.map (·.name)).getD noneLabel
    imageSize := (image.map fun i => sizeText i.size).getD noneLabel
    storageSize := if s.inOperate then sizeText s.info.size else unavailableLabel
    disabled := .derive s loc
    pendingFile := loc.selected.map fun file => ⟨file.name, sizeText file.size⟩
    progress := loc.progressBar }

/-- The panel as shown. -/
def render (status : Option Status) (loc : Local) : View :=
  match status with
  | none => .blank
  | some s => s.render loc

end KvmConsole.Msd
