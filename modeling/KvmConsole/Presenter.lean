import KvmConsole.Log.Record
import KvmConsole.Msd.View
import KvmConsole.Pointer.Forwarder

/-!
# Presenting the panels in a log

The presenter turns views into log records. Panels are rendered after every input, and most inputs
change nothing visible; so it keeps the last view of each panel and reports a view only if it is
another one.
-/

namespace KvmConsole

structure Presenter where
  /-- The last view of the mass storage panel. -/
  msd : Option Msd.View := none
  /-- The last view of the pointer panel. -/
  pointer : Option Pointer.View := none
  deriving DecidableEq, Repr

namespace Presenter

def note (level : Log.Level) (message : String) (fields : List (String × Log.Value)) : Log.Record :=
  ⟨level, "kvmd_web_console::infrastructure::presenter", message, fields⟩

/-- The records of a view of the mass storage panel: the panel, its two banners and the picked file,
    each of the last three if there is one. -/
def msdRecords (v : Msd.View) : List Log.Record :=
  [note .info "msd"
    [("mode", .plain v.mode.name), ("led", .quoted v.led.className),
      ("status", .plain v.statusText), ("image", .plain v.imageName),
      ("image_size", .plain v.imageSize), ("storage", .plain v.storageSize),
      ("progress", .plain v.progress.label)]] ++
  (if v.otherUserUploading then [note .info "msd: someone else is uploading an image" []]
    else []) ++
  (if v.imageBroken then [note .info "msd: the current image is broken" []] else []) ++
  v.pendingFile.toList.map fun file =>
    note .info "msd: image selected" [("name", .plain file.name), ("size", .plain file.size)]

/-- The record of a view of the pointer panel. -/
def pointerRecords (v : Pointer.View) : List Log.Record :=
  [note .info v.indicator.title
    [("capture", .flag v.captureActive), ("led", .quoted v.indicator.led.className)]]

def renderMsd (p : Presenter) (v : Msd.View) : Presenter × List Log.Record :=
  if p.msd = some v then (p, []) else ({ p with msd := some v }, msdRecords v)

def renderPointer (p : Presenter) (v : Pointer.View) : Presenter × List Log.Record :=
  if p.pointer = some v then (p, []) else ({ p with pointer := some v }, pointerRecords v)

/-- Notifications are reported every time. -/
def notify (message : String) : List Log.Record := [note .error message []]

end Presenter

end KvmConsole
