import KvmConsole.Daemon.Failure
import KvmConsole.Msd.Status

/-!
# Picking an image

The image file at a path, under the name that the device is to know it by.
-/

namespace KvmConsole.Msd

/-- The image at a path, under a given name or else that of the file. A path that names no file
    stands for itself. -/
def ImageFile.ofPath (files : Files) (path : String) (name : Option String) :
    Except Daemon.Failure ImageFile :=
  match files path with
  | none => .error (.unreadable path .missing)
  | some entry => .ok ⟨name.getD ((fileName? path).getD path), entry.size, path⟩

end KvmConsole.Msd
