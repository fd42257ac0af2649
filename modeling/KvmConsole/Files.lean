/-!
# Files

What the console sees of the file system: what is at a path, and why reading it may fail.
-/

namespace KvmConsole

/-- What is at a path. -/
inductive Entry where
  | file (bytes : ByteArray)
  /-- A directory has a size of its own, which says nothing about what is in it. -/
  | directory (size : UInt64)
  /-- A file that may not be read. Its size is known all the same. -/
  | locked (size : UInt64)

def Entry.size : Entry → UInt64
  | file bytes => UInt64.ofNat bytes.size
  | directory size => size
  | locked size => size

/-- The file system: what is at each path, if anything. -/
abbrev Files := String → Option Entry

/-- Why a file could not be read. -/
inductive ReadFailure where
  | missing
  | denied
  | directory
  | notUtf8
  deriving DecidableEq, Repr

def ReadFailure.message : ReadFailure → String
  | missing => "No such file or directory (os error 2)"
  | denied => "Permission denied (os error 13)"
  | directory => "Is a directory (os error 21)"
  | notUtf8 => "stream did not contain valid UTF-8"

namespace Files

/-- The bytes of a file. -/
def read (files : Files) (path : String) : Except ReadFailure ByteArray :=
  match files path with
  | none => .error .missing
  | some (.directory _) => .error .directory
  | some (.locked _) => .error .denied
  | some (.file bytes) => .ok bytes

/-- The text of a file. -/
def readText (files : Files) (path : String) : Except ReadFailure String := do
  match String.fromUTF8? (← files.read path) with
  | some text => return text
  | none => .error .notUtf8

end Files

/-- The last part of a path, if it is a name: empty parts and single points at its end do not count,
    and two points are no name. -/
def fileName? (path : String) : Option String :=
  let parts := (path.splitOn "/").filter (· ≠ "")
  match (parts.reverse.dropWhile (· = ".")).head? with
  | some name => if name = ".." then none else some name
  | none => none

end KvmConsole
