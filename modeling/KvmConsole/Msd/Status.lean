/-!
# Mass storage status

The snapshot of the mass storage device that the daemon reports, and the image file that the user
has picked on this side.
-/

namespace KvmConsole.Msd

/-- The machine that the device is attached to. -/
inductive Target where
  /-- The controlled computer. -/
  | kvm
  /-- The daemon's own host, where images are managed. -/
  | server
  deriving DecidableEq, Repr

namespace Target

def name : Target → String
  | kvm => "kvm"
  | server => "server"

def ofName? (name : String) : Option Target :=
  if name = "kvm" then some kvm else if name = "server" then some server else none

/-- What is said of a name that is no target's. -/
def unknownMessage (name : String) : String :=
  "unknown MSD target '" ++ name ++ "' (expected 'kvm' or 'server')"

/-- The name of the constructor, as a log shows it. -/
def constructorText : Target → String
  | kvm => "Kvm"
  | server => "Server"

end Target

/-- The image on the device. -/
structure Image where
  name : String
  size : UInt64
  /-- False if writing it was interrupted. -/
  complete : Bool
  deriving DecidableEq, Repr

/-- The storage of the device, in bytes, and the image on it. -/
structure Storage where
  size : UInt64
  image : Option Image
  deriving DecidableEq, Repr

/-- A snapshot of the device. -/
structure Status where
  connectedTo : Target
  /-- An image is being written, by whichever client. -/
  busy : Bool
  /-- The device works; otherwise nothing can be done with it. -/
  inOperate : Bool
  info : Storage
  deriving DecidableEq, Repr

/-- The image, if the device works. The report of a device out of operation says nothing about
    it. -/
def Status.operationalImage (s : Status) : Option Image :=
  if s.inOperate then s.info.image else none

/-- An image file that the user has picked for upload. -/
structure ImageFile where
  /-- The name that the image gets on the device. -/
  name : String
  size : UInt64
  /-- Where its bytes are read from. -/
  path : String
  deriving DecidableEq, Repr

/-- A request of the user to the device. -/
inductive Command where
  | connect (target : Target)
  | reset
  deriving DecidableEq, Repr

/-- A command as a log shows it. -/
def Command.constructorText : Command → String
  | connect target => "Connect(" ++ target.constructorText ++ ")"
  | reset => "Reset"

end KvmConsole.Msd
