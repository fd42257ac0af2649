import KvmConsole.Led

/-!
# The mouse light

Its colour and title follow from three facts: whether there is a control channel, whether the remote
device works, and whether the pointer is captured.
-/

namespace KvmConsole.Pointer

structure Indicator where
  led : Led
  title : String
  deriving DecidableEq, Repr

/-- Without a channel the device's health does not matter. -/
def Indicator.derive (channel deviceOk captured : Bool) : Indicator :=
  match channel, deviceOk, captured with
  | false, _, false => ⟨.gray, "Mouse free"⟩
  | false, _, true => ⟨.gray, "Mouse free, offline"⟩
  | true, true, true => ⟨.green, "Mouse tracked"⟩
  | true, true, false => ⟨.gray, "Mouse free"⟩
  | true, false, true => ⟨.yellow, "Mouse tracked, HID offline"⟩
  | true, false, false => ⟨.yellow, "Mouse free, HID offline"⟩

end KvmConsole.Pointer
