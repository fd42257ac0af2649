import KvmConsole.Daemon.Failure
import KvmConsole.Msd.Panel

/-!
# Faults of the console's operations

Why an operation did not come to its end, how it is put into words, and the chain of causes behind
it.
-/

namespace KvmConsole

/-- What the console can be asked to do with the device. -/
inductive Action where
  | upload
  | command (command : Msd.Command)
  deriving DecidableEq, Repr

/-- The name of an action whose button is disabled. -/
def Action.buttonName : Action → String
  | upload => "image upload"
  | command (.connect .kvm) => "switch to KVM"
  | command (.connect .server) => "switch to Server"
  | command .reset => "reset"

/-- The name of an action that the daemon has turned down. -/
def Action.requestName : Action → String
  | upload => "upload"
  | command c => buttonName (command c)

namespace Console

inductive Fault where
  | daemon (reason : Daemon.Failure)
  | msd (reason : Msd.Refusal)
  /-- The device does not allow the action at present. -/
  | disabled (action : Action)
  /-- The daemon has turned the action down. -/
  | rejected (action : Action) (status : UInt16) (body : String)
  | aborted
  | disconnected
  deriving DecidableEq, Repr

namespace Fault

def message : Fault → String
  | daemon reason => reason.message
  | msd reason => reason.message
  | disabled action => action.buttonName ++ " is not available in the current MSD state"
  | rejected action status body =>
    action.requestName ++ " failed with status " ++ toString status.toNat ++ ": " ++ body
  | aborted => "upload aborted"
  | disconnected => "transport stopped before reporting a result"

/-- What lies behind the message, from the outside in. -/
def causes : Fault → List String
  | daemon reason => reason.causes
  | msd _ | disabled _ | rejected _ _ _ | aborted | disconnected => []

end Fault

end Console

end KvmConsole
