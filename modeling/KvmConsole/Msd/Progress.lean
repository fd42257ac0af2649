import KvmConsole.Binary64.Arithmetic

/-!
# Upload progress

How much of an upload has been handed to the network, in whole percent.
-/

namespace KvmConsole.Msd

/-- The state of the progress bar. -/
inductive Progress where
  /-- Nothing has been reported yet. -/
  | waiting
  | active (percent : Nat)
  /-- The user has aborted the upload. -/
  | aborted
  deriving DecidableEq, Repr

namespace Progress

/-- The share of `loaded` in `total`, computed in binary64 as `loaded * 100 / total`, rounded with
    halves away from zero and at most 100. -/
def percentOf (loaded total : UInt64) : Nat :=
  let share := Binary64.ofNat loaded.toNat * 100 / Binary64.ofNat total.toNat
  ((Binary64.roundHalfAway share).min 100 |>.truncateInto 0 255).toNat

/-- The progress after `loaded` of `total` bytes. There is none if the total is unknown or zero. -/
def ofBytes (loaded : UInt64) : Option UInt64 → Option Progress
  | none => none
  | some total => if total = 0 then none else some (active (percentOf loaded total))

end Progress

end KvmConsole.Msd
