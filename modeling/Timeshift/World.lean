import Timeshift.Disk.Basic

/-!
# What an operation works on

The disk, and the warnings given on the way: conditions that are worth a line in a log and fail
nothing.
-/

namespace Timeshift

inductive Warning
  /-- A partial record was cut off when the index was opened for recording. -/
  | truncated (bytes : Nat) (index : Path) (kept : Nat)
  | rollBackFailed (index : Path) (cause : IoError)
  | closeFailed (index : Path) (cause : Error)
  /-- No threshold is set that would end a segment. -/
  | neverRotates
  | tornIndex (index : Path)
  deriving DecidableEq

def Warning.message : Warning → String
  | .truncated bytes index kept =>
    s!"Truncating {bytes} bytes of partial record from {index} ({kept} complete entries kept)"
  | .rollBackFailed index cause =>
    s!"Failed to roll back partial record in {index}: {cause.text}"
  | .closeFailed index cause => s!"Failed to close index {index}: {cause.message}"
  | .neverRotates => "No rotation threshold set; recordings will use a single segment"
  | .tornIndex index =>
    s!"{index} has a torn trailing record; run `dvrindex recover` to truncate it"

structure World where
  disk : Disk
  /-- Oldest first. -/
  warnings : List Warning := []

namespace World

def warn (w : World) (x : Warning) : World := { w with warnings := w.warnings ++ [x] }

@[simp] theorem disk_warn (w : World) (x : Warning) : (w.warn x).disk = w.disk := rfl

end World

end Timeshift
