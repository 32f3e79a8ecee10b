import Timeshift.Disk.Open
import Timeshift.Entry

/-!
# The contents of an index file

One pass over a file gives its complete records and the bytes of a torn one at its end. A file is
good if its timestamps never decrease; everything that opens or checks an index asks here.
-/

namespace Timeshift.Index

/-- The place of the first entry that is older than the one before it. -/
def regression? : List Entry → Option Nat
  | a :: b :: es =>
    if b.timestamp < a.timestamp then some 1 else (regression? (b :: es)).map (· + 1)
  | _ => none

def IsOrdered (es : List Entry) : Prop := es.Pairwise fun a b => a.timestamp ≤ b.timestamp

structure Contents where
  entries : List Entry
  /-- Bytes after the last complete record. -/
  trailing : Nat
  deriving DecidableEq

namespace Contents

def ofBytes (bs : Bytes) : Contents := ⟨Entry.readAll bs, bs.length % Entry.size⟩

/-- The contents of the file at `path`, refused if their order is broken. -/
def checked (path : Path) (bs : Bytes) : Except Error Contents :=
  let c := ofBytes bs
  match regression? c.entries with
  | some i => .error (.corrupt s!"{path}: timestamp decreases at record {i}")
  | none => .ok c

end Contents

/-- What a check finds; the file stays as it is. -/
structure Report where
  entries : Nat
  trailing : Nat
  regression : Option Nat
  first : Option UInt64
  last : Option UInt64
  deriving DecidableEq

namespace Report

def isMonotonic (r : Report) : Bool := r.regression.isNone

def ofContents (c : Contents) : Report where
  entries := c.entries.length
  trailing := c.trailing
  regression := regression? c.entries
  first := c.entries.head?.map (·.timestamp)
  last := c.entries.getLast?.map (·.timestamp)

end Report

def verify (path : Path) (d : Disk) : Except Error Report := do
  let i ← (d.openRead path).mapError (.ofOpening path)
  return .ofContents (.ofBytes (d.content i))

end Timeshift.Index
