import Timeshift.Error
import Timeshift.Entry

/-!
# Searching an index

From a time to the record to start from. `Entry.latest?` says which record that is; `search` finds
it by halving, reading single records of the file.
-/

namespace Timeshift

/-- The first entry among those with the greatest timestamp not after `time`. -/
def Entry.latest? (es : List Entry) (time : UInt64) : Option Entry :=
  let upTo := es.filter (·.timestamp ≤ time)
  upTo.find? fun e => upTo.all (·.timestamp ≤ e.timestamp)

namespace Index

/-- The first place from `lo` up to `hi` where `p` fails, if `p` holds at first and then no more. -/
def bisect (p : Nat → Except Error Bool) (lo hi : Nat) : Except Error Nat :=
  if lo < hi then do
    let mid := lo + (hi - lo) / 2
    if ← p mid then bisect p (mid + 1) hi else bisect p lo mid
  else .ok lo
termination_by hi - lo

def readEntry (bs : Bytes) (i : Nat) : Except Error Entry :=
  match Entry.readAt? bs i with
  | some e => .ok e
  | none => .error (.io .endOfFile)

/-- The entry to start from for `time`. The second halving goes back to the first of the entries
that share the timestamp found by the first. -/
def search (path : Path) (bs : Bytes) (time : UInt64) : Except Error Entry := do
  let count := bs.length / Entry.size
  if count = 0 then throw (.notFound s!"{path} has no entries")
  let first ← readEntry bs 0
  if time < first.timestamp then
    throw (.notFound s!"time {time} precedes first entry {first.timestamp} in {path}")
  let upper ← bisect (fun i => return (← readEntry bs i).timestamp ≤ time) 0 count
  let found ← readEntry bs (upper - 1)
  let tie ← bisect
    (fun i => return (← readEntry bs i).timestamp < found.timestamp) 0 (upper - 1)
  readEntry bs tie

end Index

end Timeshift
