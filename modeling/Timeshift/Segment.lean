import Timeshift.Index.Basic
import Timeshift.SegmentPath

/-!
# Segments

One capture file and its index. A segment that is being recorded answers through its writer; any
other opens its index for playback on the first question and keeps it open.
-/

namespace Timeshift

structure Segment where
  /-- As the manifest has it. -/
  path : SegmentPath
  /-- Where the file lies, taken from the recording's directory. -/
  file : Path
  index : Path
  start : UInt64
  stop : UInt64
  writer : Option Index
  reader : Option Index
  deriving DecidableEq

namespace Segment

def isActive (s : Segment) : Bool := s.writer.isSome

/-- Asks the segment's index. A failed opening is not remembered. -/
def query (s : Segment) (ask : Index → Except Error α) (d : Disk) : Except Error α × Segment :=
  match s.writer, s.reader with
  | some x, _ | none, some x => (ask x, s)
  | none, none =>
    match Index.openPlayback s.index d with
    | .ok x => (ask x, { s with reader := some x })
    | .error e => (.error e, s)

def lookUp (s : Segment) (time : UInt64) (d : Disk) : Except Error UInt64 × Segment :=
  s.query (·.lookUp time d) d

def entries (s : Segment) (d : Disk) : Except Error (List Entry) × Segment :=
  s.query (·.entries d) d

def first? (s : Segment) (d : Disk) : Except Error (Option Entry) × Segment :=
  s.query (·.first? d) d

/-- The stop of a segment whose last entry is `last`; without an entry it stays as it is. -/
def stopAfter (s : Segment) : Option Entry → UInt64
  | some e => max e.timestamp s.start
  | none => s.stop

/-- Ends the recording of a segment. Its last entry, from the writer or else from the file, fixes
where it stops. -/
def finish (s : Segment) (w : World) : Segment × World :=
  match s.writer with
  | some x => ({ s with writer := none, stop := s.stopAfter x.tail }, x.release w)
  | none =>
    let (last, s) := s.query (·.last? w.disk) w.disk
    ({ s with stop := s.stopAfter last.toOption.join }, w)

end Segment

end Timeshift
