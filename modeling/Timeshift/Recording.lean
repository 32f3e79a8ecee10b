import Timeshift.Segment
import Timeshift.Manifest

/-!
# Recordings

The segments of one recording in order. Samples go to the last segment while it is active. A time
belongs to the last segment that starts at or before it, so a time in a gap belongs to the segment
before the gap, and the last segment has no end.
-/

namespace Timeshift

structure Recording where
  segments : List Segment
  extension : String
  /-- Relative segment paths start here. -/
  base : Option Path
  finished : Bool
  deriving DecidableEq

namespace Recording

def empty (extension : String) (base : Option Path) : Recording := ⟨[], extension, base, false⟩

/-- The same recording, with relative segment paths taken from `directory` from now on. -/
def withBase (r : Recording) (directory : Path) : Recording := { r with base := some directory }

def fileOf (r : Recording) (p : SegmentPath) : Path :=
  match r.base with
  | some directory => directory.join p.path
  | none => p.path

def isRecording (r : Recording) : Bool := r.segments.getLast?.any (·.isActive)

/-- The start of the first segment and the stop of the last. -/
def timeRange? (r : Recording) : Option (UInt64 × UInt64) := do
  return ((← r.segments.head?).start, (← r.segments.getLast?).stop)

/-! ## Recording -/

def setLast (r : Recording) (s : Segment) : Recording :=
  { r with segments := r.segments.dropLast ++ [s] }

def finishLast (r : Recording) (w : World) : Recording × World :=
  match r.segments.getLast? with
  | none => (r, w)
  | some s =>
    let (s, w) := s.finish w
    (r.setLast s, w)

/-- Why a segment cannot be appended. -/
def refusal? (r : Recording) (path : SegmentPath) (start : UInt64) : Option Error :=
  if r.finished then some (.notWritable "recording is finished")
  else
    match (r.segments.getLast?.map (·.start)).filter (start < ·) with
    | some previous =>
      some (.invalidInput
        s!"segment {path} starts at {start} before previous segment start {previous}")
    | none =>
      if r.segments.any (·.path = path) then
        some (.invalidInput s!"segment {path} is already in the list")
      else none

/-- Starts a segment and finishes the one before it. Its index is opened first, so the recording
stays as it is if that fails. -/
def append (r : Recording) (path : SegmentPath) (start : UInt64) (w : World) :
    Except Error Recording × World :=
  match r.refusal? path start with
  | some e => (.error e, w)
  | none =>
    let file := r.fileOf path
    let index := file.indexPath r.extension
    match Index.openRecord index w with
    | (.error e, w) => (.error e, w)
    | (.ok writer, w) =>
      let (r, w) := r.finishLast w
      let s : Segment := ⟨path, file, index, start, start, some writer, none⟩
      (.ok { r with segments := r.segments ++ [s] }, w)

/-- Indexes a sample of the segment that is being recorded. -/
def record (r : Recording) (e : Entry) (w : World) : Except Error Recording × World :=
  match r.segments.getLast? with
  | none => (.error (.notWritable "no segment is being recorded"), w)
  | some s =>
    match s.writer with
    | none => (.error (.notWritable s!"segment {s.path} is not being recorded"), w)
    | some x =>
      match x.write e w with
      | (.error err, w) => (.error err, w)
      | (.ok x, w) =>
        (.ok (r.setLast { s with writer := some x, stop := max s.stop e.timestamp }), w)

def finish (r : Recording) (w : World) : Recording × World :=
  if r.finished then (r, w)
  else
    let (r, w) := r.finishLast w
    ({ r with finished := true }, w)

/-- Lets the recording go, and with it the index that is being written. -/
def release (r : Recording) (w : World) : World :=
  (r.segments.filterMap (·.writer)).foldl (fun w x => x.release w) w

/-! ## Looking up -/

/-- The place of the segment that `time` belongs to. -/
def place? (r : Recording) (time : UInt64) : Option Nat :=
  match (r.segments.takeWhile (·.start ≤ time)).length with
  | 0 => none
  | n + 1 => some n

def segmentAt? (r : Recording) (time : UInt64) : Option Segment :=
  (r.place? time).bind (r.segments[·]?)

/-- Asks the `i`-th segment, which may have to open its index for it. -/
def query (r : Recording) (i : Nat) (ask : Segment → Except Error α × Segment) :
    Except Error α × Recording :=
  match r.segments[i]? with
  | none => (.error (.notFound s!"recording has no segment {i}"), r)
  | some s =>
    let (answer, s) := ask s
    (answer, { r with segments := r.segments.set i s })

def beforeStart (r : Recording) (time : UInt64) : Error :=
  match r.segments.head? with
  | some first => .notFound s!"time {time} precedes recording start {first.start}"
  | none => .notFound "recording has no segments"

/-- The segment and the offset in it for `time`. Only the index of that segment is looked at. -/
def lookUp (r : Recording) (time : UInt64) (d : Disk) :
    Except Error (Segment × UInt64) × Recording :=
  match r.place? time with
  | none => (.error (r.beforeStart time), r)
  | some i =>
    r.query i fun s =>
      let (offset, s) := s.lookUp time d
      (offset.map (s, ·), s)

/-! ## Storing -/

def manifest (r : Recording) : Manifest where
  version := Manifest.currentVersion
  extension := r.extension
  finished := r.finished
  items := r.segments.map fun s => ⟨s.path, s.start, s.stop⟩

def store (r : Recording) (path : Path) (w : World) : Except Error Unit × World :=
  let (result, d) := r.manifest.store path w.disk
  (result, { w with disk := d })

/-- No index is opened before it is needed. -/
def ofManifest (base : Option Path) (m : Manifest) : Recording :=
  let r : Recording := ⟨[], m.extension, base, m.finished⟩
  { r with segments := m.items.map fun s =>
      let file := r.fileOf s.path
      ⟨s.path, file, file.indexPath m.extension, s.start, s.stop, none, none⟩ }

/-- The directory of a manifest, if its path has one. -/
def baseOf (path : Path) : Option Path := path.parent?.filter (·.text ≠ "")

def load (path : Path) (d : Disk) : Except Error Recording := do
  return ofManifest (baseOf path) (← Manifest.load path d)

end Recording

end Timeshift
