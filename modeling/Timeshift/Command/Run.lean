import Timeshift.Command.Arguments
import Timeshift.Command.Failure
import Timeshift.Json.Value
import Timeshift.Player

/-!
# Running commands

Each command prints text, or JSON on request, and may fail after it has printed.
-/

namespace Timeshift

structure Outcome where
  output : String := ""
  failure : Option Failure := none
  deriving DecidableEq

namespace Outcome

def printed (lines : List String) : Outcome := { output := String.join (lines.map (· ++ "\n")) }

def failed (f : Failure) : Outcome := { failure := some f }

end Outcome

namespace Command

def programVersion : String := "dvrindex 0.1.0"

/-! ## Index files -/

def entryJson (e : Entry) : Json :=
  .object [("timestamp", .number e.timestamp.toNat), ("offset", .number e.offset.toNat)]

def openFailure (index : Path) (e : Error) : Outcome :=
  .failed (.during s!"Failed to open index {Text.quoted index.text}" e)

def runDump (index : Path) (json : Bool) (d : Disk) : Outcome :=
  match Index.openPlayback index d with
  | .error e => openFailure index e
  | .ok x =>
    match x.entries d with
    | .error e => .failed (.ofError e)
    | .ok es =>
      if json then .printed [(Json.array (es.map entryJson)).pretty]
      else .printed (es.map fun e => s!"{e.timestamp}\t{e.offset}")

def runLookUp (index : Path) (time : UInt64) (d : Disk) : Outcome :=
  match Index.openPlayback index d with
  | .error e => openFailure index e
  | .ok x =>
    match x.lookUp time d with
    | .error e => .failed (.during s!"No offset for time {time}" e)
    | .ok offset => .printed [toString offset]

def reportJson (r : Index.Report) : Json :=
  .object [("entries", .number r.entries), ("trailing_bytes", .number r.trailing),
    ("first_regression", Json.optional .number r.regression),
    ("first_timestamp", Json.optional (.number ·.toNat) r.first),
    ("last_timestamp", Json.optional (.number ·.toNat) r.last)]

def reportLines (index : Path) (r : Index.Report) : List String :=
  let range := match r.first, r.last with
    | some first, some last => [s!"  Time range:     {first} - {last}"]
    | _, _ => []
  [s!"Index: {index}", s!"  Entries:        {r.entries}", s!"  Trailing bytes: {r.trailing}"] ++
    range

/-- A broken order fails the check after the report is printed; a torn record only gives a
warning. -/
def runVerify (index : Path) (json : Bool) (w : World) : Outcome × World :=
  match Index.verify index w.disk with
  | .error e => (.failed (.during s!"Failed to read index {Text.quoted index.text}" e), w)
  | .ok r =>
    let out : Outcome :=
      .printed (if json then [(reportJson r).pretty] else reportLines index r)
    match r.regression with
    | some i => ({ out with failure := some ⟨s!"Timestamp order broken at record {i}", []⟩ }, w)
    | none => (out, if r.trailing = 0 then w else w.warn (.tornIndex index))

def runRecover (index : Path) (w : World) : Outcome × World :=
  if !w.disk.exists? index then
    (.failed ⟨s!"Index file not found: {Text.quoted index.text}", []⟩, w)
  else
    match Index.openRecord index w with
    | (.error e, w) =>
      (.failed (.during s!"Failed to recover index {Text.quoted index.text}" e), w)
    | (.ok x, w) =>
      match x.length w.disk, (x.close w.disk).1 with
      | .ok entries, .ok () =>
        let line := if x.recovered = 0 then s!"Index is intact; {entries} entries"
          else s!"Truncated {x.recovered} bytes; {entries} entries kept"
        (.printed [line], w)
      | .error e, _ => (.failed (.ofError e), x.release w)
      | _, .error e => (.failed (.ofError e), w)

def runAppend (index : Path) (e : Entry) (w : World) : Outcome × World :=
  match Index.openRecord index w with
  | (.error err, w) => (openFailure index err, w)
  | (.ok x, w) =>
    match x.write e w with
    | (.error err, w) =>
      (.failed (.during s!"Failed to append to {Text.quoted index.text}" err), x.release w)
    | (.ok x, w) =>
      match (x.close w.disk).1 with
      | .ok () => ({}, w)
      | .error err => (.failed (.ofError err), w)

/-! ## Recordings -/

def manifestFailure (manifest : Path) (e : Error) : Outcome :=
  .failed (.during s!"Failed to load manifest {Text.quoted manifest.text}" e)

/-- The members stand in the order of their names. -/
def segmentJson (d : Disk) (s : Segment) : Json :=
  .object [("end_time", .number s.stop.toNat),
    ("entries", Json.optional (fun es => .number es.length) (s.entries d).1.toOption),
    ("path", .string s.path.text), ("start_time", .number s.start.toNat)]

def segmentLine (d : Disk) (s : Segment) : String :=
  let entries := match (s.entries d).1 with
    | .ok es => toString es.length
    | .error e => s!"index unavailable: {e.message}"
  s!"  {s.path}  [{s.start} - {s.stop}]  {entries}"

def runSegments (manifest : Path) (json : Bool) (d : Disk) : Outcome :=
  match Recording.load manifest d with
  | .error e => manifestFailure manifest e
  | .ok r =>
    if json then
      .printed [(Json.object [("finished", .bool r.finished),
        ("segments", .array (r.segments.map (segmentJson d)))]).pretty]
    else
      let state := if r.finished then "finished" else "in progress"
      .printed (s!"Recording: {manifest} ({r.segments.length} segments, {state})" ::
        r.segments.map (segmentLine d))

def positionJson (p : Position) : Json :=
  .object [("path", .string p.file.text), ("offset", .number p.offset.toNat),
    ("clamped", .bool p.clamped)]

def runSeek (manifest : Path) (time : UInt64) (json : Bool) (config : Option Path)
    (home : Option String) (w : World) : Outcome × World :=
  match Config.find config home w with
  | (.error e, w) => (.failed (.ofConfig e), w)
  | (.ok c, w) =>
    match Player.open manifest c.playback w.disk with
    | .error e => (manifestFailure manifest e, w)
    | .ok p =>
      match (p.seek time w.disk).1 with
      | .error e => (.failed (.during s!"Cannot seek to {time}" e), w)
      | .ok position =>
        let line := if json then (positionJson position).pretty
          else s!"{position.file}\t{position.offset}"
        (.printed [line], w)

/-! ## Configuration -/

def runValidate (config : Option Path) (home : Option String) (w : World) : Outcome × World :=
  match Config.find config home w with
  | (.error e, w) => (.failed (.ofConfig e), w)
  | (.ok c, w) =>
    (.printed ["Configuration is valid",
      s!"  Index extension:  {c.recording.indexExtension}",
      s!"  Manifest name:    {c.recording.manifestName}",
      s!"  Max segment size: {c.recording.maxBytes} bytes",
      s!"  Max duration:     {c.recording.maxDuration}",
      s!"  Clamp seeks:      {c.playback.clamp}"], w)

def run (i : Invocation) (home : Option String) (w : World) : Outcome × World :=
  match i.command with
  | .dump index json => (runDump index json w.disk, w)
  | .lookUp index time => (runLookUp index time w.disk, w)
  | .verify index json => runVerify index json w
  | .recover index => runRecover index w
  | .append index time offset => runAppend index ⟨time, offset⟩ w
  | .segments manifest json => (runSegments manifest json w.disk, w)
  | .seek manifest time json => runSeek manifest time json i.config home w
  | .validate config => runValidate (config <|> i.config) home w
  | .version => (.printed [programVersion], w)

end Command

end Timeshift
