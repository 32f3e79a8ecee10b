import Timeshift.Config
import Timeshift.Disk.Tree
import Timeshift.Recording

/-!
# Recorders

A recorder drives one recording directory for a capture pipeline: it names the segment files,
indexes the samples, says when a segment is full, and keeps the stored manifest current after every
new segment.
-/

namespace Timeshift

structure Recorder where
  directory : Path
  manifestPath : Path
  settings : RecorderSettings
  recording : Recording
  deriving DecidableEq

namespace Recorder

/-- Opens a recording directory. An unfinished recording that is there already is resumed. -/
def «open» (directory : Path) (settings : RecorderSettings) (w : World) :
    Except Error Recorder × World :=
  match w.disk.makeDirectories directory with
  | (.error e, d) => (.error (.io e), { w with disk := d })
  | (.ok (), d) =>
    let w := { w with disk := d }
    let manifestPath := directory.join ⟨settings.manifestName⟩
    if d.exists? manifestPath then
      match Recording.load manifestPath d with
      | .error e => (.error e, w)
      | .ok r =>
        if r.finished then (.error (.notWritable s!"recording in {directory} is finished"), w)
        else (.ok ⟨directory, manifestPath, settings, r⟩, w)
    else
      (.ok ⟨directory, manifestPath, settings, .empty settings.indexExtension (some directory)⟩, w)

/-- A number with at least five digits. -/
def paddedNumber (n : Nat) : List Char := (Nat.toDigits 10 n).leftpad 5 '0'

/-- The name of the `n`-th segment file. -/
def segmentName (settings : RecorderSettings) (n : Nat) : String :=
  settings.segmentStem ++ "-" ++ String.ofList (paddedNumber n) ++ "." ++ settings.segmentExtension

/-- Starts the next segment and gives the path to write its data to. -/
def beginSegment (r : Recorder) (start : UInt64) (w : World) :
    Except Error Path × Recorder × World :=
  match SegmentPath.ofString (segmentName r.settings r.recording.segments.length) with
  | .error e => (.error e, r, w)
  | .ok path =>
    match r.recording.append path start w with
    | (.error e, w) => (.error e, r, w)
    | (.ok recording, w) =>
      let (stored, w) := recording.store r.manifestPath w
      (stored.map fun _ => recording.fileOf path, { r with recording }, w)

/-- Whether the sample `e` finds a segment full that began at `start`. -/
def isFull (settings : RecorderSettings) (start : UInt64) (e : Entry) : Bool :=
  (0 < settings.maxBytes && settings.maxBytes ≤ e.offset) ||
    (0 < settings.maxDuration && start ≤ e.timestamp && settings.maxDuration ≤ e.timestamp - start)

def fillsSegment (r : Recorder) (e : Entry) : Bool :=
  r.recording.segments.getLast?.any fun s => isFull r.settings s.start e

/-- Indexes a sample of the current segment, and says whether it is time for the next segment. -/
def sample (r : Recorder) (e : Entry) (w : World) : Except Error Bool × Recorder × World :=
  match r.recording.record e w with
  | (.error err, w) => (.error err, r, w)
  | (.ok recording, w) =>
    let r := { r with recording }
    (.ok (r.fillsSegment e), r, w)

/-- Ends the recording and stores the final manifest. -/
def finish (r : Recorder) (w : World) : Except Error Unit × Recording × World :=
  let (recording, w) := r.recording.finish w
  let (stored, w) := recording.store r.manifestPath w
  (stored, recording, w)

def release (r : Recorder) (w : World) : World := r.recording.release w

end Recorder

end Timeshift
