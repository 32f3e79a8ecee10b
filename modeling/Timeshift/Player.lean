import Timeshift.Config
import Timeshift.Recording

/-!
# Players

From a time to the segment file and the offset to start reading from. A player that clamps goes to
the nearest known position where there is no data for a time, so that it can always seek.
-/

namespace Timeshift

/-- Where playback starts. -/
structure Position where
  file : Path
  offset : UInt64
  /-- There was no data for the time that was asked for, and this is the nearest position. -/
  clamped : Bool
  deriving DecidableEq

structure Player where
  recording : Recording
  clamp : Bool
  deriving DecidableEq

namespace Player

def «open» (manifest : Path) (settings : PlayerSettings) (d : Disk) : Except Error Player := do
  return ⟨← Recording.load manifest d, settings.clamp⟩

/-- The place of the segment that stands in for the one that has no data for `time`. -/
def nearest? (r : Recording) (time : UInt64) : Option Nat :=
  match r.place? time with
  | some i => some i
  | none => if r.segments.isEmpty then none else some 0

def positionOf (s : Segment) (first : Option Entry) : Position :=
  ⟨s.file, (first.map (·.offset)).getD 0, true⟩

def seek (p : Player) (time : UInt64) (d : Disk) : Except Error Position × Player :=
  let (found, r) := p.recording.lookUp time d
  let p := { p with recording := r }
  match found with
  | .ok (s, offset) => (.ok ⟨s.file, offset, false⟩, p)
  | .error e =>
    if e.isNotFound && p.clamp then
      match nearest? r time with
      | none => (.error e, p)
      | some i =>
        let (position, r) := r.query i fun s =>
          let (first, s) := s.first? d
          (first.map (positionOf s), s)
        (position, { p with recording := r })
    else (.error e, p)

end Player

end Timeshift
