import Timeshift.Index.Contents
import Timeshift.Index.Search
import Timeshift.World

/-!
# Index handles

A handle is open for recording or for playback, and never changes its mode. A recording handle
appends; it answers for the order of the file from the last record it knows, while every read goes
by the length that the file has at that moment. Two recording handles on one file would interleave
their records, so there must be only one.
-/

namespace Timeshift

inductive Mode
  | record
  | playback
  deriving DecidableEq

def Mode.text : Mode → String
  | .record => "record"
  | .playback => "playback"

structure Index where
  path : Path
  mode : Mode
  /-- `none` once closed. -/
  file : Option FileId
  /-- The last record, as far as this handle knows. -/
  tail : Option Entry
  /-- How many complete records this handle knows. -/
  written : Nat
  /-- Bytes of a partial record that were cut off on opening. -/
  recovered : Nat
  deriving DecidableEq

namespace Index

/-! ## Opening -/

/-- A partial record at the end is left alone. -/
def openPlayback (path : Path) (d : Disk) : Except Error Index := do
  let i ← (d.openRead path).mapError (.ofOpening path)
  let c ← Contents.checked path (d.content i)
  return ⟨path, .playback, some i, c.entries.getLast?, c.entries.length, 0⟩

/-- Cuts off a partial record at the end. The order is checked first, so a file that is refused
keeps every byte. -/
def openRecord (path : Path) (w : World) : Except Error Index × World :=
  match w.disk.openCreate path with
  | .error e => (.error (.ofOpening path e), w)
  | .ok (i, d) =>
    let w := { w with disk := d }
    match Contents.checked path (d.content i) with
    | .error e => (.error e, w)
    | .ok c =>
      let x : Index :=
        ⟨path, .record, some i, c.entries.getLast?, c.entries.length, c.trailing⟩
      if c.trailing = 0 then (.ok x, w)
      else
        let w := w.warn (.truncated c.trailing path c.entries.length)
        let (resized, d) := w.disk.resize i (c.entries.length * Entry.size)
        let w := { w with disk := d }
        match resized.bind fun _ => d.sync i with
        | .ok () => (.ok x, w)
        | .error e => (.error (.io e), w)

def «open» (path : Path) (mode : Mode) (w : World) : Except Error Index × World :=
  match mode with
  | .record => openRecord path w
  | .playback => (openPlayback path w.disk, w)

/-! ## Writing -/

/-- The last timestamp, if `time` is before it. -/
def later? (x : Index) (time : UInt64) : Option UInt64 :=
  (x.tail.map (·.timestamp)).filter (time < ·)

/-- Appends one record and syncs it. A write that is turned away touches nothing; one that fails on
the way is cut off again, so that no later reader sees a part of it. -/
def write (x : Index) (e : Entry) (w : World) : Except Error Index × World :=
  match x.mode, x.file with
  | .playback, _ => (.error (.notWritable s!"{x.path} is open for playback"), w)
  | .record, none => (.error (.notWritable s!"{x.path} is closed"), w)
  | .record, some i =>
    match x.later? e.timestamp with
    | some last => (.error (.timestampRegression e.timestamp last), w)
    | none =>
      let (appended, d) := w.disk.append i e.encode
      let w := { w with disk := d }
      match appended.bind fun _ => d.sync i with
      | .ok () => (.ok { x with tail := some e, written := x.written + 1 }, w)
      | .error cause =>
        let (cut, d) := w.disk.resize i (x.written * Entry.size)
        let w := { w with disk := d }
        match cut with
        | .ok () => (.error (.io cause), w)
        | .error e => (.error (.io cause), w.warn (.rollBackFailed x.path e))

/-! ## Reading -/

def bytes (x : Index) (d : Disk) : Except Error Bytes :=
  match x.file with
  | some i => .ok (d.content i)
  | none => .error .closed

def lookUp (x : Index) (time : UInt64) (d : Disk) : Except Error UInt64 := do
  return (← search x.path (← x.bytes d) time).offset

def entries (x : Index) (d : Disk) : Except Error (List Entry) := do
  return Entry.readAll (← x.bytes d)

def length (x : Index) (d : Disk) : Except Error Nat := do
  return (← x.bytes d).length / Entry.size

def isEmpty (x : Index) (d : Disk) : Except Error Bool := do
  return (← x.length d) = 0

def first? (x : Index) (d : Disk) : Except Error (Option Entry) := do
  return Entry.readAt? (← x.bytes d) 0

def last? (x : Index) (d : Disk) : Except Error (Option Entry) := do
  return Entry.readAt? (← x.bytes d) ((← x.length d) - 1)

/-- The first and the last timestamp. -/
def range? (x : Index) (d : Disk) : Except Error (Option (UInt64 × UInt64)) := do
  let first ← x.first? d
  let last ← x.last? d
  return first.bind fun f => last.map fun l => (f.timestamp, l.timestamp)

/-! ## Closing -/

def isClosed (x : Index) : Bool := x.file.isNone

/-- A recording handle syncs once more. The file is let go whether or not that succeeds. -/
def close (x : Index) (d : Disk) : Except Error Unit × Index :=
  let closed := { x with file := none }
  match x.mode, x.file with
  | .record, some i => ((d.sync i).mapError .io, closed)
  | _, _ => (.ok (), closed)

/-- Lets a handle go where there is nobody to tell of a failure. -/
def release (x : Index) (w : World) : World :=
  match (x.close w.disk).1 with
  | .ok () => w
  | .error e => w.warn (.closeFailed x.path e)

end Index

end Timeshift
