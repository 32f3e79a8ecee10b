import Timeshift.Disk.Replace
import Timeshift.Json.Record
import Timeshift.Json.Skip
import Timeshift.Json.Value
import Timeshift.SegmentPath

/-!
# Manifests

The stored form of a recording: a small JSON document that lists its segments in order. Indexes are
not part of it. Whatever is read is checked against the rules of a recording, and the first one that
is broken is named.
-/

namespace Timeshift

structure Manifest.Item where
  path : SegmentPath
  start : UInt64
  stop : UInt64
  deriving DecidableEq

structure Manifest where
  version : UInt32
  /-- What follows a segment's file name in the name of its index. -/
  extension : String
  finished : Bool
  items : List Manifest.Item
  deriving DecidableEq

namespace Manifest

def currentVersion : UInt32 := 1

/-! ## Writing -/

def Item.toJson (s : Item) : Json :=
  .object [("path", .string s.path.text), ("start_time", .number s.start.toNat),
    ("end_time", .number s.stop.toNat)]

def toJson (m : Manifest) : Json :=
  .object [("version", .number m.version.toNat), ("index_extension", .string m.extension),
    ("finished", .bool m.finished), ("segments", .array (m.items.map Item.toJson))]

def text (m : Manifest) : String := m.toJson.pretty

/-! ## Reading -/

open Json

structure Item.Draft where
  path : Option SegmentPath := none
  start : Option UInt64 := none
  stop : Option UInt64 := none

def readPath : Reader SegmentPath := fun cs => do
  let (text, rest) ← readString cs
  match SegmentPath.ofString text with
  | .ok p => return (p, rest)
  | .error e => throw (.refused e)

def Item.readField (key : String) (s : Item.Draft) : Reader Item.Draft := fun cs => do
  match key with
  | "path" =>
    let (p, cs) ← readOnce s.path.isSome readPath cs
    return ({ s with path := some p }, cs)
  | "start_time" =>
    let (n, cs) ← readOnce s.start.isSome readWord cs
    return ({ s with start := some n }, cs)
  | "end_time" =>
    let (n, cs) ← readOnce s.stop.isSome readWord cs
    return ({ s with stop := some n }, cs)
  | _ => return (s, ← skipValue cs)

def Item.read : Reader Item := fun cs => do
  let (s, cs) ← readRecord ["path", "start_time", "end_time"] Item.readField {} cs
  return (⟨← orMissing s.path, ← orMissing s.start, ← orMissing s.stop⟩, cs)

def readItem (items : List Item) : Reader (List Item) := fun cs => do
  let (s, cs) ← Item.read cs
  return (items ++ [s], cs)

structure Draft where
  version : Option UInt32 := none
  extension : Option String := none
  finished : Option Bool := none
  items : Option (List Item) := none

def readField (key : String) (m : Draft) : Reader Draft := fun cs => do
  match key with
  | "version" =>
    let (n, cs) ← readOnce m.version.isSome (readNat UInt32.size) cs
    return ({ m with version := some (UInt32.ofNat n) }, cs)
  | "index_extension" =>
    let (s, cs) ← readOnce m.extension.isSome readString cs
    return ({ m with extension := some s }, cs)
  | "finished" =>
    let (b, cs) ← readOnce m.finished.isSome readBool cs
    return ({ m with finished := some b }, cs)
  | "segments" =>
    let (items, cs) ← readOnce m.items.isSome (readArray readItem []) cs
    return ({ m with items := some items }, cs)
  | _ => return (m, ← skipValue cs)

/-- A recording is unfinished where nothing is said of it. -/
def read : Reader Manifest := fun cs => do
  let (m, cs) ← readRecord ["version", "index_extension", "finished", "segments"] readField {} cs
  return (⟨← orMissing m.version, ← orMissing m.extension, m.finished.getD false,
    ← orMissing m.items⟩, cs)

def ofText (text : String) : Except Json.Flaw Manifest := readAll read text

/-! ## Rules -/

inductive Fault
  | unsupportedVersion (version : UInt32)
  | emptyExtension
  | endsEarly (item : Nat) (stop start : UInt64)
  | startsEarly (item : Nat)
  | listedTwice (path : SegmentPath)
  deriving DecidableEq

def Fault.message : Fault → String
  | .unsupportedVersion version => s!"unsupported manifest version {version}"
  | .emptyExtension => "empty index extension"
  | .endsEarly item stop start => s!"segment {item} ends ({stop}) before it starts ({start})"
  | .startsEarly item => s!"segment {item} starts before segment {item - 1}"
  | .listedTwice path => s!"segment path {path} listed twice"

/-- What is wrong with the item `s` after the items `before`. -/
def itemFault? (before : List Item) (s : Item) : Option Fault :=
  if s.stop < s.start then some (.endsEarly before.length s.stop s.start)
  else if before.getLast?.any (s.start < ·.start) then some (.startsEarly before.length)
  else if before.any (·.path = s.path) then some (.listedTwice s.path)
  else none

def itemsFault? (before : List Item) : List Item → Option Fault
  | [] => none
  | s :: rest =>
    match itemFault? before s with
    | some fault => some fault
    | none => itemsFault? (before ++ [s]) rest

/-- The first rule that is broken. -/
def fault? (m : Manifest) : Option Fault :=
  if m.version ≠ currentVersion then some (.unsupportedVersion m.version)
  else if m.extension = "" then some .emptyExtension
  else itemsFault? [] m.items

/-! ## Files -/

def load (path : Path) (d : Disk) : Except Error Manifest := do
  let text ← (d.readText path).mapError (.ofOpening path)
  let m ← (ofText text).mapError fun flaw => .corrupt s!"{path}: {flaw.message}"
  match m.fault? with
  | none => return m
  | some fault => throw (.corrupt s!"{path}: {fault.message}")

/-- The document is written beside `path` and takes its name when it is complete. -/
def store (m : Manifest) (path : Path) (d : Disk) : Except Error Unit × Disk :=
  d.replace path (path.withExtension "tmp") (Utf8.encode m.text)

end Manifest

end Timeshift
