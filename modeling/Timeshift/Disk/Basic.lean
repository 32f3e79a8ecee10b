import Timeshift.Disk.Table
import Timeshift.Error
import Timeshift.Text.Utf8

/-!
# A disk

Names lead to files, and an open file is known by its number: it stays the same file when its name
is removed, renamed or given to another file. What the storage under a file does with a write, a
sync or a new length is its medium, so failing storage is data like any other.
-/

namespace Timeshift

/-- The outcome of the calls that change or sync a file. -/
structure Medium where
  /-- How many bytes of a write are kept; `none` keeps all. -/
  keeps : Option Nat := none
  writeError : Option IoError := none
  syncError : Option IoError := none
  resizeError : Option IoError := none
  deriving DecidableEq

namespace Medium

def regular : Medium := {}

/-- A device that swallows what is written to it. -/
def null : Medium :=
  { keeps := some 0, syncError := some .invalidArgument, resizeError := some .invalidArgument }

/-- A device that never has room. -/
def full : Medium := { null with writeError := some .noSpace }

def kept (m : Medium) (bs : Bytes) : Bytes :=
  match m.keeps with
  | none => bs
  | some n => bs.take n

end Medium

structure File where
  content : Bytes := []
  medium : Medium := .regular
  deriving DecidableEq

abbrev FileId := Nat

/-- A place by the pieces that lead to it from the root, with no `.` or `..` among them. -/
abbrev Name := List (List Char)

inductive Node
  | directory
  | file (id : FileId)
  deriving DecidableEq

structure Disk where
  /-- The current directory, from which relative paths start. -/
  here : Name
  nodes : Table Name Node
  files : Table FileId File
  /-- No file has this number or a greater one. -/
  next : FileId

namespace Disk

/-- An empty current directory, and the two devices. -/
def blank (here : Name) : Disk where
  here
  nodes := [(here, .directory), (["dev".toList], .directory),
    (["dev".toList, "null".toList], .file 0), (["dev".toList, "full".toList], .file 1)]
  files := [(0, { medium := .null }), (1, { medium := .full })]
  next := 2

def failing : Option IoError → Except IoError Unit
  | none => .ok ()
  | some e => .error e

/-! ## Open files -/

def file (d : Disk) (i : FileId) : File := (d.files.lookup i).getD {}

def content (d : Disk) (i : FileId) : Bytes := (d.file i).content

def medium (d : Disk) (i : FileId) : Medium := (d.file i).medium

def setContent (d : Disk) (i : FileId) (bs : Bytes) : Disk :=
  { d with files := d.files.put i { d.file i with content := bs } }

def setMedium (d : Disk) (i : FileId) (m : Medium) : Disk :=
  { d with files := d.files.put i { d.file i with medium := m } }

/-- Writes at the end the file has now. A failing write may leave a part behind; writing nothing does
not reach the medium and cannot fail. -/
def append (d : Disk) (i : FileId) (bs : Bytes) : Except IoError Unit × Disk :=
  if bs = [] then (.ok (), d)
  else (failing (d.medium i).writeError, d.setContent i (d.content i ++ (d.medium i).kept bs))

def sync (d : Disk) (i : FileId) : Except IoError Unit := failing (d.medium i).syncError

/-- Cuts the file to `n` bytes, or fills it up with zeros. -/
def resize (d : Disk) (i : FileId) (n : Nat) : Except IoError Unit × Disk :=
  match (d.medium i).resizeError with
  | some e => (.error e, d)
  | none =>
    (.ok (), d.setContent i ((d.content i).take n ++ List.replicate (n - (d.content i).length) 0))

/-! ## What a change of one file leaves as it was -/

theorem file_setContent (d : Disk) (i j : FileId) (bs : Bytes) :
    (d.setContent i bs).file j = if j = i then { d.file i with content := bs } else d.file j := by
  by_cases h : j = i
  · subst h
    simp [file, setContent, Table.lookup_put_self]
  · simp [file, setContent, Table.lookup_put_of_ne h, h]

theorem content_setContent (d : Disk) (i j : FileId) (bs : Bytes) :
    (d.setContent i bs).content j = if j = i then bs else d.content j := by
  simp only [content, file_setContent]
  split <;> rfl

theorem medium_setContent (d : Disk) (i j : FileId) (bs : Bytes) :
    (d.setContent i bs).medium j = d.medium j := by
  simp only [medium, file_setContent]
  split
  · next h => rw [h]
  · rfl

@[simp] theorem nodes_setContent (d : Disk) (i : FileId) (bs : Bytes) :
    (d.setContent i bs).nodes = d.nodes := rfl

@[simp] theorem here_setContent (d : Disk) (i : FileId) (bs : Bytes) :
    (d.setContent i bs).here = d.here := rfl

end Disk

end Timeshift
