import Timeshift.Disk.Walk

/-!
# Opening files

A file to be read has to be there; one to be written is made where its directory is there. What is
opened is the file that the path leads to now.
-/

namespace Timeshift.Disk

def openRead (d : Disk) (p : Path) : Except IoError FileId := do
  match ← d.lookUp p with
  | .file i => return i
  | .directory => throw .isDirectory

def read (d : Disk) (p : Path) : Except IoError Bytes := do
  return d.content (← d.openRead p)

def readText (d : Disk) (p : Path) : Except IoError String := do
  match Utf8.decode? (← d.read p) with
  | some text => return text
  | none => throw .notUtf8

/-- A new empty file under the name. -/
def addFile (d : Disk) (n : Name) : FileId × Disk :=
  (d.next, { d with
    nodes := d.nodes.put n (.file d.next)
    files := d.files.put d.next {}
    next := d.next + 1 })

/-- Opens a file for writing and makes it if there is none. -/
def openCreate (d : Disk) (p : Path) : Except IoError (FileId × Disk) := do
  let s ← d.spot p
  if s.last.isNone || s.slash then throw .isDirectory
  match ← d.find s with
  | some (.file i) => return (i, d)
  | some .directory => throw .isDirectory
  | none => return d.addFile s.name

/-- Opens a file for writing and empties it. -/
def create (d : Disk) (p : Path) : Except IoError (FileId × Disk) := do
  let (i, d) ← d.openCreate p
  return (i, d.setContent i [])

end Timeshift.Disk
