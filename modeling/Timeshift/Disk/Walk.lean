import Timeshift.Disk.Basic

/-!
# Following a path

A path is walked piece by piece, each piece but the last through a directory. There are no links, so
`..` leads to the directory that the name says.
-/

namespace Timeshift

/-- Where the last piece of a path is to be looked up. -/
structure Spot where
  directory : Name
  /-- `none` stands for the directory itself. -/
  last : Option (List Char)
  /-- The text ends in a slash, which asks for a directory. -/
  slash : Bool
  deriving DecidableEq

namespace Spot

def name (s : Spot) : Name := s.directory ++ s.last.toList

end Spot

/-- The pieces to walk. A piece `.` is walked too: only a directory has one. -/
def Path.pieces (p : Path) : List (List Char) := (slashSplit p.chars).filter (· ≠ [])

namespace Disk

def node? (d : Disk) (n : Name) : Option Node :=
  if n = [] then some .directory else d.nodes.lookup n

def isTooLong (piece : List Char) : Bool := 255 < (String.ofList piece).utf8ByteSize

def enter (d : Disk) (directory : Name) (piece : List Char) : Except IoError Name :=
  if piece = ['.'] then .ok directory
  else if piece = ['.', '.'] then .ok directory.dropLast
  else if isTooLong piece then .error .nameTooLong
  else
    match d.node? (directory ++ [piece]) with
    | some .directory => .ok (directory ++ [piece])
    | some (.file _) => .error .notDirectory
    | none => .error .noSuchFile

def walk (d : Disk) (start : Name) (pieces : List (List Char)) : Except IoError Name :=
  pieces.foldlM d.enter start

def spot (d : Disk) (p : Path) : Except IoError Spot :=
  if '\x00' ∈ p.chars then .error .nulByte
  else if p.text = "" then .error .noSuchFile
  else if 4096 ≤ p.text.utf8ByteSize then .error .nameTooLong
  else
    let start := if p.isAbsolute then [] else d.here
    let slash := p.chars.getLast? = some '/'
    match p.pieces.getLast? with
    | none => .ok ⟨start, none, slash⟩
    | some last => do
      let directory ← d.walk start p.pieces.dropLast
      if last = ['.'] || last = ['.', '.'] then
        return ⟨← d.enter directory last, none, slash⟩
      return ⟨directory, some last, slash⟩

/-- What there is at a spot now. -/
def find (d : Disk) (s : Spot) : Except IoError (Option Node) :=
  match s.last with
  | none => .ok (some .directory)
  | some piece => if isTooLong piece then .error .nameTooLong else .ok (d.node? s.name)

/-- What a path leads to; only a directory is found under a path that ends in a slash. -/
def lookUp (d : Disk) (p : Path) : Except IoError Node := do
  let s ← d.spot p
  match ← d.find s with
  | some (.file i) => if s.slash then throw .notDirectory else return .file i
  | some .directory => return .directory
  | none => throw .noSuchFile

def exists? (d : Disk) (p : Path) : Bool := (d.lookUp p).isOk

def isDirectory (d : Disk) (p : Path) : Bool :=
  match d.lookUp p with
  | .ok .directory => true
  | _ => false

end Disk

end Timeshift
