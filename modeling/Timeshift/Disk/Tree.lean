import Timeshift.Disk.Walk

/-!
# Directories and names

Making directories, removing and renaming, and the list of all that lies below the current
directory. None of these touches the content of a file.
-/

namespace Timeshift.Disk

/-! ## Making directories -/

def makeDirectory (d : Disk) (p : Path) : Except IoError Disk := do
  let s ← d.spot p
  match ← d.find s with
  | some _ => throw .fileExists
  | none => return { d with nodes := d.nodes.put s.name .directory }

/-- A directory that is there already is as good as a new one. -/
def ensureDirectory (d : Disk) (p : Path) : Except IoError Unit × Disk :=
  match d.makeDirectory p with
  | .ok d => (.ok (), d)
  | .error e => (if d.isDirectory p then .ok () else .error e, d)

/-- Makes the parents first where they are missing; those stay even if what comes after them fails.
The fuel bounds how many there are. -/
def ensureParents : Nat → Disk → Path → Except IoError Unit × Disk
  | 0, d, p => d.ensureDirectory p
  | fuel + 1, d, p =>
    if p.text = "" then (.ok (), d)
    else
      match d.makeDirectory p with
      | .ok d => (.ok (), d)
      | .error e =>
        if e.kind = .notFound then
          match p.parent? with
          | none => (.error ⟨.other, "failed to create whole tree"⟩, d)
          | some parent =>
            match ensureParents fuel d parent with
            | (.ok (), d) => d.ensureDirectory p
            | (.error e, d) => (.error e, d)
        else d.ensureDirectory p

/-- A path has fewer parents than it has characters. -/
def makeDirectories (d : Disk) (p : Path) : Except IoError Unit × Disk :=
  ensureParents (p.chars.length + 1) d p

/-! ## Removing and renaming -/

def remove (d : Disk) (p : Path) : Except IoError Disk := do
  let s ← d.spot p
  match ← d.find s with
  | some .directory => throw .isDirectory
  | some (.file _) =>
    if s.slash then throw .notDirectory
    return { d with nodes := d.nodes.erase s.name }
  | none => throw .noSuchFile

/-- The name `n`, moved along with `source` to `target` if it lies at or below `source`. -/
def moved (source target n : Name) : Name :=
  if source.isPrefixOf n then target ++ n.drop source.length else n

def move (d : Disk) (source target : Name) : Disk :=
  { d with nodes := (d.nodes.erase target).map fun (n, node) => (moved source target n, node) }

def hasEntries (d : Disk) (n : Name) : Bool :=
  d.nodes.any fun (m, _) => m.length = n.length + 1 && n.isPrefixOf m

/-- The name `p` becomes the name `q`, and what was at `q` loses it. A name of a file that is
already this file stays as it is. -/
def rename (d : Disk) (p q : Path) : Except IoError Disk := do
  if '\x00' ∈ q.chars then throw .nulByte
  let s ← d.spot p
  let t ← d.spot q
  if s.last.isNone || t.last.isNone then throw .busy
  let some source ← d.find s | throw .noSuchFile
  let target ← d.find t
  if source ≠ .directory && (s.slash || t.slash) then throw .notDirectory
  if source = .directory && s.name.isPrefixOf t.directory then throw .invalidArgument
  if t.name.isPrefixOf s.directory then throw .directoryNotEmpty
  match source, target with
  | .file i, some (.file j) => return if i = j then d else d.move s.name t.name
  | .file _, some .directory => throw .isDirectory
  | .directory, some (.file _) => throw .notDirectory
  | .directory, some .directory =>
    if s.name = t.name then return d
    if d.hasEntries t.name then throw .directoryNotEmpty
    return d.move s.name t.name
  | _, none => return d.move s.name t.name

/-! ## Listing -/

/-- A name below `directory`, shown from there. -/
def shown (directory n : Name) : List Char := slashJoin (n.drop directory.length)

/-- All below the current directory, sorted: files with their lengths, directories with a slash and
no length. -/
def listing (d : Disk) : List (String × Option Nat) :=
  let below := d.nodes.filter fun (n, _) => d.here.isPrefixOf n && n ≠ d.here
  let lines := below.map fun (n, node) =>
    match node with
    | .directory => (String.ofList (shown d.here n ++ ['/']), none)
    | .file i => (String.ofList (shown d.here n), some (d.content i).length)
  lines.mergeSort fun a b => a.1 ≤ b.1

end Timeshift.Disk
