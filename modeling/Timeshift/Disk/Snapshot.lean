import Timeshift.Disk.Walk

/-!
# Snapshots

A disk made from what was found at the paths that a program is going to use, and the files that
differ after it has run.
-/

namespace Timeshift

/-- What was found at a path. -/
inductive Found
  | directory
  | file (bs : Bytes)

namespace Path

/-- The paths on the way to a path and the path itself, shortest first. -/
def approaches (p : Path) : List Path :=
  let start := if p.isAbsolute then ['/'] else []
  (List.range p.pieces.length).map fun k =>
    ⟨String.ofList (start ++ slashJoin (p.pieces.take (k + 1)))⟩

end Path

namespace Disk

/-- The place that a path names, seen from `here`. -/
def nameFrom (here : Name) (p : Path) : Name :=
  p.pieces.foldl (fun n piece =>
    if piece = ['.'] then n else if piece = ['.', '.'] then n.dropLast else n ++ [piece])
    (if p.isAbsolute then [] else here)

def empty (here : Name) : Disk := ⟨here, [], [], 0⟩

def addFound (d : Disk) (p : Path) : Found → Disk
  | .directory => { d with nodes := d.nodes.put (nameFrom d.here p) .directory }
  | .file bs =>
    if (d.node? (nameFrom d.here p)).isSome then d
    else { d with
      nodes := d.nodes.put (nameFrom d.here p) (.file d.next)
      files := d.files.put d.next { content := bs }
      next := d.next + 1 }

/-- The files of `after` that are not as they were, with what was there before. -/
def changes (before after : Disk) : List (Path × Option Bytes × Bytes) :=
  after.nodes.filterMap fun (n, node) =>
    match node with
    | .directory => none
    | .file i =>
      let path : Path := ⟨String.ofList ('/' :: slashJoin n)⟩
      match before.nodes.lookup n with
      | some (.file j) =>
        if before.content j = after.content i then none
        else some (path, some (before.content j), after.content i)
      | _ => some (path, none, after.content i)

end Disk

end Timeshift
