import Timeshift.Disk.Open
import Timeshift.Disk.Tree

/-!
# Replacing a file

New content goes to a temporary file that takes the name when it is complete. The work is a list of
effects, so that it can be looked at cut short after any of them.
-/

namespace Timeshift

inductive Effect
  /-- Opens an empty file; the effects after it write to this one. -/
  | create (path : Path)
  | append (bs : Bytes)
  | sync
  | rename (source target : Path)
  deriving DecidableEq

namespace Effect

/-- A disk and the file that is being written. -/
abbrev State := Disk × FileId

def run (s : State) : Effect → Except Error Unit × State
  | .create path =>
    match s.1.create path with
    | .ok (i, d) => (.ok (), d, i)
    | .error e => (.error (.ofOpening path e), s)
  | .append bs =>
    let (result, d) := s.1.append s.2 bs
    (result.mapError .io, d, s.2)
  | .sync => ((s.1.sync s.2).mapError .io, s)
  | .rename source target =>
    match s.1.rename source target with
    | .ok d => (.ok (), d, s.2)
    | .error e => (.error (.io e), s)

/-- Runs effects in order up to the first that fails. -/
def runAll (s : State) : List Effect → Except Error Unit × State
  | [] => (.ok (), s)
  | e :: es =>
    match e.run s with
    | (.ok (), s) => runAll s es
    | (.error err, s) => (.error err, s)

/-- The effects that give `path` the content `bs` by way of `temporary`. -/
def replacing (path temporary : Path) (bs : Bytes) : List Effect :=
  [.create temporary, .append bs, .sync, .rename temporary path]

end Effect

namespace Disk

/-- Gives the file at `path` the content `bs` by way of `temporary`. -/
def replace (d : Disk) (path temporary : Path) (bs : Bytes) : Except Error Unit × Disk :=
  let (result, d, _) := Effect.runAll (d, d.next) (Effect.replacing path temporary bs)
  (result, d)

end Disk

end Timeshift
