import Timeshift.Config

/-!
# Failures of a command

What a command tells when it fails: what it was about to do, and below it what got in the way, from
the outside to the inside.
-/

namespace Timeshift

structure Failure where
  message : String
  causes : List String := []
  deriving DecidableEq

namespace Failure

/-- An error and what caused it: an error of the operating system is told once more on its own. -/
def chain : Error → List String
  | .io cause => [Error.message (.io cause), cause.text]
  | e => [e.message]

def ofError (e : Error) : Failure := ⟨e.message, (chain e).drop 1⟩

def ofConfig (e : ConfigError) : Failure := ⟨e.message, e.cause?.toList⟩

def during (what : String) (e : Error) : Failure := ⟨what, chain e⟩

/-- A cause, with its further lines as far in as its first. -/
def causeLines (first next : String) (cause : String) : List String :=
  match cause.splitOn "\n" with
  | [] => []
  | line :: more => (first ++ line) :: more.map (next ++ ·)

def numbered (n : Nat) (causes : List String) : List (String × String) :=
  causes.zipIdx n |>.map fun (cause, i) =>
    (String.ofList ((toString i).toList.leftpad 5 ' ') ++ ": ", cause)

def lines (f : Failure) : List String :=
  let head := (s!"Error: {f.message}").splitOn "\n"
  match f.causes with
  | [] => head
  | [cause] => head ++ ["", "Caused by:"] ++ causeLines "    " "    " cause
  | causes =>
    head ++ ["", "Caused by:"] ++
      (numbered 0 causes).flatMap fun (first, cause) => causeLines first "       " cause

end Failure

end Timeshift
