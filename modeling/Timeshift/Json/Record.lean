import Timeshift.Json.Reader

/-!
# Arrays and records of JSON

A record is an object with its fields in any order, or an array of its fields in their order. A
field may be given once.
-/

namespace Timeshift.Json

section
variable {σ : Type}

/-- The elements up to the closing bracket, each read by `step` into what is held so far. -/
def readElements (step : σ → Reader σ) : Nat → σ → Reader σ
  | 0, _, _ => .error .malformed
  | fuel + 1, s, cs => do
    let (s, cs) ← step s cs
    match skipBlank cs with
    | ',' :: rest => readElements step fuel s rest
    | ']' :: rest => return (s, rest)
    | _ => throw .malformed

def readArray (step : σ → Reader σ) (s : σ) : Reader σ := fun cs =>
  match skipBlank cs with
  | '[' :: rest =>
    match skipBlank rest with
    | ']' :: rest => .ok (s, rest)
    | _ => readElements step rest.length s rest
  | _ => .error .malformed

def readMembers (step : String → σ → Reader σ) : Nat → σ → Reader σ
  | 0, _, _ => .error .malformed
  | fuel + 1, s, cs => do
    let (k, cs) ← readString cs
    match skipBlank cs with
    | ':' :: cs => do
      let (s, cs) ← step k s cs
      match skipBlank cs with
      | ',' :: rest => readMembers step fuel s rest
      | '\x7d' :: rest => return (s, rest)
      | _ => throw .malformed
    | _ => throw .malformed

def readObject (step : String → σ → Reader σ) (s : σ) : Reader σ := fun cs =>
  match skipBlank cs with
  | '\x7b' :: rest =>
    match skipBlank rest with
    | '\x7d' :: rest => .ok (s, rest)
    | _ => readMembers step rest.length s rest
  | _ => .error .malformed

/-- The next field of a record that is written as an array. -/
def readNext (step : String → σ → Reader σ) : σ × List String → Reader (σ × List String)
  | (_, []), _ => .error .malformed
  | (s, k :: ks), cs => (step k s cs).map fun (s, rest) => ((s, ks), rest)

/-- A record with the given fields in either form. -/
def readRecord (fields : List String) (step : String → σ → Reader σ) (s : σ) : Reader σ := fun cs =>
  match skipBlank cs with
  | '[' :: _ => (readArray (readNext step) (s, fields) cs).map fun ((s, _), rest) => (s, rest)
  | _ => readObject step s cs

end

/-- A field that has not been given before. -/
def readOnce (given : Bool) (read : Reader α) : Reader α := fun cs =>
  if given then .error .malformed else read cs

def orMissing : Option α → Except Flaw α
  | some a => .ok a
  | none => .error .malformed

end Timeshift.Json
