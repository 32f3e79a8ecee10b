import Timeshift.Toml.Number

/-!
# Dates and times of TOML

A date, a time of day, or both with or without an offset. The fields are checked against the
calendar and then forgotten.
-/

namespace Timeshift.Toml

/-- Exactly `n` digits, as a number from `low` to `high`. -/
def readField (n low high : Nat) : Reader Nat := fun cs => do
  let ds := cs.take n
  if ds.length < n || !ds.all (·.isDigit) then none
  let v := ofDigits 10 ds
  if low ≤ v && v ≤ high then return (v, cs.drop n) else none

def isLeap (year : Nat) : Bool := year % 4 = 0 && (year % 100 ≠ 0 || year % 400 = 0)

def daysIn (year month : Nat) : Nat :=
  if month = 2 then if isLeap year then 29 else 28
  else if month ∈ [4, 6, 9, 11] then 30
  else 31

def skipDate (cs : List Char) : Option (List Char) := do
  let (year, cs) ← readField 4 0 9999 cs
  let (month, cs) ← readField 2 1 12 (← skipChar '-' cs)
  let (_, cs) ← readField 2 1 (daysIn year month) (← skipChar '-' cs)
  return cs

/-- A time of day; a leap second is possible. -/
def skipTime (cs : List Char) : Option (List Char) := do
  let (_, cs) ← readField 2 0 23 cs
  let (_, cs) ← readField 2 0 59 (← skipChar ':' cs)
  let (_, cs) ← readField 2 0 60 (← skipChar ':' cs)
  match cs with
  | '.' :: c :: rest => if c.isDigit then return rest.dropWhile (·.isDigit) else return cs
  | _ => return cs

def skipOffset (cs : List Char) : Option (List Char) :=
  match cs with
  | c :: rest => do
    if c = 'Z' || c = 'z' then return rest
    if c ≠ '+' && c ≠ '-' then return cs
    let (_, cs) ← readField 2 0 23 rest
    let (_, cs) ← readField 2 0 59 (← skipChar ':' cs)
    return cs
  | [] => some []

def readDatetime : Reader Toml := fun cs =>
  match skipDate cs with
  | some rest =>
    match rest with
    | c :: more =>
      if c = 'T' || c = 't' || c = ' ' then
        match skipTime more with
        | some rest => (skipOffset rest).map fun rest => (.datetime, rest)
        | none => some (.datetime, rest)
      else some (.datetime, rest)
    | [] => some (.datetime, [])
  | none => (skipTime cs).map fun rest => (.datetime, rest)

end Timeshift.Toml
