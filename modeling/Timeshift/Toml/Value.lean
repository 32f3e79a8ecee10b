/-!
# TOML values and tables

A table knows how it came to be, because that decides what may still be added to it: a table with a
header of its own takes no second header, and dotted keys extend only tables that dotted keys made.
-/

namespace Timeshift

/-- How a table came to be. -/
inductive Toml.Origin
  /-- By a header of its own. -/
  | header
  /-- As a part of the path in the header of another table. -/
  | implied
  /-- As a part of a dotted key. -/
  | dotted
  deriving DecidableEq

/-- No setting is a number with a fraction or a date, so these have no content. -/
inductive Toml
  | string (s : String)
  | integer (n : Int)
  | float
  | boolean (b : Bool)
  | datetime
  | array (elements : List Toml)
  | inlineTable (members : List (String × Toml))
  | table (origin : Toml.Origin) (members : List (String × Toml))
  /-- An array of tables that have headers. -/
  | tables (elements : List (List (String × Toml)))

namespace Toml

abbrev Members := List (String × Toml)

/-- Changes what stands under a key, or adds it. -/
def alter (k : String) (f : Option Toml → Option Toml) : Members → Option Members
  | [] => do return [(k, ← f none)]
  | (k₁, v) :: ms => do
    if k₁ = k then return (k, ← f (some v)) :: ms
    return (k₁, v) :: (← alter k f ms)

def member? (ms : Members) (k : String) : Option Toml := ms.lookup k

/-- Changes the last table of an array of tables. -/
def alterLast (f : Members → Option Members) (ts : List Members) : Option Toml := do
  let last ← ts.getLast?
  return .tables (ts.dropLast ++ [← f last])

/-- Gives a dotted key a value. `takesKeys` says whether this table may get keys in this way. -/
def insert (takesKeys : Bool) : List String → String → Toml → Members → Option Members
  | [], k, v, ms =>
    if takesKeys then alter k (fun old => if old.isSome then none else some v) ms else none
  | p :: path, k, v, ms =>
    alter p (fun
      | none => (insert true path k v []).map (table .dotted)
      | some (.table .header _) => none
      | some (.table o sub) => (insert (o = .dotted) path k v sub).map (table o)
      | some (.tables ts) => alterLast (insert false path k v) ts
      | some _ => none) ms

def insertAll : List (List String × String × Toml) → Members → Option Members
  | [], ms => some ms
  | (path, k, v) :: rest, ms => insert true path k v ms >>= insertAll rest

/-- Changes what stands at the end of the path of a header. -/
def alterAt (f : Option Toml → Option Toml) : List String → Members → Option Members
  | [], _ => none
  | [k], ms => alter k f ms
  | k :: p :: path, ms =>
    alter k (fun
      | none => (alterAt f (p :: path) []).map (table .implied)
      | some (.table o sub) => (alterAt f (p :: path) sub).map (table o)
      | some (.tables ts) => alterLast (alterAt f (p :: path)) ts
      | some _ => none) ms

inductive Header
  /-- The start of the document, before any header. -/
  | top
  | table (path : List String)
  | element (path : List String)

/-- Adds the keys that stand under a header. -/
def addSection (header : Header) (keys : List (List String × String × Toml)) (root : Members) :
    Option Members :=
  match header with
  | .top => insertAll keys root
  | .table path =>
    alterAt (fun
      | none => (insertAll keys []).map (table .header)
      | some (.table .implied ms) => (insertAll keys ms).map (table .header)
      | some _ => none) path root
  | .element path => do
    let new ← insertAll keys []
    alterAt (fun
      | none => some (.tables [new])
      | some (.tables ts) => some (.tables (ts ++ [new]))
      | some _ => none) path root

end Toml

end Timeshift
