import Timeshift.Toml.Datetime
import Timeshift.Toml.Quoted

/-!
# TOML documents

Keys and their values line by line, under the headers of the tables they belong to.
-/

namespace Timeshift.Toml

def skipComment : List Char → List Char
  | '#' :: rest => rest.dropWhile isPlain
  | cs => cs

/-- Blanks, comments and line breaks. The fuel is the length of the text. -/
def skipBreaks : Nat → List Char → List Char
  | 0, cs => cs
  | fuel + 1, cs =>
    let cs := skipComment (skipBlank cs)
    match newline? cs with
    | some rest => skipBreaks fuel rest
    | none => cs

def skipAll (cs : List Char) : List Char := skipBreaks (cs.length + 1) cs

/-- The end of a line that has nothing more to say. -/
def lineEnd? (cs : List Char) : Option (List Char) :=
  match skipComment (skipBlank cs) with
  | [] => some []
  | cs => newline? cs

/-! ## Keys -/

def isBare (c : Char) : Bool := c.isAlphanum || c = '_' || c = '-'

def readSimpleKey : Reader String := fun cs =>
  match cs with
  | '"' :: _ | '\x27' :: _ => readQuoted cs
  | _ =>
    match cs.takeWhile isBare with
    | [] => none
    | k => some (String.ofList k, cs.dropWhile isBare)

/-- The parts of a dotted key, with blanks around them. -/
def readKey : Nat → Reader (List String)
  | 0, _ => none
  | fuel + 1, cs => do
    let (k, cs) ← readSimpleKey (skipBlank cs)
    match skipBlank cs with
    | '.' :: rest =>
      let (ks, rest) ← readKey fuel rest
      return (k :: ks, rest)
    | rest => return ([k], rest)

/-- How deep values and keys may go. -/
def depthLimit : Nat := 80

/-- A dotted key as the path to it and its last part. -/
def readPath : Reader (List String) := fun cs => do
  let (ks, rest) ← readKey (cs.length + 1) cs
  if depthLimit ≤ ks.length then none
  return (ks, rest)

/-! ## Values -/

def readNumber : Reader Toml := fun cs =>
  readDatetime cs <|> readDecimal cs <|> readSpecial cs <|> readInteger cs

def readBoolean : Reader Toml
  | 't' :: 'r' :: 'u' :: 'e' :: rest => some (.boolean true, rest)
  | 'f' :: 'a' :: 'l' :: 's' :: 'e' :: rest => some (.boolean false, rest)
  | _ => none

mutual
/-- A value with at most `levels` brackets open at a time. Every second step takes a character, so
twice the length of the text is fuel enough. -/
def readValue (levels : Nat) : Nat → Reader Toml
  | 0, _ => none
  | fuel + 1, cs =>
    match cs with
    | '"' :: _ | '\x27' :: _ => (readString cs).map fun (s, rest) => (.string s, rest)
    | '[' :: rest =>
      if levels = 0 then none else readElements (levels - 1) fuel [] (skipAll rest)
    | '\x7b' :: rest =>
      if levels = 0 then none
      else
        match skipBlank rest with
        | '\x7d' :: rest => some (.inlineTable [], rest)
        | rest => readMembers (levels - 1) fuel [] rest
    | _ => readBoolean cs <|> readNumber cs
/-- The elements up to the closing bracket; a comma may follow the last. -/
def readElements (levels : Nat) : Nat → List Toml → Reader Toml
  | 0, _, _ => none
  | fuel + 1, xs, cs =>
    match cs with
    | ']' :: rest => some (.array xs.reverse, rest)
    | _ => do
      let (x, cs) ← readValue levels fuel cs
      match skipAll cs with
      | ',' :: rest => readElements levels fuel (x :: xs) (skipAll rest)
      | ']' :: rest => return (.array (x :: xs).reverse, rest)
      | _ => none
/-- The members up to the closing brace; no comma may follow the last. -/
def readMembers (levels : Nat) : Nat → Members → Reader Toml
  | 0, _, _ => none
  | fuel + 1, ms, cs => do
    let (ks, cs) ← readPath cs
    let (v, cs) ← readValue levels fuel (skipBlank (← skipChar '=' cs))
    let ms ← insert true ks.dropLast (ks.getLastD "") v ms
    match skipBlank cs with
    | ',' :: rest => readMembers levels fuel ms rest
    | '\x7d' :: rest => return (.inlineTable ms, rest)
    | _ => none
end

/-! ## Lines -/

/-- The tables so far, and the section that is being read. -/
structure State where
  root : Members := []
  header : Header := .top
  /-- Latest first. -/
  keys : List (List String × String × Toml) := []

def State.close (s : State) : Option Members := addSection s.header s.keys.reverse s.root

def readHeader : Reader Header
  | '[' :: '[' :: rest => do
    let (path, rest) ← readPath rest
    match rest with
    | ']' :: ']' :: rest => return (.element path, rest)
    | _ => none
  | '[' :: rest => do
    let (path, rest) ← readPath rest
    return (.table path, ← skipChar ']' rest)
  | _ => none

def readKeyValue : Reader (List String × String × Toml) := fun cs => do
  let (ks, cs) ← readPath cs
  let cs := skipBlank (← skipChar '=' cs)
  let (v, cs) ← readValue (depthLimit - 1) (2 * cs.length + 2) cs
  return ((ks.dropLast, ks.getLastD "", v), cs)

def readSections : Nat → State → List Char → Option Members
  | 0, _, _ => none
  | fuel + 1, s, cs =>
    match skipAll cs with
    | [] => s.close
    | '[' :: rest => do
      let root ← s.close
      let (header, cs) ← readHeader ('[' :: rest)
      readSections fuel { root, header } (← lineEnd? cs)
    | cs => do
      let (key, cs) ← readKeyValue cs
      readSections fuel { s with keys := key :: s.keys } (← lineEnd? cs)

/-- The top table of a document. A byte order mark in front is not part of it. -/
def ofText (document : String) : Option Members :=
  let cs := document.toList
  let cs := if cs.head? = some '\uFEFF' then cs.drop 1 else cs
  readSections (cs.length + 1) {} cs

end Timeshift.Toml
