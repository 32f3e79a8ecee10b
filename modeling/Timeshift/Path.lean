/-!
# Paths

A path is text, kept as it was given; these are the questions asked of it without a disk. Repeated
slashes, slashes at the end and pieces `.` do not count, but for a `.` that the path starts with.
-/

namespace Timeshift

/-- The parts between the slashes, empty ones included. -/
def slashSplit : List Char → List (List Char)
  | [] => [[]]
  | c :: cs =>
    if c = '/' then [] :: slashSplit cs
    else
      match slashSplit cs with
      | p :: ps => (c :: p) :: ps
      | [] => [[c]]

def slashJoin : List (List Char) → List Char
  | [] => []
  | [p] => p
  | p :: q :: ps => p ++ '/' :: slashJoin (q :: ps)

theorem slashSplit_ne_nil (cs : List Char) : slashSplit cs ≠ [] := by
  cases cs with
  | nil => simp [slashSplit]
  | cons c cs =>
    simp only [slashSplit]
    split
    · simp
    · split <;> simp

theorem slashJoin_slashSplit (cs : List Char) : slashJoin (slashSplit cs) = cs := by
  induction cs with
  | nil => rfl
  | cons c cs ih =>
    obtain ⟨p, ps, hp⟩ := List.exists_cons_of_ne_nil (slashSplit_ne_nil cs)
    rw [hp] at ih
    by_cases hc : c = '/'
    · subst hc
      simp [slashSplit, hp, slashJoin, ih]
    · cases ps with
      | nil => simp_all [slashSplit, slashJoin]
      | cons q qs => simp_all [slashSplit, slashJoin]

structure Path where
  text : String
  deriving DecidableEq

namespace Path

instance : ToString Path := ⟨text⟩

def chars (p : Path) : List Char := p.text.toList

def isAbsolute (p : Path) : Bool := p.chars.head? = some '/'

def isRelative (p : Path) : Bool := !p.isAbsolute

/-- What a path starts from: the root, the current directory by name, or nothing. -/
def lead (p : Path) : List Char :=
  match p.chars with
  | '/' :: _ => ['/']
  | ['.'] => ['.']
  | '.' :: '/' :: _ => ['.']
  | _ => []

/-- The pieces after the lead, as they stand in the text. -/
def body (p : Path) : List (List Char) := slashSplit (p.chars.drop p.lead.length)

/-- A piece that names nothing. -/
def isTrivial (piece : List Char) : Bool := piece = [] || piece = ['.']

def dropTrivial (pieces : List (List Char)) : List (List Char) :=
  (pieces.reverse.dropWhile isTrivial).reverse

/-- The pieces that count. Two paths are equal as paths if they have the same lead and names. -/
def names (p : Path) : List (List Char) := p.body.filter (!isTrivial ·)

def Same (p q : Path) : Prop := p.lead = q.lead ∧ p.names = q.names

instance (p q : Path) : Decidable (Same p q) := inferInstanceAs (Decidable (_ ∧ _))

/-- The path without its last name; the root has none, nor has the empty path. -/
def parent? (p : Path) : Option Path :=
  match dropTrivial p.body with
  | [] => if p.lead = ['.'] then some ⟨""⟩ else none
  | pieces => some ⟨String.ofList (p.lead ++ slashJoin (dropTrivial pieces.dropLast))⟩

def fileNameChars? (p : Path) : Option (List Char) :=
  p.names.getLast?.filter (· ≠ ['.', '.'])

def fileName? (p : Path) : Option String := p.fileNameChars?.map String.ofList

/-- The part before the last dot and the part after it. A dot in front starts no extension. -/
def splitExtension (name : List Char) : List Char × Option (List Char) :=
  let after := name.reverse.takeWhile (· ≠ '.')
  match name.reverse.dropWhile (· ≠ '.') with
  | [] | ['.'] => (name, none)
  | _ :: before => (before.reverse, some after.reverse)

def extension? (p : Path) : Option String :=
  p.fileNameChars?.bind fun name => (splitExtension name).2.map String.ofList

/-- The path without as many characters at its end as its extension has. -/
def cutExtension (p : Path) : Path :=
  match p.extension? with
  | some e => ⟨String.ofList (p.chars.take (p.chars.length - e.length))⟩
  | none => p

/-- The same file name up to its extension, then a dot and `extension`. What follows the name in the
text is dropped. A path without a file name stays as it is; the name `..x` is none once its
extension is cut off, and stays cut. -/
def withExtension (p : Path) (extension : String) : Path :=
  let cut := p.cutExtension
  match cut.fileNameChars? with
  | none => cut
  | some name =>
    let name := (splitExtension name).1 ++ '.' :: extension.toList
    ⟨String.ofList (cut.lead ++ slashJoin ((dropTrivial cut.body).dropLast ++ [name]))⟩

/-- The path `q` taken from the directory `p`. -/
def join (p q : Path) : Path :=
  if q.isAbsolute then q
  else if p.text = "" || p.chars.getLast? = some '/' then ⟨p.text ++ q.text⟩
  else ⟨p.text ++ "/" ++ q.text⟩

/-- The index of a segment lies beside it: its full name, a dot and the list's extension. -/
def indexPath (p : Path) (extension : String) : Path := ⟨p.text ++ "." ++ extension⟩

end Path

end Timeshift
