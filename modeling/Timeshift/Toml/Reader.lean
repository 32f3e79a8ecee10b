import Timeshift.Toml.Value

/-!
# Reading TOML

A reader takes a value off the front of a text, or gives `none` where there is none of its kind.
-/

namespace Timeshift.Toml

abbrev Reader (α : Type) := List Char → Option (α × List Char)

def isBlank (c : Char) : Bool := c = ' ' || c = '\t'

def skipBlank (cs : List Char) : List Char := cs.dropWhile isBlank

/-- What may stand in a comment and, but for quotes and backslashes, in a string. -/
def isPlain (c : Char) : Bool := c = '\t' || (0x20 ≤ c.toNat && c.toNat ≠ 0x7F)

def newline? : List Char → Option (List Char)
  | '\n' :: rest => some rest
  | '\r' :: '\n' :: rest => some rest
  | _ => none

def skipChar (c : Char) : List Char → Option (List Char)
  | d :: rest => if d = c then some rest else none
  | [] => none

end Timeshift.Toml
