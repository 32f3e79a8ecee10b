import Timeshift.Error
import Timeshift.Text.Hex

/-!
# Reading JSON

A document is read in order into the type that is wanted, and the first flaw ends the reading. Here
are strings, whole numbers and truth values.
-/

namespace Timeshift.Json

inductive Flaw
  /-- Not JSON, or not of the shape that is wanted. -/
  | malformed
  /-- The shape is right, and the value is refused by its type. -/
  | refused (cause : Error)
  deriving DecidableEq

def Flaw.message : Flaw → String
  | .malformed => "<json>"
  | .refused cause => cause.message

/-- A reader takes a value off the front of a text. -/
abbrev Reader (α : Type) := List Char → Except Flaw (α × List Char)

def isBlank (c : Char) : Bool := c = ' ' || c = '\t' || c = '\n' || c = '\r'

def skipBlank (cs : List Char) : List Char := cs.dropWhile isBlank

/-! ## Strings -/

/-- The code unit of four hexadecimal digits. -/
def codeUnit? (a b c d : Char) : Option Nat := do
  let high := (← Text.hexValue? a) * 16 + (← Text.hexValue? b)
  let low := (← Text.hexValue? c) * 16 + (← Text.hexValue? d)
  return high * 256 + low

def isLeading (u : Nat) : Bool := 0xD800 ≤ u && u ≤ 0xDBFF

def isTrailing (u : Nat) : Bool := 0xDC00 ≤ u && u ≤ 0xDFFF

/-- The character of a pair of surrogates. -/
def pairChar (u v : Nat) : Char := Char.ofNat (0x10000 + (u - 0xD800) * 0x400 + (v - 0xDC00))

def simpleEscape? : Char → Option Char
  | '"' => some '"'
  | '\\' => some '\\'
  | '/' => some '/'
  | 'b' => some '\x08'
  | 'f' => some '\x0c'
  | 'n' => some '\n'
  | 'r' => some '\r'
  | 't' => some '\t'
  | _ => none

def push (c : Char) : Except Flaw (List Char × List Char) → Except Flaw (List Char × List Char) :=
  Except.map fun (s, rest) => (c :: s, rest)

/-- The characters up to the closing quote. A surrogate counts only as half of a pair. -/
def readChars : List Char → Except Flaw (List Char × List Char)
  | '"' :: rest => .ok ([], rest)
  | '\\' :: 'u' :: a :: b :: c :: d :: rest =>
    match codeUnit? a b c d with
    | none => .error .malformed
    | some u =>
      if isLeading u then
        match rest with
        | '\\' :: 'u' :: e :: f :: g :: h :: rest =>
          match codeUnit? e f g h with
          | some v =>
            if isTrailing v then push (pairChar u v) (readChars rest) else .error .malformed
          | none => .error .malformed
        | _ => .error .malformed
      else if isTrailing u then .error .malformed
      else push (Char.ofNat u) (readChars rest)
  | '\\' :: c :: rest =>
    match simpleEscape? c with
    | some c => push c (readChars rest)
    | none => .error .malformed
  | c :: rest =>
    if c = '\\' || c.toNat < 0x20 then .error .malformed else push c (readChars rest)
  | [] => .error .malformed

def readString : Reader String := fun cs =>
  match skipBlank cs with
  | '"' :: rest => (readChars rest).map fun (s, rest) => (String.ofList s, rest)
  | _ => .error .malformed

/-! ## Numbers and truth values -/

def continuesNumber : List Char → Bool
  | c :: _ => c = '.' || c = 'e' || c = 'E'
  | [] => false

/-- A whole number below `bound`, written without sign, fraction, exponent or leading zeros. -/
def readNat (bound : Nat) : Reader Nat := fun cs =>
  let cs := skipBlank cs
  let digits := cs.takeWhile (·.isDigit)
  let rest := cs.dropWhile (·.isDigit)
  let n := Nat.ofDigitChars 10 digits 0
  if digits = [] || (digits.head? = some '0' && digits ≠ ['0']) || continuesNumber rest || bound ≤ n
  then .error .malformed
  else .ok (n, rest)

def readWord : Reader UInt64 := fun cs =>
  (readNat UInt64.size cs).map fun (n, rest) => (UInt64.ofNat n, rest)

def readBool : Reader Bool := fun cs =>
  match skipBlank cs with
  | 't' :: 'r' :: 'u' :: 'e' :: rest => .ok (true, rest)
  | 'f' :: 'a' :: 'l' :: 's' :: 'e' :: rest => .ok (false, rest)
  | _ => .error .malformed

/-! ## Whole texts -/

def readAll (read : Reader α) (text : String) : Except Flaw α := do
  let (a, rest) ← read text.toList
  if skipBlank rest = [] then return a else throw .malformed

end Timeshift.Json
