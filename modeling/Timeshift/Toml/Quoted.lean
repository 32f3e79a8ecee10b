import Timeshift.Text.Hex
import Timeshift.Toml.Reader

/-!
# Strings of TOML

Between double quotes a backslash starts an escape, between single quotes every character is
itself. Three quotes open a string that may have several lines.
-/

namespace Timeshift.Toml

/-- The character whose number stands in the first `n` hexadecimal digits. -/
def readCode (n : Nat) : Reader Char := fun cs => do
  if cs.length < n then none
  let code ← (cs.take n).foldlM (fun code c => return code * 16 + (← Text.hexValue? c)) 0
  if code.isValidChar then return (Char.ofNat code, cs.drop n) else none

/-- What follows a backslash. -/
def readEscape : Reader Char
  | 'b' :: rest => some ('\x08', rest)
  | 't' :: rest => some ('\t', rest)
  | 'n' :: rest => some ('\n', rest)
  | 'f' :: rest => some ('\x0c', rest)
  | 'r' :: rest => some ('\r', rest)
  | '"' :: rest => some ('"', rest)
  | '\\' :: rest => some ('\\', rest)
  | 'u' :: rest => readCode 4 rest
  | 'U' :: rest => readCode 8 rest
  | _ => none

/-- Up to the quote that ends a string with escapes. The fuel is the length of the text. -/
def readBasic : Nat → Reader (List Char)
  | 0, _ => none
  | fuel + 1, cs =>
    match cs with
    | '"' :: rest => some ([], rest)
    | '\\' :: rest => do
      let (c, rest) ← readEscape rest
      let (s, rest) ← readBasic fuel rest
      return (c :: s, rest)
    | c :: rest => do
      if !isPlain c then none
      let (s, rest) ← readBasic fuel rest
      return (c :: s, rest)
    | [] => none

def readLiteral : Reader (List Char)
  | '\x27' :: rest => some ([], rest)
  | c :: rest => do
    if !isPlain c then none
    let (s, rest) ← readLiteral rest
    return (c :: s, rest)
  | [] => none

/-- Blanks and empty lines. The fuel is the length of the text. -/
def skipEmpty : Nat → List Char → List Char
  | 0, cs => cs
  | fuel + 1, cs =>
    match newline? (skipBlank cs) with
    | some rest => skipEmpty fuel rest
    | none => skipBlank cs

/-- What a backslash at the end of a line makes nothing of, if this is the end of a line. -/
def skipContinuation? (cs : List Char) : Option (List Char) :=
  (newline? (skipBlank cs)).map fun rest => skipEmpty (rest.length + 1) rest

/-- Up to three quotes in a row; up to two more quotes before them belong to the string. A line
break counts as one character however it is written. -/
def readLines (quote : Char) (escapes : Bool) : Nat → Reader (List Char)
  | 0, _ => none
  | fuel + 1, cs =>
    let quotes := cs.takeWhile (· = quote)
    if 3 ≤ quotes.length then
      let inside := min (quotes.length - 3) 2
      some (List.replicate inside quote, cs.drop (inside + 3))
    else
      match newline? cs with
      | some rest => (readLines quote escapes fuel rest).map fun (s, rest) => ('\n' :: s, rest)
      | none =>
        match cs with
        | [] => none
        | c :: rest => do
          if escapes && c = '\\' then
            match skipContinuation? rest with
            | some rest => readLines quote escapes fuel rest
            | none =>
              let (c, rest) ← readEscape rest
              let (s, rest) ← readLines quote escapes fuel rest
              return (c :: s, rest)
          else
            if !isPlain c then none
            let (s, rest) ← readLines quote escapes fuel rest
            return (c :: s, rest)

/-- A line break right after the opening quotes is not part of the string. -/
def dropNewline (cs : List Char) : List Char := (newline? cs).getD cs

def text (r : Option (List Char × List Char)) : Option (String × List Char) :=
  r.map fun (s, rest) => (String.ofList s, rest)

/-- A string on one line. -/
def readQuoted : Reader String
  | '"' :: rest => text (readBasic (rest.length + 1) rest)
  | '\x27' :: rest => text (readLiteral rest)
  | _ => none

def readString : Reader String
  | '"' :: '"' :: '"' :: rest => text (readLines '"' true (rest.length + 1) (dropNewline rest))
  | '\x27' :: '\x27' :: '\x27' :: rest =>
    text (readLines '\x27' false (rest.length + 1) (dropNewline rest))
  | cs => readQuoted cs

end Timeshift.Toml
