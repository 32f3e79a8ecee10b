import Timeshift.Text.Hex

/-!
# JSON text

Values and their indented form: two spaces a level, one element or member a line, nothing inside an
empty pair of brackets and no line break at the end.
-/

namespace Timeshift

inductive Json
  | null
  | bool (b : Bool)
  | number (n : Nat)
  | string (s : String)
  | array (elements : List Json)
  | object (members : List (String × Json))

namespace Json

/-! ## Strings -/

/-- Only what a string cannot hold as it is gets escaped: the quote, the backslash and the controls
below the space. -/
def escape (c : Char) : List Char :=
  if c = '"' then ['\\', '"']
  else if c = '\\' then ['\\', '\\']
  else if c = '\x08' then ['\\', 'b']
  else if c = '\x0c' then ['\\', 'f']
  else if c = '\n' then ['\\', 'n']
  else if c = '\r' then ['\\', 'r']
  else if c = '\t' then ['\\', 't']
  else if c.toNat < 0x20 then
    ['\\', 'u', '0', '0', Text.hexDigit (c.toNat / 16), Text.hexDigit c.toNat]
  else [c]

def quote (s : String) : List Char := '"' :: (s.toList.flatMap escape ++ ['"'])

/-! ## The indented form -/

def newline (depth : Nat) : List Char := '\n' :: List.replicate (2 * depth) ' '

mutual
def lines (depth : Nat) : Json → List Char
  | .null => "null".toList
  | .bool true => "true".toList
  | .bool false => "false".toList
  | .number n => Nat.toDigits 10 n
  | .string s => quote s
  | .array [] => "[]".toList
  | .array (x :: xs) =>
    '[' :: newline (depth + 1) ++ lines (depth + 1) x ++ elementLines depth xs
  | .object [] => "\x7b\x7d".toList
  | .object ((k, x) :: xs) =>
    '\x7b' :: newline (depth + 1) ++ (quote k ++ ':' :: ' ' :: lines (depth + 1) x) ++
      memberLines depth xs
def elementLines (depth : Nat) : List Json → List Char
  | [] => newline depth ++ [']']
  | x :: xs => ',' :: newline (depth + 1) ++ lines (depth + 1) x ++ elementLines depth xs
def memberLines (depth : Nat) : List (String × Json) → List Char
  | [] => newline depth ++ ['\x7d']
  | (k, x) :: xs =>
    ',' :: newline (depth + 1) ++ (quote k ++ ':' :: ' ' :: lines (depth + 1) x) ++
      memberLines depth xs
end

def pretty (x : Json) : String := String.ofList (x.lines 0)

/-- A value that may be missing. -/
def optional (f : α → Json) : Option α → Json
  | some a => f a
  | none => .null

end Json

end Timeshift
