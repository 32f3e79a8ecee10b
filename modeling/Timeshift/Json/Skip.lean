import Timeshift.Json.Reader

/-!
# Skipping JSON

What stands under an unknown key has only to be well formed. It may nest to any depth, its numbers
may have any size, and its surrogates need no partner.
-/

namespace Timeshift.Json

/-- Past the closing quote of a string that nobody reads. Escapes have only to be complete. -/
def skipChars : List Char → Option (List Char)
  | '"' :: rest => some rest
  | '\\' :: 'u' :: a :: b :: c :: d :: rest =>
    if (codeUnit? a b c d).isSome then skipChars rest else none
  | '\\' :: c :: rest => if (simpleEscape? c).isSome then skipChars rest else none
  | c :: rest => if c = '\\' || c.toNat < 0x20 then none else skipChars rest
  | [] => none

def skipDigits (cs : List Char) : Option (List Char) :=
  match cs with
  | c :: _ => if c.isDigit then some (cs.dropWhile (·.isDigit)) else none
  | [] => none

def skipWhole : List Char → Option (List Char)
  | '0' :: rest => if (skipDigits rest).isSome then none else some rest
  | cs => skipDigits cs

def skipFraction : List Char → Option (List Char)
  | '.' :: rest => skipDigits rest
  | cs => some cs

def skipExponent : List Char → Option (List Char)
  | c :: rest =>
    if c = 'e' || c = 'E' then
      match rest with
      | s :: more => skipDigits (if s = '+' || s = '-' then more else rest)
      | [] => none
    else some (c :: rest)
  | [] => some []

def skipNumber (cs : List Char) : Option (List Char) :=
  let cs := if cs.head? = some '-' then cs.drop 1 else cs
  skipWhole cs >>= skipFraction >>= skipExponent

/-- What may come next in a skipped value. -/
inductive Expect
  | value
  | firstElement
  | firstKey
  | key
  | afterValue

/-- Skips a value with the brackets still open in `stack`, `true` for an object. Every step goes
past a character, so the length of the text is fuel enough. -/
def skipFrom : Nat → Expect → List Bool → List Char → Option (List Char)
  | 0, _, _, _ => none
  | fuel + 1, expect, stack, cs =>
    match expect, stack, skipBlank cs with
    | .afterValue, [], _ => some cs
    | .afterValue, true :: stack, '\x7d' :: rest => skipFrom fuel .afterValue stack rest
    | .afterValue, true :: stack, ',' :: rest => skipFrom fuel .key (true :: stack) rest
    | .afterValue, false :: stack, ']' :: rest => skipFrom fuel .afterValue stack rest
    | .afterValue, false :: stack, ',' :: rest => skipFrom fuel .value (false :: stack) rest
    | .firstElement, _ :: stack, ']' :: rest => skipFrom fuel .afterValue stack rest
    | .firstKey, _ :: stack, '\x7d' :: rest => skipFrom fuel .afterValue stack rest
    | .firstKey, stack, '"' :: rest | .key, stack, '"' :: rest =>
      match (skipChars rest).map skipBlank with
      | some (':' :: rest) => skipFrom fuel .value stack rest
      | _ => none
    | .firstElement, stack, cs | .value, stack, cs =>
      match cs with
      | '[' :: rest => skipFrom fuel .firstElement (false :: stack) rest
      | '\x7b' :: rest => skipFrom fuel .firstKey (true :: stack) rest
      | '"' :: rest => (skipChars rest).bind (skipFrom fuel .afterValue stack)
      | 't' :: 'r' :: 'u' :: 'e' :: rest => skipFrom fuel .afterValue stack rest
      | 'f' :: 'a' :: 'l' :: 's' :: 'e' :: rest => skipFrom fuel .afterValue stack rest
      | 'n' :: 'u' :: 'l' :: 'l' :: rest => skipFrom fuel .afterValue stack rest
      | _ => (skipNumber cs).bind (skipFrom fuel .afterValue stack)
    | _, _, _ => none

def skipValue (cs : List Char) : Except Flaw (List Char) :=
  match skipFrom (cs.length + 1) .value [] cs with
  | some rest => .ok rest
  | none => .error .malformed

end Timeshift.Json
