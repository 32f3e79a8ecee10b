/-!
# Hexadecimal digits

Written small, and read in either case.
-/

namespace Timeshift.Text

def hexDigit (n : Nat) : Char := Nat.digitChar (n % 16)

def hexDigits (n : Nat) : List Char := Nat.toDigits 16 n

def hexValue? (c : Char) : Option Nat :=
  if '0' ≤ c && c ≤ '9' then some (c.toNat - '0'.toNat)
  else if 'a' ≤ c && c ≤ 'f' then some (c.toNat - 'a'.toNat + 10)
  else if 'A' ≤ c && c ≤ 'F' then some (c.toNat - 'A'.toNat + 10)
  else none

end Timeshift.Text
