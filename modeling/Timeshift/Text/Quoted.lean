import Timeshift.Text.Hex
import Timeshift.Text.Visible

/-!
# Quoted text

A text between quotes in which every character can be seen: what would not show, or would change its
neighbour, stands as its number.
-/

namespace Timeshift.Text

def showChar (c : Char) : List Char :=
  if c = '\x00' then ['\\', '0']
  else if c = '\t' then ['\\', 't']
  else if c = '\n' then ['\\', 'n']
  else if c = '\r' then ['\\', 'r']
  else if c = '"' || c = '\\' then ['\\', c]
  else if isExtender c || !isPrintable c then
    ['\\', 'u', '\x7b'] ++ hexDigits c.toNat ++ ['\x7d']
  else [c]

def quoted (s : String) : String :=
  String.ofList ('"' :: (s.toList.flatMap showChar ++ ['"']))

end Timeshift.Text
