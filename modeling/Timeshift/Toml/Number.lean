import Timeshift.Text.Hex
import Timeshift.Toml.Reader

/-!
# Numbers of TOML

A whole number has to fit a signed word. One with a fraction or an exponent is only checked, as is
the name of an infinity or of no number.
-/

namespace Timeshift.Toml

/-- Digits, with single underscores between them that do not count. -/
def readMore (ok : Char → Bool) : List Char → List Char × List Char
  | '_' :: c :: rest =>
    if ok c then
      let (ds, rest) := readMore ok rest
      (c :: ds, rest)
    else ([], '_' :: c :: rest)
  | c :: rest =>
    if ok c then
      let (ds, rest) := readMore ok rest
      (c :: ds, rest)
    else ([], c :: rest)
  | [] => ([], [])

def readDigits (ok : Char → Bool) : Reader (List Char)
  | c :: rest =>
    if ok c then
      let (ds, rest) := readMore ok rest
      some (c :: ds, rest)
    else none
  | [] => none

def readSign : List Char → Bool × List Char
  | '-' :: rest => (true, rest)
  | '+' :: rest => (false, rest)
  | cs => (false, cs)

/-- A whole number without leading zeros. -/
def readWhole : Reader (List Char)
  | '0' :: rest => some (['0'], rest)
  | cs => readDigits (·.isDigit) cs

def ofDigits (base : Nat) (ds : List Char) : Nat :=
  ds.foldl (fun n c => n * base + (Text.hexValue? c).getD 0) 0

def fitsWord (n : Int) : Bool := -0x8000000000000000 ≤ n && n < 0x8000000000000000

def readRadix (base : Nat) (ok : Char → Bool) : Reader Toml := fun cs => do
  let (ds, rest) ← readDigits ok cs
  let n : Int := ofDigits base ds
  if fitsWord n then return (.integer n, rest) else none

def readInteger : Reader Toml
  | '0' :: 'x' :: rest => readRadix 16 (Text.hexValue? · |>.isSome) rest
  | '0' :: 'o' :: rest => readRadix 8 (fun c => '0' ≤ c && c ≤ '7') rest
  | '0' :: 'b' :: rest => readRadix 2 (fun c => c = '0' || c = '1') rest
  | cs => do
    let (negative, cs) := readSign cs
    let (ds, rest) ← readWhole cs
    let n : Int := ofDigits 10 ds
    let n := if negative then -n else n
    if fitsWord n then return (.integer n, rest) else none

/-- Whether `n · 10 ^ e` is nearer to the first power of two that a double cannot hold than to the
last double. -/
def overflows (n : Nat) (e : Int) : Bool :=
  let size := (Nat.toDigits 10 n).length + e
  if n = 0 || size < 300 then false
  else if 320 < size then true
  else
    let limit := Nat.pow 2 1024 - Nat.pow 2 970
    if 0 ≤ e then limit ≤ n * Nat.pow 10 e.toNat else limit * Nat.pow 10 (-e).toNat ≤ n

def readExponent : Reader Int
  | c :: rest => do
    if c ≠ 'e' && c ≠ 'E' then none
    let (negative, rest) := readSign rest
    let (ds, rest) ← readDigits (·.isDigit) rest
    let n : Int := ofDigits 10 ds
    return (if negative then -n else n, rest)
  | [] => none

def readFraction : Reader (List Char)
  | '.' :: rest => readDigits (·.isDigit) rest
  | _ => none

/-- A number with a fraction or an exponent. Above the range there is no value for it; below the
range there is. -/
def readDecimal : Reader Toml := fun cs => do
  let (negative, cs) := readSign cs
  let (whole, cs) ← readWhole cs
  let (fraction, exponent, rest) ←
    match readFraction cs with
    | some (fraction, cs) =>
      match readExponent cs with
      | some (e, rest) => some (fraction, e, rest)
      | none => some (fraction, 0, cs)
    | none => (readExponent cs).map fun (e, rest) => ([], e, rest)
  if !negative && overflows (ofDigits 10 (whole ++ fraction)) (exponent - fraction.length) then none
  return (.float, rest)

def readSpecial : Reader Toml := fun cs =>
  match (readSign cs).2 with
  | 'i' :: 'n' :: 'f' :: rest => some (.float, rest)
  | 'n' :: 'a' :: 'n' :: rest => some (.float, rest)
  | _ => none

end Timeshift.Toml
