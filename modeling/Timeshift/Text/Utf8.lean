/-!
# UTF-8

Text as the bytes a file holds. Reading is strict, and refuses a text with one ill-formed byte;
`lossy` is for messages only, and shows something for every byte string.
-/

namespace Timeshift

abbrev Bytes := List UInt8

namespace Utf8

def encode (s : String) : Bytes := s.toByteArray.data.toList

def decode? (bs : Bytes) : Option String := String.fromUTF8? ⟨bs.toArray⟩

theorem decode?_encode (s : String) : decode? (encode s) = some s := by
  have h : (⟨(encode s).toArray⟩ : ByteArray) = s.toByteArray := by simp [encode]
  simp only [decode?, h, String.fromUTF8?, s.isValidUTF8, dite_true]
  rfl

theorem decode?_eq_some {bs : Bytes} {s : String} : decode? bs = some s ↔ bs = encode s := by
  constructor
  · intro h
    unfold decode? String.fromUTF8? at h
    split at h
    · cases h
      simp [encode, String.fromUTF8]
    · cases h
  · rintro rfl
    exact decode?_encode s

/-! ## Ill-formed text -/

def isTail (b : UInt8) : Bool := 0x80 ≤ b && b ≤ 0xBF

/-- The second byte of a sequence: some first bytes leave less than the full range of tails, so that
no character has two encodings and no surrogate has one. -/
def isSecond (a b : UInt8) : Bool :=
  if a = 0xE0 then 0xA0 ≤ b && b ≤ 0xBF
  else if a = 0xED then 0x80 ≤ b && b ≤ 0x9F
  else if a = 0xF0 then 0x90 ≤ b && b ≤ 0xBF
  else if a = 0xF4 then 0x80 ≤ b && b ≤ 0x8F
  else isTail b

/-- The bytes of a sequence, led by a byte that starts with a mark of `skip`. -/
def join (skip : Nat) (a : UInt8) (tails : List UInt8) : Char :=
  Char.ofNat (tails.foldl (fun n b => n * 64 + (b.toNat - 0x80)) (a.toNat - skip))

def replacement : Char := '\uFFFD'

/-- Each maximal ill-formed part becomes one replacement character. -/
def lossy : Bytes → List Char
  | [] => []
  | a :: r =>
    if a < 0x80 then Char.ofNat a.toNat :: lossy r
    else if 0xC2 ≤ a && a ≤ 0xDF then
      match r with
      | b :: r₁ => if isTail b then join 0xC0 a [b] :: lossy r₁ else replacement :: lossy (b :: r₁)
      | [] => [replacement]
    else if 0xE0 ≤ a && a ≤ 0xEF then
      match r with
      | b :: r₁ =>
        if isSecond a b then
          match r₁ with
          | c :: r₂ =>
            if isTail c then join 0xE0 a [b, c] :: lossy r₂ else replacement :: lossy (c :: r₂)
          | [] => [replacement]
        else replacement :: lossy (b :: r₁)
      | [] => [replacement]
    else if 0xF0 ≤ a && a ≤ 0xF4 then
      match r with
      | b :: r₁ =>
        if isSecond a b then
          match r₁ with
          | c :: r₂ =>
            if isTail c then
              match r₂ with
              | d :: r₃ =>
                if isTail d then join 0xF0 a [b, c, d] :: lossy r₃
                else replacement :: lossy (d :: r₃)
              | [] => [replacement]
            else replacement :: lossy (c :: r₂)
          | [] => [replacement]
        else replacement :: lossy (b :: r₁)
      | [] => [replacement]
    else replacement :: lossy r

end Utf8

end Timeshift
