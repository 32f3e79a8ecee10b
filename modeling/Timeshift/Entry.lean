import Timeshift.Text.Utf8

/-!
# Entries

An index file has no header and no framing: it is a dense row of records of 16 bytes, a timestamp
and an offset with their lowest byte first. Reading the records one after another and seeking to the
`i`-th give the same entries (`readMany_getElem?`).
-/

namespace Timeshift

/-! ## Words of bytes -/

namespace Word

/-- The lowest `k` bytes of `n`, lowest first. -/
def bytes : Nat → Nat → Bytes
  | 0, _ => []
  | k + 1, n => UInt8.ofNat (n % 256) :: bytes k (n / 256)

def value : Bytes → Nat
  | [] => 0
  | b :: bs => b.toNat + 256 * value bs

/-- How many values `k` bytes can have. -/
def count : Nat → Nat
  | 0 => 1
  | k + 1 => 256 * count k

@[simp] theorem length_bytes (k n : Nat) : (bytes k n).length = k := by
  induction k generalizing n with
  | zero => rfl
  | succ k ih => simp [bytes, ih]

theorem value_bytes (k n : Nat) : value (bytes k n) = n % count k := by
  induction k generalizing n with
  | zero => simp [bytes, value, count, Nat.mod_one]
  | succ k ih =>
    have h : (UInt8.ofNat (n % 256)).toNat = n % 256 :=
      UInt8.toNat_ofNat_of_lt' (Nat.mod_lt _ (by decide))
    rw [bytes, value, ih, h, count, Nat.mod_mul]

theorem value_lt (bs : Bytes) : value bs < count bs.length := by
  induction bs with
  | nil => decide
  | cons b bs ih =>
    have hb : b.toNat < 256 := b.toNat_lt
    simp only [value, List.length_cons, count]
    omega

theorem bytes_value (bs : Bytes) : bytes bs.length (value bs) = bs := by
  induction bs with
  | nil => rfl
  | cons b bs ih =>
    have hb : b.toNat < 256 := b.toNat_lt
    have h₁ : (b.toNat + 256 * value bs) % 256 = b.toNat := by omega
    have h₂ : (b.toNat + 256 * value bs) / 256 = value bs := by omega
    simp [bytes, value, h₁, h₂, ih]

end Word

/-! ## Records -/

/-- At `timestamp`, the segment file has reached `offset`. -/
structure Entry where
  timestamp : UInt64
  offset : UInt64
  deriving DecidableEq

namespace Entry

/-- Bytes of one record. -/
def size : Nat := 16

def encode (e : Entry) : Bytes := Word.bytes 8 e.timestamp.toNat ++ Word.bytes 8 e.offset.toNat

def decode (bs : Bytes) : Entry :=
  ⟨UInt64.ofNat (Word.value (bs.take 8)), UInt64.ofNat (Word.value ((bs.drop 8).take 8))⟩

def encodeAll (es : List Entry) : Bytes := es.flatMap encode

/-- The first `n` records, read one after another. -/
def readMany : Nat → Bytes → List Entry
  | 0, _ => []
  | n + 1, bs => decode (bs.take size) :: readMany n (bs.drop size)

/-- The complete records of a file. -/
def readAll (bs : Bytes) : List Entry := readMany (bs.length / size) bs

/-- The `i`-th record, if the file reaches so far. -/
def readAt? (bs : Bytes) (i : Nat) : Option Entry :=
  if (i + 1) * size ≤ bs.length then some (decode ((bs.drop (i * size)).take size)) else none

@[simp] theorem length_encode (e : Entry) : e.encode.length = size := by simp [encode, size]

theorem decode_encode (e : Entry) : decode e.encode = e := by
  have h₁ : e.timestamp.toNat % Word.count 8 = e.timestamp.toNat :=
    Nat.mod_eq_of_lt e.timestamp.toNat_lt
  have h₂ : e.offset.toNat % Word.count 8 = e.offset.toNat := Nat.mod_eq_of_lt e.offset.toNat_lt
  simp only [decode, encode]
  rw [List.take_left' (by simp), List.drop_left' (by simp), List.take_of_length_le (by simp),
    Word.value_bytes, Word.value_bytes, h₁, h₂]
  simp

@[simp] theorem length_readMany (n : Nat) (bs : Bytes) : (readMany n bs).length = n := by
  induction n generalizing bs with
  | zero => rfl
  | succ n ih => simp [readMany, ih]

@[simp] theorem length_readAll (bs : Bytes) : (readAll bs).length = bs.length / size := by
  simp [readAll]

theorem readMany_getElem? (n : Nat) (bs : Bytes) (i : Nat) (h : i < n) :
    (readMany n bs)[i]? = some (decode ((bs.drop (i * size)).take size)) := by
  induction n generalizing bs i with
  | zero => omega
  | succ n ih =>
    cases i with
    | zero => simp [readMany]
    | succ i =>
      have hi : i * size + size = (i + 1) * size := (Nat.succ_mul i size).symm
      simp [readMany, ih _ i (by omega), List.drop_drop, Nat.add_comm size, hi]

end Entry

end Timeshift
