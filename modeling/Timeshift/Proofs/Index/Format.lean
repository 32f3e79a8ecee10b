import Timeshift.Proofs.Disk.Contents
import Timeshift.Proofs.Index.Scanning

/-!
# The format of an index file

A row of entries is laid out with record `k` at byte `16 * k`, each word with its lowest byte first.
Exactly one byte string is the layout of a given row, and it is what writing the records one after
another leaves. Reading a file in sequence inverts this, and seeking finds the same records.
-/

namespace Timeshift

def Word.byte (n j : Nat) : UInt8 := UInt8.ofNat (n / Word.count j)

theorem Word.bytes_getElem? (k n j : Nat) (h : j < k) :
    (Word.bytes k n)[j]? = some (Word.byte n j) := by
  induction k generalizing n j with
  | zero => omega
  | succ k ih =>
    cases j with
    | zero =>
      have hmod : UInt8.ofNat (n % 256) = UInt8.ofNat n :=
        UInt8.toNat_inj.mp (by simp)
      simp [Word.bytes, Word.byte, Word.count, hmod]
    | succ j =>
      have hdiv : n / 256 / Word.count j = n / Word.count (j + 1) := Nat.div_div_eq_div_mul _ _ _
      rw [Word.bytes, List.getElem?_cons_succ, ih _ j (by omega), Word.byte, Word.byte, hdiv]

namespace Entry

def byte (e : Entry) (j : Nat) : UInt8 :=
  if j < 8 then Word.byte e.timestamp.toNat j else Word.byte e.offset.toNat (j - 8)

theorem encode_getElem? (e : Entry) {j : Nat} (h : j < 16) : e.encode[j]? = some (e.byte j) := by
  unfold encode byte
  by_cases hj : j < 8
  · rw [List.getElem?_append_left (by simpa using hj), Word.bytes_getElem? 8 _ j hj, if_pos hj]
  · rw [List.getElem?_append_right (by simpa using hj), Word.length_bytes,
      Word.bytes_getElem? 8 _ (j - 8) (by omega), if_neg hj]

/-- `bs` has a record for each of `es` and nothing else. -/
structure LaidOut (es : List Entry) (bs : Bytes) : Prop where
  length : bs.length = es.length * 16
  byte : ∀ k e, es[k]? = some e → ∀ j < 16, bs[k * 16 + j]? = some (e.byte j)

section
variable {es : List Entry} {bs cs : Bytes}

theorem laidOut_encodeAll (es : List Entry) : LaidOut es (encodeAll es) := by
  refine ⟨length_encodeAll es, ?_⟩
  induction es with
  | nil => simp
  | cons f es ih =>
    intro k e hk j hj
    have hf : f.encode.length = 16 := length_encode f
    rw [encodeAll_cons]
    cases k with
    | zero =>
      obtain rfl : f = e := by simpa using hk
      rw [List.getElem?_append_left (by omega), Nat.zero_mul, Nat.zero_add, encode_getElem? f hj]
    | succ k =>
      have hplace : (k + 1) * 16 + j - f.encode.length = k * 16 + j := by omega
      rw [List.getElem?_append_right (by omega), hplace]
      exact ih k e (by simpa using hk) j hj

theorem LaidOut.unique (h : LaidOut es bs) (h' : LaidOut es cs) : bs = cs := by
  apply List.ext_getElem?
  intro n
  by_cases hn : n < es.length * 16
  · -- byte `n` belongs to record `n / 16`
    have hk : es[n / 16]? = some es[n / 16] := List.getElem?_eq_getElem (by omega)
    have hplace : n / 16 * 16 + n % 16 = n := Nat.div_add_mod' n 16
    have hbyte := h.byte _ _ hk (n % 16) (by omega)
    have hbyte' := h'.byte _ _ hk (n % 16) (by omega)
    rw [hplace] at hbyte hbyte'
    rw [hbyte, hbyte']
  · rw [List.getElem?_eq_none (by rw [h.length]; omega),
      List.getElem?_eq_none (by rw [h'.length]; omega)]

theorem laidOut_iff : LaidOut es bs ↔ bs = encodeAll es := by
  constructor
  · intro h
    exact h.unique (laidOut_encodeAll es)
  · rintro rfl
    exact laidOut_encodeAll es

theorem encodeAll_readAll_of_dvd (h : 16 ∣ bs.length) : encodeAll (readAll bs) = bs := by
  rw [encodeAll_readAll, show size = 16 from rfl, Nat.div_mul_cancel h, List.take_length]

end

end Entry

namespace Index

section
variable {x : Index} {i : FileId} {d : Disk}

theorem entries_of_file (hx : x.file = some i) : x.entries d = .ok (Entry.readAll (d.content i)) := by
  unfold entries bytes
  rw [hx]
  rfl

theorem entries_setContent (hx : x.file = some i) (bs : Bytes) :
    x.entries (d.setContent i bs) = .ok (Entry.readAll bs) := by
  rw [entries_of_file hx, Disk.content_setContent_self]

theorem readEntry_eq_ok_iff {bs : Bytes} {k : Nat} {e : Entry} :
    readEntry bs k = .ok e ↔ (Entry.readAll bs)[k]? = some e := by
  unfold readEntry
  rw [Entry.readAt?_eq]
  cases (Entry.readAll bs)[k]? <;> simp

/-- The entries of a file and its bytes determine each other: a row that was written reads back,
in sequence and in one pass that checks the file; a file without a torn record is the layout of the
entries read from it, and of no others; and seeking to record `k` finds the `k`-th of them, torn
record or not. -/
theorem format_bijective (hx : x.file = some i) (d : Disk) :
    (∀ es, x.entries (d.setContent i (Entry.encodeAll es)) = .ok es ∧
      Contents.ofBytes (Entry.encodeAll es) = ⟨es, 0⟩ ∧ Entry.LaidOut es (Entry.encodeAll es)) ∧
    (∀ bs, 16 ∣ bs.length → ∃ es, x.entries (d.setContent i bs) = .ok es ∧
      Entry.encodeAll es = bs ∧ ∀ fs, Entry.LaidOut fs bs ↔ fs = es) ∧
    (∀ bs, ∃ es, x.entries (d.setContent i bs) = .ok es ∧ es.length = bs.length / 16 ∧
      ∀ k e, readEntry bs k = .ok e ↔ es[k]? = some e) := by
  refine ⟨fun es => ⟨?_, ?_, Entry.laidOut_encodeAll es⟩, fun bs hbs => ?_, fun bs => ?_⟩
  · rw [entries_setContent hx, Entry.readAll_encodeAll]
  · have htorn : (Entry.encodeAll es).length % Entry.size = 0 := by
      rw [Entry.length_encodeAll, Nat.mul_mod_left]
    rw [Contents.ofBytes, Entry.readAll_encodeAll, htorn]
  · have hback := Entry.encodeAll_readAll_of_dvd hbs
    refine ⟨_, entries_setContent hx bs, hback, fun fs => ?_⟩
    rw [Entry.laidOut_iff]
    constructor
    · rintro rfl
      rw [Entry.readAll_encodeAll]
    · rintro rfl
      exact hback.symm
  · exact ⟨_, entries_setContent hx bs, Entry.length_readAll bs, fun k e => readEntry_eq_ok_iff⟩

end

def tiedReader : Index := ⟨⟨"live.idx"⟩, .playback, some 0, some ⟨9, 564⟩, 4, 0⟩

/-- The greatest words there are, and bytes that no recorder wrote. -/
theorem format_bijective_extreme :
    let row : List Entry := [⟨18446744073709551615, 0⟩, ⟨0, 258⟩]
    openPlayback ⟨"live.idx"⟩ tiedDisk = .ok tiedReader ∧
      tiedReader.entries (tiedDisk.setContent 0 (Entry.encodeAll row)) = .ok row ∧
      Entry.LaidOut row (Entry.encodeAll row) ∧
      readEntry (List.replicate 33 1) 1 = .ok ⟨72340172838076673, 72340172838076673⟩ := by
  have hopen : openPlayback ⟨"live.idx"⟩ tiedDisk = .ok tiedReader := by decide
  intro row
  have hformat := format_bijective (x := tiedReader) rfl tiedDisk
  obtain ⟨hread, -, hlaid⟩ := hformat.1 row
  obtain ⟨es, hes, -, hseek⟩ := hformat.2.2 (List.replicate 33 1)
  obtain rfl : Entry.readAll (List.replicate 33 1) = es := by
    rw [entries_setContent rfl] at hes
    exact Except.ok.inj hes
  exact ⟨hopen, hread, hlaid, (hseek 1 _).mpr (by decide)⟩

end Index

end Timeshift
