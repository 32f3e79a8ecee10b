import Timeshift.Entry

/-!
# Rows of records

A row of whole records reads back as the entries it was made from, also with the start of another
record behind it. Seeking to the `i`-th record finds the `i`-th entry of the row (`readAt?_eq`).
-/

namespace Timeshift.Entry

@[simp] theorem encodeAll_nil : encodeAll [] = [] := rfl

@[simp] theorem encodeAll_cons (e : Entry) (es : List Entry) :
    encodeAll (e :: es) = e.encode ++ encodeAll es := rfl

@[simp] theorem encodeAll_append (es fs : List Entry) :
    encodeAll (es ++ fs) = encodeAll es ++ encodeAll fs := by
  simp [encodeAll]

theorem encodeAll_concat (es : List Entry) (e : Entry) :
    encodeAll (es ++ [e]) = encodeAll es ++ e.encode := by
  simp

@[simp] theorem length_encodeAll (es : List Entry) : (encodeAll es).length = es.length * size := by
  induction es with
  | nil => rw [encodeAll_nil, List.length_nil, List.length_nil, Nat.zero_mul]
  | cons e es ih =>
    rw [encodeAll_cons, List.length_append, length_encode, ih, List.length_cons, Nat.succ_mul,
      Nat.add_comm]

theorem readMany_encodeAll (rest : Bytes) : ∀ es : List Entry,
    readMany es.length (encodeAll es ++ rest) = es
  | [] => rfl
  | e :: es => by
    rw [List.length_cons, readMany, encodeAll_cons, List.append_assoc,
      List.take_left' (length_encode e), List.drop_left' (length_encode e), decode_encode,
      readMany_encodeAll rest es]

theorem readAll_append (rest : Bytes) (h : rest.length < size) (es : List Entry) :
    readAll (encodeAll es ++ rest) = es := by
  have hn : (encodeAll es ++ rest).length / size = es.length := by
    rw [List.length_append, length_encodeAll, Nat.add_comm, Nat.add_mul_div_right _ _ (by decide),
      Nat.div_eq_of_lt h, Nat.zero_add]
  rw [readAll, hn, readMany_encodeAll]

@[simp] theorem readAll_encodeAll (es : List Entry) : readAll (encodeAll es) = es := by
  have := readAll_append [] (by decide) es
  rwa [List.append_nil] at this

theorem encode_decode {bs : Bytes} (h : bs.length = size) : (decode bs).encode = bs := by
  have hc : Word.count 8 = UInt64.size := by decide
  have h₁ : (bs.take 8).length = 8 := by rw [List.length_take, h]; rfl
  have h₂ : (bs.drop 8).length = 8 := by rw [List.length_drop, h]; rfl
  have hw : ∀ ws : Bytes, ws.length = 8 →
      Word.bytes 8 (UInt64.ofNat (Word.value ws)).toNat = ws := by
    intro ws hws
    have hlt := Word.value_lt ws
    rw [hws, hc] at hlt
    rw [UInt64.toNat_ofNat_of_lt' hlt]
    have := Word.bytes_value ws
    rwa [hws] at this
  rw [encode, decode, List.take_of_length_le (Nat.le_of_eq h₂), hw _ h₁, hw _ h₂,
    List.take_append_drop]

theorem encodeAll_readMany : ∀ (n : Nat) (bs : Bytes), n * size ≤ bs.length →
    encodeAll (readMany n bs) = bs.take (n * size)
  | 0, bs, _ => by rw [Nat.zero_mul, List.take_zero]; rfl
  | n + 1, bs, h => by
    rw [Nat.succ_mul] at h
    have hd : n * size ≤ (bs.drop size).length := by rw [List.length_drop]; omega
    have ht : (bs.take size).length = size := by rw [List.length_take]; omega
    rw [readMany, encodeAll_cons, encode_decode ht, encodeAll_readMany n _ hd, Nat.succ_mul,
      Nat.add_comm, List.take_add]

theorem encodeAll_readAll (bs : Bytes) :
    encodeAll (readAll bs) = bs.take (bs.length / size * size) :=
  encodeAll_readMany _ bs (Nat.div_mul_le_self _ _)

theorem readAt?_eq (bs : Bytes) (i : Nat) : readAt? bs i = (readAll bs)[i]? := by
  unfold readAt?
  split
  · rename_i h
    have hi : i < bs.length / size := (Nat.le_div_iff_mul_le (by decide)).mpr h
    rw [readAll, readMany_getElem? _ _ _ hi]
  · rename_i h
    have hi : bs.length / size ≤ i := by
      rcases Nat.lt_or_ge i (bs.length / size) with hlt | hge
      · exact absurd ((Nat.le_div_iff_mul_le (by decide)).mp hlt) h
      · exact hge
    rw [List.getElem?_eq_none (by rw [length_readAll]; exact hi)]

end Timeshift.Entry
