import Timeshift.Disk.Basic

/-!
# Changing one file

Appending, cutting and emptying change the content of one file and nothing else on the disk. An
honest medium keeps what it reports as written; a faithful one can also be cut back, so that a
failed append can be undone. On an exact one it can always be, if only because nothing was kept.
-/

namespace Timeshift

/-- What is reported as written and synced is kept. -/
def Medium.Honest (m : Medium) : Prop :=
  m.writeError = none → m.syncError = none → m.keeps = none

structure Medium.Faithful (m : Medium) : Prop where
  honest : m.Honest
  resize : m.resizeError = none

theorem Medium.faithful_regular : Medium.regular.Faithful := ⟨fun _ _ => rfl, rfl⟩

/-- What is reported as written is kept, and nothing has to stay of what is not. -/
structure Medium.Exact (m : Medium) : Prop where
  honest : m.Honest
  undone : m.resizeError = none ∨ m.keeps = some 0

theorem Medium.Faithful.exact {m : Medium} (h : m.Faithful) : m.Exact := ⟨h.honest, .inl h.resize⟩

/-- All storage that has a name is exact, also the devices that keep nothing. -/
theorem Medium.exact_named :
    Medium.regular.Exact ∧ Medium.null.Exact ∧ Medium.full.Exact :=
  ⟨Medium.faithful_regular.exact, ⟨nofun, .inr rfl⟩, ⟨nofun, .inr rfl⟩⟩

namespace Disk

structure ChangesOnly (i : FileId) (d d' : Disk) : Prop where
  here : d'.here = d.here
  nodes : d'.nodes = d.nodes
  next : d'.next = d.next
  medium : ∀ j, d'.medium j = d.medium j
  content : ∀ j, j ≠ i → d'.content j = d.content j

/-- `d'` is `d` with other storage under the files, and what was `P` is still so. -/
structure ChangesMedia (P : Medium → Prop) (d d' : Disk) : Prop where
  here : d'.here = d.here
  nodes : d'.nodes = d.nodes
  next : d'.next = d.next
  content : ∀ i, d'.content i = d.content i
  medium : ∀ i, P (d.medium i) → P (d'.medium i)

section
variable {i : FileId} {d d' : Disk}

theorem ChangesOnly.refl (i : FileId) (d : Disk) : ChangesOnly i d d :=
  ⟨rfl, rfl, rfl, fun _ => rfl, fun _ _ => rfl⟩

theorem ChangesOnly.trans {d₁ d₂ d₃ : Disk} (h₁ : ChangesOnly i d₁ d₂) (h₂ : ChangesOnly i d₂ d₃) :
    ChangesOnly i d₁ d₃ :=
  ⟨h₂.here.trans h₁.here, h₂.nodes.trans h₁.nodes, h₂.next.trans h₁.next,
    fun j => (h₂.medium j).trans (h₁.medium j),
    fun j hj => (h₂.content j hj).trans (h₁.content j hj)⟩

theorem file_congr {j : FileId} (hc : d'.content j = d.content j)
    (hm : d'.medium j = d.medium j) : d'.file j = d.file j := by
  have hext : ∀ x y : File, x.content = y.content → x.medium = y.medium → x = y := by
    rintro ⟨_, _⟩ ⟨_, _⟩ rfl rfl
    rfl
  exact hext _ _ hc hm

theorem ChangesOnly.file_eq (h : ChangesOnly i d d') {j : FileId} (hj : j ≠ i) :
    d'.file j = d.file j := file_congr (h.content j hj) (h.medium j)

theorem ChangesOnly.unchanged (h : ChangesOnly i d d') (hi : d'.content i = d.content i)
    (j : FileId) : d'.content j = d.content j := by
  by_cases hj : j = i
  · rw [hj, hi]
  · exact h.content j hj

theorem changesOnly_setContent (i : FileId) (d : Disk) (bs : Bytes) :
    ChangesOnly i d (d.setContent i bs) :=
  ⟨rfl, rfl, rfl, fun j => medium_setContent d i j bs,
    fun j hj => by rw [content_setContent, if_neg hj]⟩

@[simp] theorem content_setContent_self (d : Disk) (i : FileId) (bs : Bytes) :
    (d.setContent i bs).content i = bs := by
  rw [content_setContent, if_pos rfl]

@[simp] theorem content_setMedium (d : Disk) (i j : FileId) (m : Medium) :
    (d.setMedium i m).content j = d.content j := by
  unfold content file setMedium
  by_cases h : j = i
  · rw [h, Table.lookup_put_self]
    rfl
  · rw [Table.lookup_put_of_ne h]

@[simp] theorem medium_setMedium_self (d : Disk) (i : FileId) (m : Medium) :
    (d.setMedium i m).medium i = m := by
  unfold medium file setMedium
  rw [Table.lookup_put_self]
  rfl

theorem changesMedia_setMedium {P : Medium → Prop} {m : Medium} (hm : P m) (d : Disk)
    (i : FileId) : ChangesMedia P d (d.setMedium i m) := by
  refine ⟨rfl, rfl, rfl, fun j => d.content_setMedium i j m, fun j hj => ?_⟩
  by_cases h : j = i
  · rw [h, medium_setMedium_self]
    exact hm
  · unfold medium file setMedium
    rw [Table.lookup_put_of_ne h]
    exact hj

theorem changesOnly_append (i : FileId) (d : Disk) (bs : Bytes) :
    ChangesOnly i d (d.append i bs).2 := by
  unfold append
  split
  · exact .refl i d
  · exact changesOnly_setContent i d _

theorem changesOnly_resize (i : FileId) (d : Disk) (n : Nat) :
    ChangesOnly i d (d.resize i n).2 := by
  unfold resize
  split
  · exact .refl i d
  · exact changesOnly_setContent i d _

/-! ## Cutting back -/

theorem resize_of_faithful (h : (d.medium i).Faithful) (n : Nat) : d.resize i n =
    (.ok (), d.setContent i ((d.content i).take n ++
      List.replicate (n - (d.content i).length) 0)) := by
  unfold resize
  rw [h.resize]

/-! ## Appending and syncing -/

theorem content_append {bs : Bytes} (h : bs ≠ []) :
    (d.append i bs).2.content i = d.content i ++ (d.medium i).kept bs := by
  unfold append
  rw [if_neg h, content_setContent_self]

theorem content_resize_front {front rest : Bytes} (hc : d.content i = front ++ rest) :
    (d.resize i front.length).2.content i =
      if (d.medium i).resizeError.isSome then front ++ rest else front := by
  unfold resize
  cases (d.medium i).resizeError with
  | some e => exact hc
  | none =>
    rw [content_setContent_self, hc, List.take_left' rfl, List.length_append,
      Nat.sub_eq_zero_of_le (Nat.le_add_right _ _), List.replicate_zero, List.append_nil]
    rfl

/-- Cutting a file back to what it held leaves just that of an append. -/
theorem content_undone {bs added : Bytes} (hm : (d.medium i).Exact) (h : added ≠ [])
    (hc : d.content i = bs) :
    ((d.append i added).2.resize i bs.length).2.content i = bs := by
  rw [content_resize_front (by rw [content_append h, hc]), (changesOnly_append i d added).medium]
  rcases hm.undone with hresize | hkeeps
  · rw [hresize]
    rfl
  · have hkept : (d.medium i).kept added = [] := by
      rw [Medium.kept, hkeeps]
      rfl
    rw [hkept, List.append_nil, ite_self]

theorem content_append_synced {bs : Bytes} (h : bs ≠ []) (hm : (d.medium i).Honest)
    (hok : ((d.append i bs).1.bind fun _ => (d.append i bs).2.sync i) = .ok ()) :
    (d.append i bs).2.content i = d.content i ++ bs := by
  rw [content_append h]
  have hs : (d.append i bs).2.sync i = failing (d.medium i).syncError := by
    unfold sync
    rw [(changesOnly_append i d bs).medium]
  rw [hs] at hok
  unfold append at hok
  rw [if_neg h] at hok
  have hk : (d.medium i).keeps = none := by
    refine hm ?_ ?_
    · cases hw : (d.medium i).writeError with
      | none => rfl
      | some e => rw [hw] at hok; cases hok
    · cases hw : (d.medium i).syncError with
      | none => rfl
      | some e =>
        rw [hw] at hok
        cases hw' : (d.medium i).writeError with
        | none => rw [hw'] at hok; cases hok
        | some e' => rw [hw'] at hok; cases hok
  unfold Medium.kept
  rw [hk]

/-- Whether an append is reported as done, and kept, is decided by the medium. -/
theorem append_synced_congr {d₁ d₂ : Disk} (h : d₁.medium i = d₂.medium i) (bs : Bytes) :
    ((d₁.append i bs).1.bind fun _ => (d₁.append i bs).2.sync i) =
      ((d₂.append i bs).1.bind fun _ => (d₂.append i bs).2.sync i) := by
  have hsync : (d₁.append i bs).2.sync i = (d₂.append i bs).2.sync i := by
    unfold sync
    rw [(changesOnly_append i d₁ bs).medium, (changesOnly_append i d₂ bs).medium, h]
  have happend : (d₁.append i bs).1 = (d₂.append i bs).1 := by
    unfold append
    split
    · rfl
    · rw [h]
  rw [hsync, happend]

theorem append_of_regular (h : d.medium i = .regular) (bs : Bytes) :
    ((d.append i bs).1.bind fun _ => (d.append i bs).2.sync i) = .ok () := by
  have hs : (d.append i bs).2.sync i = .ok () := by
    unfold sync
    rw [(changesOnly_append i d bs).medium, h]
    rfl
  have ha : (d.append i bs).1 = .ok () := by
    unfold append
    split
    · rfl
    · rw [h]; rfl
  rw [ha, hs]
  rfl

end

end Disk

end Timeshift
