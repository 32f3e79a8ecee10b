/-!
# Tables

Finite maps as lists of pairs. The first pair of a key counts, and `put` leaves no other.
-/

namespace Timeshift

abbrev Table (α β : Type) := List (α × β)

namespace Table

variable {α β : Type} [BEq α]

def put (t : Table α β) (a : α) (b : β) : Table α β := (a, b) :: t.filter (!·.1 == a)

def erase (t : Table α β) (a : α) : Table α β := t.filter (!·.1 == a)

variable [LawfulBEq α]

theorem lookup_filter_ne {t : Table α β} {a c : α} (h : c ≠ a) :
    (t.filter (!·.1 == a)).lookup c = t.lookup c := by
  induction t with
  | nil => rfl
  | cons e t ih =>
    obtain ⟨k, v⟩ := e
    by_cases hk : k = a
    · subst hk
      simp [List.lookup_cons, ih, beq_eq_false_iff_ne.mpr h]
    · rw [List.filter_cons_of_pos (by simpa using hk), List.lookup_cons, List.lookup_cons, ih]

theorem lookup_put_self (t : Table α β) (a : α) (b : β) : (put t a b).lookup a = some b := by
  simp [put]

theorem lookup_put_of_ne {t : Table α β} {a c : α} (h : c ≠ a) (b : β) :
    (put t a b).lookup c = t.lookup c := by
  simp [put, List.lookup_cons, beq_eq_false_iff_ne.mpr h, lookup_filter_ne h]

theorem lookup_erase_of_ne {t : Table α β} {a c : α} (h : c ≠ a) :
    (erase t a).lookup c = t.lookup c :=
  lookup_filter_ne h

end Table

end Timeshift
