import Timeshift.Index.Basic
import Timeshift.Proofs.Entry
import Timeshift.Proofs.Result

/-!
# The order of an index

The check that an index is opened with accepts exactly the rows whose timestamps never decrease. Of
such a row the last record alone says which records may come next.
-/

namespace Timeshift.Index

def Admits (es : List Entry) (time : UInt64) : Prop := ∀ last ∈ es.getLast?, last.timestamp ≤ time

theorem regression?_eq_none : ∀ es : List Entry, regression? es = none ↔ IsOrdered es
  | [] => by simp [regression?, IsOrdered]
  | [a] => by simp [regression?, IsOrdered]
  | a :: b :: es => by
    have ih := regression?_eq_none (b :: es)
    unfold IsOrdered at ih ⊢
    rw [regression?, List.pairwise_cons, ← ih]
    by_cases h : b.timestamp < a.timestamp
    · rw [if_pos h]
      constructor
      · intro hn; cases hn
      · rintro ⟨hall, _⟩
        exact absurd (hall b List.mem_cons_self) (UInt64.not_le.mpr h)
    · rw [if_neg h, Option.map_eq_none_iff]
      constructor
      · intro hn
        refine ⟨fun c hc => ?_, hn⟩
        rcases List.mem_cons.mp hc with rfl | hc
        · exact UInt64.not_lt.mp h
        · exact UInt64.le_trans (UInt64.not_lt.mp h) ((List.pairwise_cons.mp (ih.mp hn)).1 c hc)
      · exact fun hn => hn.2

theorem isOrdered_nil : IsOrdered [] := List.Pairwise.nil

theorem IsOrdered.le_last {es : List Entry} (h : IsOrdered es) {last : Entry}
    (hl : es.getLast? = some last) : ∀ e ∈ es, e.timestamp ≤ last.timestamp := by
  intro e he
  obtain ⟨init, rfl⟩ := List.getLast?_eq_some_iff.mp hl
  rcases List.mem_append.mp he with he | he
  · exact (List.pairwise_append.mp h).2.2 e he last (List.mem_singleton_self _)
  · rw [List.mem_singleton.mp he]; exact UInt64.le_refl _

theorem isOrdered_concat {es : List Entry} {e : Entry} :
    IsOrdered (es ++ [e]) ↔ IsOrdered es ∧ Admits es e.timestamp := by
  constructor
  · intro h
    have h' := List.pairwise_append.mp h
    exact ⟨h'.1, fun last hl =>
      h'.2.2 last (List.mem_of_getLast? hl) e (List.mem_singleton_self _)⟩
  · rintro ⟨h, ha⟩
    refine List.pairwise_append.mpr ⟨h, List.pairwise_singleton _ _, fun a hm b hb => ?_⟩
    rw [List.mem_singleton.mp hb]
    cases hl : es.getLast? with
    | none => rw [List.getLast?_eq_none_iff.mp hl] at hm; cases hm
    | some last => exact UInt64.le_trans (h.le_last hl a hm) (ha last hl)

theorem later?_eq_none {x : Index} {es : List Entry} (h : x.tail = es.getLast?) (time : UInt64) :
    x.later? time = none ↔ Admits es time := by
  unfold later? Admits
  rw [h]
  cases es.getLast? with
  | none => simp
  | some last => simp [Option.filter_eq_none_iff]

/-! ## The check on opening -/

theorem checked_eq_ok {path : Path} {bs : Bytes} {c : Contents} :
    Contents.checked path bs = .ok c ↔ IsOrdered (Entry.readAll bs) ∧ c = .ofBytes bs := by
  rw [← regression?_eq_none]
  cases h : regression? (Entry.readAll bs) with
  | some i => simp [Contents.checked, Contents.ofBytes, h]
  | none => simp [Contents.checked, Contents.ofBytes, h, eq_comm]

theorem checked_eq_error {path : Path} {bs : Bytes} {e : Error} :
    Contents.checked path bs = .error e ↔ ∃ k, regression? (Entry.readAll bs) = some k ∧
      e = .corrupt s!"{path}: timestamp decreases at record {k}" := by
  cases h : regression? (Entry.readAll bs) with
  | some i => simp [Contents.checked, Contents.ofBytes, h, eq_comm]
  | none => simp [Contents.checked, Contents.ofBytes, h]

end Timeshift.Index
