import Timeshift.Index.Search
import Timeshift.Proofs.Index.Order

/-!
# Searching a row that is in order

`Entry.latest?` looks at every record of a row. On a row in order the two halvings of a search come
to the same record, and a search is in vain only if the time is before the whole row.
-/

namespace Timeshift

/-! ## The first of the latest -/

section
variable {α : Type} {key : α → UInt64} {xs : List α} {x : α} {i : Nat} {time : UInt64}

/-- The first among those with the greatest key not after `time`. -/
def latestBy? (key : α → UInt64) (xs : List α) (time : UInt64) : Option α :=
  let upTo := xs.filter (key · ≤ time)
  upTo.find? fun x => upTo.all (key · ≤ key x)

theorem latestBy?_timestamp (es : List Entry) (time : UInt64) :
    latestBy? Entry.timestamp es time = Entry.latest? es time := rfl

theorem latestBy?_eq_some : latestBy? key xs time = some x ↔ key x ≤ time ∧
    (∀ y ∈ xs, key y ≤ time → key y ≤ key x) ∧
      ∃ a b, xs = a ++ x :: b ∧ ∀ y ∈ a, key y ≤ time → key y < key x := by
  unfold latestBy?
  simp only [List.find?_eq_some_iff_append, List.all_eq_true, List.mem_filter, decide_eq_true_eq,
    and_imp]
  constructor
  · rintro ⟨hmax, a, b, hab, hbefore⟩
    obtain ⟨a', rest, rfl, rfl, hrest⟩ := List.filter_eq_append_iff.mp hab
    obtain ⟨c, b', rfl, hc, hx, _⟩ := List.filter_eq_cons_iff.mp hrest
    refine ⟨of_decide_eq_true hx, hmax, a' ++ c, b', by simp, ?_⟩
    intro y hy ht
    rcases List.mem_append.mp hy with hy | hy
    · -- an earlier one with the same key would have been found first
      have hnot := hbefore y (List.mem_filter.mpr ⟨hy, decide_eq_true ht⟩)
      rw [Bool.not_eq_true', List.all_eq_false] at hnot
      obtain ⟨z, hz, hlt⟩ := hnot
      obtain ⟨hz, hzt⟩ := List.mem_filter.mp hz
      refine UInt64.lt_of_lt_of_le ?_ (hmax z hz (of_decide_eq_true hzt))
      simpa using hlt
    · exact absurd (decide_eq_true ht) (hc y hy)
  · rintro ⟨hx, hmax, a, b, rfl, hbefore⟩
    refine ⟨hmax, a.filter (key · ≤ time), b.filter (key · ≤ time), ?_, ?_⟩
    · rw [List.filter_append, List.filter_cons_of_pos (by simpa using hx)]
    · intro y hy
      obtain ⟨hy, ht⟩ := List.mem_filter.mp hy
      rw [Bool.not_eq_true', List.all_eq_false]
      refine ⟨x, List.mem_filter.mpr ⟨by simp, decide_eq_true hx⟩, ?_⟩
      simpa using hbefore y hy (of_decide_eq_true ht)

/-- In a sorted row the members with a property of early keys are those in front. -/
theorem lt_length_takeWhile {early : UInt64 → Bool} (hs : xs.Pairwise fun x y => key x ≤ key y)
    (he : ∀ a b, a ≤ b → early b = true → early a = true) (hx : xs[i]? = some x) :
    i < (xs.takeWhile fun x => early (key x)).length ↔ early (key x) = true := by
  induction xs generalizing i with
  | nil => cases hx
  | cons y ys ih =>
    obtain ⟨hy, hys⟩ := List.pairwise_cons.mp hs
    by_cases hq : early (key y) = true
    · have htake := List.takeWhile_cons_of_pos (p := fun x => early (key x)) (l := ys) hq
      rw [htake, List.length_cons]
      cases i with
      | zero =>
        cases hx
        simp [hq]
      | succ i =>
        rw [Nat.add_lt_add_iff_right]
        exact ih hys hx
    · rw [List.takeWhile_cons_of_neg (p := fun x => early (key x)) hq]
      refine ⟨nofun, fun h => absurd ?_ hq⟩
      cases i with
      | zero =>
        cases hx
        exact h
      | succ i => exact he _ _ (hy x (List.mem_of_getElem? hx)) h

end

namespace Index

/-! ## Halving -/

theorem bisect_eq {p : Nat → Except Error Bool} {m : Nat} (lo hi : Nat) (h₁ : lo ≤ m) (h₂ : m ≤ hi)
    (hp : ∀ i, lo ≤ i → i < hi → p i = .ok (decide (i < m))) : bisect p lo hi = .ok m := by
  fun_induction bisect p lo hi with
  | case1 lo hi h mid ih₁ ih₂ =>
    have hmid : mid = lo + (hi - lo) / 2 := rfl
    rw [hp mid (by omega) (by omega), ok_bind]
    by_cases hm : mid < m
    · rw [if_pos (by simpa using hm)]
      apply ih₁ (by omega) h₂
      intro i hi₁ hi₂
      exact hp i (by omega) hi₂
    · rw [if_neg (by simpa using hm)]
      apply ih₂ h₁ (by omega)
      intro i hi₁ hi₂
      exact hp i hi₁ (by omega)
  | case2 lo hi h =>
    have : lo = m := by omega
    rw [this]

theorem readEntry_eq_ok {bs : Bytes} {i : Nat} {e : Entry} (h : (Entry.readAll bs)[i]? = some e) :
    readEntry bs i = .ok e := by
  unfold readEntry
  rw [Entry.readAt?_eq, h]

section
variable {bs : Bytes} {time : UInt64} {path : Path}

/-- Halving for a property of early timestamps finds how many records have it, if those behind the
places looked at do not. -/
theorem bisect_early {early : UInt64 → Bool} {hi : Nat} (ho : IsOrdered (Entry.readAll bs))
    (he : ∀ a b, a ≤ b → early b = true → early a = true) (hlen : hi ≤ (Entry.readAll bs).length)
    (hm : ((Entry.readAll bs).takeWhile fun e => early e.timestamp).length ≤ hi) :
    bisect (fun i => return early (← readEntry bs i).timestamp) 0 hi =
      .ok ((Entry.readAll bs).takeWhile fun e => early e.timestamp).length := by
  apply bisect_eq 0 hi (Nat.zero_le _) hm
  intro i _ hi
  have hi := List.getElem?_eq_getElem (Nat.lt_of_lt_of_le hi hlen)
  rw [readEntry_eq_ok hi, ok_bind]
  refine congrArg Except.ok (Bool.eq_iff_iff.mpr ?_)
  rw [decide_eq_true_eq]
  exact (lt_length_takeWhile ho he hi).symm

theorem IsOrdered.le_of_le {es : List Entry} {i j : Nat} {a b : Entry} (ho : IsOrdered es)
    (hi : es[i]? = some a) (hj : es[j]? = some b) (hij : i ≤ j) : a.timestamp ≤ b.timestamp := by
  rcases Nat.lt_or_eq_of_le hij with hlt | rfl
  · obtain ⟨_, rfl⟩ := List.getElem?_eq_some_iff.mp hi
    obtain ⟨_, rfl⟩ := List.getElem?_eq_some_iff.mp hj
    exact List.pairwise_iff_getElem.mp ho i j _ _ hlt
  · rw [hi] at hj
    cases hj
    exact UInt64.le_refl _

/-- The record found by the second halving, which goes back from `found` over those of its time. -/
theorem latest?_of_greatest {es : List Entry} {found : Entry} (ho : IsOrdered es)
    (hf : found ∈ es) (hle : found.timestamp ≤ time)
    (hmax : ∀ x ∈ es, x.timestamp ≤ time → x.timestamp ≤ found.timestamp) :
    ∃ e, es[(es.takeWhile fun x => decide (x.timestamp < found.timestamp)).length]? = some e ∧
      e.timestamp ≤ time ∧ Entry.latest? es time = some e := by
  have hsplit := List.takeWhile_append_dropWhile (l := es)
    (p := fun x => decide (x.timestamp < found.timestamp))
  have hbefore : ∀ x ∈ es.takeWhile fun x => decide (x.timestamp < found.timestamp),
      x.timestamp < found.timestamp := by
    intro x hx
    exact of_decide_eq_true (List.all_eq_true.mp List.all_takeWhile x hx)
  -- from here on the front is any row that is earlier than `found`
  generalize es.takeWhile (fun x => decide (x.timestamp < found.timestamp)) = a at *
  cases hb : es.dropWhile fun x => decide (x.timestamp < found.timestamp) with
  | nil =>
    rw [hb, List.append_nil] at hsplit
    exact absurd (hbefore found (hsplit ▸ hf)) (UInt64.lt_irrefl _)
  | cons e b =>
    rw [hb] at hsplit
    subst hsplit
    have hnot : ¬ e.timestamp < found.timestamp := by
      have := List.head?_dropWhile_not (fun x => decide (x.timestamp < found.timestamp))
        (a ++ e :: b)
      rw [hb] at this
      exact of_decide_eq_false this
    have he : e.timestamp = found.timestamp := by
      refine UInt64.le_antisymm ?_ (UInt64.not_lt.mp hnot)
      rcases List.mem_append.mp hf with hf | hf
      · exact absurd (hbefore found hf) (UInt64.lt_irrefl _)
      · rcases List.mem_cons.mp hf with rfl | hf
        · exact UInt64.le_refl _
        · exact (List.pairwise_cons.mp (List.pairwise_append.mp ho).2.1).1 found hf
    refine ⟨e, by simp, he ▸ hle, ?_⟩
    rw [← latestBy?_timestamp, latestBy?_eq_some]
    refine ⟨he ▸ hle, he ▸ hmax, a, b, rfl, ?_⟩
    intro x hx _
    rw [he]
    exact hbefore x hx

/-- What comes behind a row that reaches the time does not change which record is the latest. -/
theorem latest?_append {es more : List Entry} {e last : Entry} (ho : IsOrdered (es ++ more))
    (hl : es.getLast? = some last) (ht : time ≤ last.timestamp)
    (he : Entry.latest? es time = some e) : Entry.latest? (es ++ more) time = some e := by
  rw [← latestBy?_timestamp, latestBy?_eq_some] at he ⊢
  obtain ⟨hle, hmax, a, b, hab, hbefore⟩ := he
  refine ⟨hle, ?_, a, b ++ more, ?_, hbefore⟩
  · intro y hy hyt
    rcases List.mem_append.mp hy with hy | hy
    · exact hmax y hy hyt
    · -- a later record that is not after the time has the time of the last one
      have hmem := List.mem_of_getLast? hl
      have hlast : last.timestamp ≤ y.timestamp := (List.pairwise_append.mp ho).2.2 last hmem y hy
      have hlatest := hmax last hmem (UInt64.le_trans hlast hyt)
      exact UInt64.le_trans hyt (UInt64.le_trans ht hlatest)
  · rw [hab, List.append_assoc]
    rfl

/-- The first halving finds how many records are not after the time. The last of them is the
greatest. -/
theorem bisect_upTo {first : Entry} (ho : IsOrdered (Entry.readAll bs))
    (hfirst : (Entry.readAll bs)[0]? = some first) (hle : first.timestamp ≤ time) :
    ∃ n found, bisect (fun i => return decide ((← readEntry bs i).timestamp ≤ time)) 0
        (Entry.readAll bs).length = .ok (n + 1) ∧ (Entry.readAll bs)[n]? = some found ∧
      found.timestamp ≤ time ∧
        ∀ x ∈ Entry.readAll bs, x.timestamp ≤ time → x.timestamp ≤ found.timestamp := by
  have hearly : ∀ a b, a ≤ b → decide (b ≤ time) = true → decide (a ≤ time) = true := by
    intro a b hab hb
    exact decide_eq_true (UInt64.le_trans hab (of_decide_eq_true hb))
  have hupper := fun {i x} => lt_length_takeWhile (i := i) (x := x) ho hearly
  have hcount := (List.takeWhile_prefix (l := Entry.readAll bs)
    fun e => decide (e.timestamp ≤ time)).length_le
  have hbisect := bisect_early ho hearly (Nat.le_refl _) hcount
  generalize ((Entry.readAll bs).takeWhile fun e => decide (e.timestamp ≤ time)).length = upper
    at hupper hcount hbisect
  have hone := (hupper hfirst).mpr (decide_eq_true hle)
  obtain ⟨n, rfl⟩ : ∃ n, upper = n + 1 := ⟨upper - 1, by omega⟩
  have hfound := List.getElem?_eq_getElem (l := Entry.readAll bs) (i := n) (by omega)
  refine ⟨n, _, hbisect, hfound, of_decide_eq_true ((hupper hfound).mp (by omega)), ?_⟩
  intro x hx ht
  obtain ⟨j, hj⟩ := List.mem_iff_getElem?.mp hx
  have hlt := (hupper hj).mpr (decide_eq_true ht)
  exact ho.le_of_le hj hfound (by omega)

/-- The second halving goes back over the records of the same time. -/
theorem bisect_tie {n : Nat} {found : Entry} (ho : IsOrdered (Entry.readAll bs))
    (hfound : (Entry.readAll bs)[n]? = some found) (hle : found.timestamp ≤ time)
    (hmax : ∀ x ∈ Entry.readAll bs, x.timestamp ≤ time → x.timestamp ≤ found.timestamp) :
    ∃ k e, bisect (fun i => return decide ((← readEntry bs i).timestamp < found.timestamp)) 0 n =
        .ok k ∧ (Entry.readAll bs)[k]? = some e ∧ e.timestamp ≤ time ∧
      Entry.latest? (Entry.readAll bs) time = some e := by
  have hearly : ∀ a b, a ≤ b → decide (b < found.timestamp) = true →
      decide (a < found.timestamp) = true := by
    intro a b hab hb
    exact decide_eq_true (UInt64.lt_of_le_of_lt hab (of_decide_eq_true hb))
  have hcount : ((Entry.readAll bs).takeWhile fun e =>
      decide (e.timestamp < found.timestamp)).length ≤ n := by
    apply Nat.le_of_not_lt
    intro hlt
    have := (lt_length_takeWhile ho hearly hfound).mp hlt
    exact UInt64.lt_irrefl _ (of_decide_eq_true this)
  have hlen := (List.getElem?_eq_some_iff.mp hfound).1
  obtain ⟨e, he, het, hlatest⟩ := latest?_of_greatest ho (List.mem_of_getElem? hfound) hle hmax
  exact ⟨_, e, bisect_early ho hearly (Nat.le_of_lt hlen) hcount, he, het, hlatest⟩

theorem search_nil (path : Path) (h : Entry.readAll bs = []) (time : UInt64) :
    search path bs time = .error (.notFound s!"{path} has no entries") := by
  have hlen := Entry.length_readAll bs
  rw [h, List.length_nil] at hlen
  simp only [search, ← hlen, if_true]
  rfl

theorem search_early {first : Entry} (path : Path) (hfirst : (Entry.readAll bs)[0]? = some first)
    (h : time < first.timestamp) : search path bs time =
      .error (.notFound s!"time {time} precedes first entry {first.timestamp} in {path}") := by
  have hpos := (List.getElem?_eq_some_iff.mp hfirst).1
  rw [Entry.length_readAll] at hpos
  simp only [search, Nat.ne_of_gt hpos, if_false, readEntry_eq_ok hfirst, ok_bind, h, if_true]
  rfl

/-- Where a search ends is decided by its two halvings. -/
theorem search_after {first found e : Entry} {n k : Nat} (path : Path)
    (hfirst : (Entry.readAll bs)[0]? = some first) (hle : first.timestamp ≤ time)
    (hupTo : bisect (fun i => return decide ((← readEntry bs i).timestamp ≤ time)) 0
      (Entry.readAll bs).length = .ok (n + 1))
    (hfound : (Entry.readAll bs)[n]? = some found)
    (htie : bisect (fun i => return decide ((← readEntry bs i).timestamp < found.timestamp)) 0 n =
      .ok k)
    (he : (Entry.readAll bs)[k]? = some e) : search path bs time = .ok e := by
  have hlen : bs.length / Entry.size = (Entry.readAll bs).length := (Entry.length_readAll bs).symm
  have hpos := (List.getElem?_eq_some_iff.mp hfirst).1
  unfold search
  simp only [hlen, Nat.ne_of_gt hpos, if_false, readEntry_eq_ok hfirst, ok_bind,
    UInt64.not_lt.mpr hle, hupTo, Nat.add_sub_cancel, readEntry_eq_ok hfound, htie,
    readEntry_eq_ok he]

theorem search_ok {first : Entry} (path : Path) (ho : IsOrdered (Entry.readAll bs))
    (hfirst : (Entry.readAll bs)[0]? = some first) (hle : first.timestamp ≤ time) :
    ∃ e, e.timestamp ≤ time ∧ Entry.latest? (Entry.readAll bs) time = some e ∧
      search path bs time = .ok e := by
  obtain ⟨n, found, hupTo, hfound, hfoundLe, hmax⟩ := bisect_upTo ho hfirst hle
  obtain ⟨k, e, htie, he, het, hlatest⟩ := bisect_tie ho hfound hfoundLe hmax
  exact ⟨e, het, hlatest, search_after path hfirst hle hupTo hfound htie he⟩

theorem search_cases (path : Path) (ho : IsOrdered (Entry.readAll bs)) (time : UInt64) :
    (∃ e ∈ Entry.readAll bs, e.timestamp ≤ time ∧
        Entry.latest? (Entry.readAll bs) time = some e ∧ search path bs time = .ok e) ∨
      (∀ e ∈ Entry.readAll bs, time < e.timestamp) ∧
        ∃ what, search path bs time = .error (.notFound what) := by
  cases hfirst : (Entry.readAll bs)[0]? with
  | none =>
    rw [← List.head?_eq_getElem?, List.head?_eq_none_iff] at hfirst
    right
    constructor
    · rw [hfirst]
      exact fun _ he => absurd he List.not_mem_nil
    · exact ⟨_, search_nil path hfirst time⟩
  | some first =>
    by_cases hle : first.timestamp ≤ time
    · obtain ⟨e, het, hlatest, hs⟩ := search_ok path ho hfirst hle
      refine .inl ⟨e, ?_, het, hlatest, hs⟩
      rw [← latestBy?_timestamp, latestBy?_eq_some] at hlatest
      obtain ⟨_, _, a, b, hab, _⟩ := hlatest
      rw [hab]
      simp
    · right
      constructor
      · intro e he
        obtain ⟨j, hj⟩ := List.mem_iff_getElem?.mp he
        have := ho.le_of_le hfirst hj (Nat.zero_le j)
        exact UInt64.lt_of_lt_of_le (UInt64.not_le.mp hle) this
      · exact ⟨_, search_early path hfirst (UInt64.not_le.mp hle)⟩

end

end Index

end Timeshift
