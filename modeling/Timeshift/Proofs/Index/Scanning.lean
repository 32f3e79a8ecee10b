import Timeshift.Proofs.Index.Handle
import Timeshift.Proofs.Index.Searching

/-!
# Searching compared with a scan

A pass over a row that keeps the best record so far looks at every record and needs no order. On a
row in order, perhaps with the start of another record behind it, an open handle finds by halving
the record that such a pass ends with, or none if the pass ends with none.
-/

namespace Timeshift.Index

/-! ## One pass -/

def better (time : UInt64) (best : Option Entry) (e : Entry) : Option Entry :=
  if e.timestamp ≤ time ∧ best.all (·.timestamp < e.timestamp) then some e else best

def scan (es : List Entry) (time : UInt64) : Option Entry := es.foldl (better time) none

structure FirstOfLatest (es : List Entry) (time : UInt64) (k : Nat) (e : Entry) : Prop where
  place : es[k]? = some e
  upTo : e.timestamp ≤ time
  greatest : ∀ y ∈ es, y.timestamp ≤ time → y.timestamp ≤ e.timestamp
  first : ∀ j y, j < k → es[j]? = some y → y.timestamp ≠ e.timestamp

def Best (es : List Entry) (time : UInt64) : Option Entry → Prop
  | none => ∀ y ∈ es, time < y.timestamp
  | some e => ∃ k, FirstOfLatest es time k e

section
variable {es : List Entry} {best : Option Entry} {e e' : Entry} {time : UInt64} {k k' : Nat}

theorem FirstOfLatest.unique (h : FirstOfLatest es time k e) (h' : FirstOfLatest es time k' e') :
    k = k' ∧ e = e' := by
  have hle := h'.greatest e (List.mem_of_getElem? h.place) h.upTo
  have hge := h.greatest e' (List.mem_of_getElem? h'.place) h'.upTo
  have htime : e.timestamp = e'.timestamp := UInt64.le_antisymm hle hge
  have hk : k = k' := by
    rcases Nat.lt_trichotomy k k' with hlt | heq | hgt
    · exact absurd htime (h'.first k e hlt h.place)
    · exact heq
    · exact absurd htime.symm (h.first k' e' hgt h'.place)
  refine ⟨hk, ?_⟩
  have hplace := h.place
  rw [hk, h'.place] at hplace
  exact (Option.some.inj hplace).symm

theorem firstOfLatest_of_latest? (h : Entry.latest? es time = some e) :
    ∃ k, FirstOfLatest es time k e := by
  rw [← latestBy?_timestamp] at h
  obtain ⟨hle, hmax, a, b, rfl, hbefore⟩ := latestBy?_eq_some.mp h
  refine ⟨a.length, by simp, hle, hmax, ?_⟩
  intro j y hj hy htime
  rw [List.getElem?_append_left hj] at hy
  have hlt := hbefore y (List.mem_of_getElem? hy) (htime ▸ hle)
  exact UInt64.ne_of_lt hlt htime

theorem FirstOfLatest.concat (h : FirstOfLatest es time k e)
    (hnext : e'.timestamp ≤ time → e'.timestamp ≤ e.timestamp) :
    FirstOfLatest (es ++ [e']) time k e := by
  have hk := (List.getElem?_eq_some_iff.mp h.place).1
  refine ⟨?_, h.upTo, ?_, ?_⟩
  · rw [List.getElem?_append_left hk]
    exact h.place
  · intro y hy
    rcases List.mem_append.mp hy with hy | hy
    · exact h.greatest y hy
    · rw [List.mem_singleton.mp hy]
      exact hnext
  · intro j y hj hy
    rw [List.getElem?_append_left (Nat.lt_trans hj hk)] at hy
    exact h.first j y hj hy

theorem firstOfLatest_last (hle : e.timestamp ≤ time)
    (hlt : ∀ y ∈ es, y.timestamp ≤ time → y.timestamp < e.timestamp) :
    FirstOfLatest (es ++ [e]) time es.length e := by
  refine ⟨by simp, hle, ?_, ?_⟩
  · intro y hy ht
    rcases List.mem_append.mp hy with hy | hy
    · exact UInt64.le_of_lt (hlt y hy ht)
    · rw [List.mem_singleton.mp hy]
      exact UInt64.le_refl _
  · intro j y hj hy htime
    rw [List.getElem?_append_left hj] at hy
    exact UInt64.ne_of_lt (hlt y (List.mem_of_getElem? hy) (htime ▸ hle)) htime

theorem best_better (h : Best es time best) (e : Entry) :
    Best (es ++ [e]) time (better time best e) := by
  unfold better
  split
  · rename_i htake
    obtain ⟨hle, hbest⟩ := htake
    refine ⟨_, firstOfLatest_last hle ?_⟩
    intro y hy ht
    cases best with
    | none => exact absurd ht (UInt64.not_le.mpr (h y hy))
    | some b =>
      obtain ⟨k, hb⟩ := h
      exact UInt64.lt_of_le_of_lt (hb.greatest y hy ht) (of_decide_eq_true hbest)
  · rename_i hkeep
    cases best with
    | none =>
      intro y hy
      rcases List.mem_append.mp hy with hy | hy
      · exact h y hy
      · rw [List.mem_singleton.mp hy]
        exact UInt64.not_le.mp fun hle => hkeep ⟨hle, rfl⟩
    | some b =>
      obtain ⟨k, hb⟩ := h
      refine ⟨k, hb.concat ?_⟩
      intro hle
      exact UInt64.not_lt.mp fun hlt => hkeep ⟨hle, decide_eq_true hlt⟩

theorem best_foldl (more : List Entry) (h : Best es time best) :
    Best (es ++ more) time (more.foldl (better time) best) := by
  induction more generalizing es best with
  | nil =>
    rw [List.append_nil]
    exact h
  | cons e more ih =>
    have hstep := ih (best_better h e)
    rwa [List.append_assoc] at hstep

theorem best_scan (es : List Entry) (time : UInt64) : Best es time (scan es time) := by
  have hnone : Best [] time none := fun y hy => absurd hy List.not_mem_nil
  exact best_foldl es hnone

/-- On a row in order the first record tells whether a pass ends with none. -/
theorem scan_eq_none (ho : IsOrdered es) :
    scan es time = none ↔ es = [] ∨ ∃ first ∈ es.head?, time < first.timestamp := by
  have hbest := best_scan es time
  constructor
  · intro h
    rw [h] at hbest
    cases es with
    | nil => exact .inl rfl
    | cons first es => exact .inr ⟨first, rfl, hbest first List.mem_cons_self⟩
  · intro h
    cases hs : scan es time with
    | none => rfl
    | some e =>
      rw [hs] at hbest
      obtain ⟨k, hk⟩ := hbest
      rcases h with rfl | ⟨first, hfirst, hlt⟩
      · cases hk.place
      · rw [Option.mem_def, List.head?_eq_getElem?] at hfirst
        have hle := ho.le_of_le hfirst hk.place (Nat.zero_le k)
        exact absurd (UInt64.lt_of_lt_of_le hlt hle) (UInt64.not_lt.mpr hk.upTo)

/-! ## Halving -/

theorem search_eq_scan {bs : Bytes} (path : Path) (ho : IsOrdered (Entry.readAll bs))
    (time : UInt64) :
    (∃ e, search path bs time = .ok e ∧ scan (Entry.readAll bs) time = some e) ∨
      ∃ what, search path bs time = .error (.notFound what) ∧
        scan (Entry.readAll bs) time = none := by
  have hbest := best_scan (Entry.readAll bs) time
  rcases search_cases path ho time with ⟨e, he, hle, hlatest, hs⟩ | ⟨hlate, what, hs⟩
  · left
    refine ⟨e, hs, ?_⟩
    obtain ⟨k, hk⟩ := firstOfLatest_of_latest? hlatest
    cases hscan : scan (Entry.readAll bs) time with
    | none =>
      rw [hscan] at hbest
      exact absurd hle (UInt64.not_le.mpr (hbest e he))
    | some e' =>
      rw [hscan] at hbest
      obtain ⟨k', hk'⟩ := hbest
      rw [(hk'.unique hk).2]
  · right
    refine ⟨what, hs, ?_⟩
    cases hscan : scan (Entry.readAll bs) time with
    | none => rfl
    | some e' =>
      rw [hscan] at hbest
      obtain ⟨k', hk'⟩ := hbest
      exact absurd hk'.upTo (UInt64.not_le.mpr (hlate e' (List.mem_of_getElem? hk'.place)))

/-- An open handle finds no record if there is none or the time is before the first one. It answers
with the first of those with the greatest timestamp not after the time otherwise, which is where
one pass over the complete records ends. -/
theorem lookUp_eq_scan {x : Index} {i : FileId} {d : Disk} {torn : Bytes} (hx : x.file = some i)
    (hc : d.content i = Entry.encodeAll es ++ torn) (ht : torn.length < Entry.size)
    (ho : IsOrdered es) (time : UInt64) :
    ((∃ what, x.lookUp time d = .error (.notFound what)) ↔
      es = [] ∨ ∃ first ∈ es.head?, time < first.timestamp) ∧
    ((∃ what, x.lookUp time d = .error (.notFound what)) ∨
      ∃ k e, FirstOfLatest es time k e ∧ x.lookUp time d = .ok e.offset) ∧
    (x.lookUp time d).toOption = (scan es time).map (·.offset) := by
  have hread : Entry.readAll (d.content i) = es := by
    rw [hc, Entry.readAll_append torn ht]
  have hlook : x.lookUp time d = (search x.path (d.content i) time).map (·.offset) := by
    unfold lookUp bytes
    rw [hx]
    rfl
  rw [hlook, ← scan_eq_none ho]
  rcases search_eq_scan x.path (hread.symm ▸ ho) time with ⟨e, hs, hscan⟩ | ⟨what, hs, hscan⟩
  · rw [hread] at hscan
    have hbest := best_scan es time
    rw [hscan] at hbest
    obtain ⟨k, hk⟩ := hbest
    rw [hs, hscan]
    exact ⟨⟨nofun, nofun⟩, .inr ⟨k, e, hk, rfl⟩, rfl⟩
  · rw [hread] at hscan
    rw [hs, hscan]
    exact ⟨⟨fun _ => rfl, fun _ => ⟨what, rfl⟩⟩, .inl ⟨what, rfl⟩, rfl⟩

end

def tiedDisk : Disk :=
  ⟨[], [(["live.idx".toList], .file 0)],
    [(0, { content := Entry.encodeAll [⟨5, 0⟩, ⟨7, 188⟩, ⟨7, 376⟩, ⟨9, 564⟩] ++ [9, 0, 0] })], 1⟩

/-- A time between the records, one before them and the last time of all. -/
theorem lookUp_eq_scan_tied : ∃ x, openPlayback ⟨"live.idx"⟩ tiedDisk = .ok x ∧
    (x.lookUp 8 tiedDisk).toOption = some 188 ∧
      (∃ what, x.lookUp 4 tiedDisk = .error (.notFound what)) ∧
        (x.lookUp 18446744073709551615 tiedDisk).toOption = some 564 := by
  have ho : IsOrdered [⟨5, 0⟩, ⟨7, 188⟩, ⟨7, 376⟩, ⟨9, 564⟩] := by
    unfold IsOrdered
    decide
  have hopen : openPlayback ⟨"live.idx"⟩ tiedDisk =
      .ok ⟨⟨"live.idx"⟩, .playback, some 0, some ⟨9, 564⟩, 4, 0⟩ := by decide
  have hcontent : tiedDisk.content 0 =
      Entry.encodeAll [⟨5, 0⟩, ⟨7, 188⟩, ⟨7, 376⟩, ⟨9, 564⟩] ++ [9, 0, 0] := rfl
  have hanswer := lookUp_eq_scan (x := ⟨⟨"live.idx"⟩, .playback, some 0, some ⟨9, 564⟩, 4, 0⟩)
    rfl hcontent (by decide) ho
  refine ⟨_, hopen, (hanswer 8).2.2, ?_, (hanswer _).2.2⟩
  exact (hanswer 4).1.mpr (.inr ⟨⟨5, 0⟩, rfl, by decide⟩)

end Timeshift.Index
