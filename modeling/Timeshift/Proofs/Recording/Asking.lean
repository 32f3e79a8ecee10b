import Timeshift.Recording
import Timeshift.Proofs.Segment

/-!
# Asking a recording

A question changes no more of a recording than what the segment that answers has open. Which segment
that is for a time hangs on the starts alone: the last that starts at or before it.
-/

namespace Timeshift.Recording

section
variable {r : Recording} {k : Nat}

/-- The place that a time belongs to hangs on the starts alone. -/
theorem place?_eq (r : Recording) (time : UInt64) : r.place? time =
    match ((r.segments.map (·.start)).takeWhile (· ≤ time)).length with
    | 0 => none
    | n + 1 => some n := by
  unfold place?
  rw [List.takeWhile_map, List.length_map]
  rfl

theorem place?_congr {r' : Recording} (h : r'.segments.map (·.start) = r.segments.map (·.start))
    (time : UInt64) : r'.place? time = r.place? time := by
  rw [place?_eq, place?_eq, h]

theorem lt_of_place? {time : UInt64} (h : r.place? time = some k) : k < r.segments.length := by
  unfold place? at h
  have hle : (r.segments.takeWhile (·.start ≤ time)).length ≤ r.segments.length :=
    List.IsPrefix.length_le <| List.takeWhile_prefix _
  split at h
  · cases h
  · rename_i n hn
    cases h
    rw [hn] at hle
    exact hle

/-- In order, the segments that start too late are those behind. -/
theorem lt_start_of_mem_dropWhile {segments : List Segment} {s : Segment} {time : UInt64}
    (ho : segments.Pairwise fun s t => s.start ≤ t.start)
    (hs : s ∈ segments.dropWhile (·.start ≤ time)) : time < s.start := by
  induction segments with
  | nil => cases hs
  | cons t segments ih =>
    obtain ⟨ht, ho⟩ := List.pairwise_cons.mp ho
    by_cases hle : t.start ≤ time
    · rw [List.dropWhile_cons_of_pos (by simpa using hle)] at hs
      exact ih ho hs
    · rw [List.dropWhile_cons_of_neg (by simpa using hle)] at hs
      apply UInt64.lt_of_lt_of_le (UInt64.not_le.mp hle)
      rcases List.mem_cons.mp hs with rfl | hs
      · exact UInt64.le_refl _
      · exact ht s hs

theorem place?_cases (ho : r.segments.Pairwise fun s t => s.start ≤ t.start) (time : UInt64) :
    (r.place? time = none ∧ ∀ s ∈ r.segments, time < s.start) ∨
      ∃ a s b, r.segments = a ++ s :: b ∧ r.place? time = some a.length ∧ s.start ≤ time ∧
        ∀ u ∈ b, time < u.start := by
  have hsplit := List.takeWhile_append_dropWhile (l := r.segments)
    (p := fun s => decide (s.start ≤ time))
  have hlate : ∀ s ∈ r.segments.dropWhile (·.start ≤ time), time < s.start :=
    fun _ => lt_start_of_mem_dropWhile ho
  unfold place?
  rcases List.eq_nil_or_concat (r.segments.takeWhile (·.start ≤ time)) with h | ⟨a, s, h⟩
  · rw [h, List.nil_append] at hsplit
    rw [hsplit] at hlate
    rw [h]
    exact .inl ⟨rfl, hlate⟩
  · rw [List.concat_eq_append] at h
    have hs := List.all_eq_true.mp List.all_takeWhile s (h ▸ List.mem_concat_self)
    right
    refine ⟨a, s, r.segments.dropWhile (·.start ≤ time), ?_, ?_, of_decide_eq_true hs, hlate⟩
    · rw [List.append_cons, ← h, hsplit]
    · rw [h, List.length_append]
      rfl

theorem getLast?_filter_start {α : Type} {start : α → UInt64} {a b : List α} {s : α}
    {time : UInt64} (hs : start s ≤ time) (hb : ∀ u ∈ b, time < start u) :
    ((a ++ s :: b).filter (start · ≤ time)).getLast? = some s := by
  have hnil : b.filter (start · ≤ time) = [] := by
    rw [List.filter_eq_nil_iff]
    intro u hu
    simpa using hb u hu
  rw [List.filter_append, List.filter_cons_of_pos (by simpa using hs), hnil]
  simp

/-- The segment that a time belongs to is the last of those that start at or before it. -/
theorem segmentAt?_eq (ho : r.segments.Pairwise fun s t => s.start ≤ t.start) (time : UInt64) :
    r.segmentAt? time = (r.segments.filter (·.start ≤ time)).getLast? := by
  unfold segmentAt?
  rcases place?_cases ho time with ⟨hp, hlate⟩ | ⟨a, s, b, hab, hp, hs, hlate⟩
  · rw [hp, List.filter_eq_nil_iff.mpr]
    · rfl
    · intro s hs
      simpa using hlate s hs
  · rw [hp, hab, getLast?_filter_start hs hlate]
    simp

theorem lookUp_none {time : UInt64} (h : r.place? time = none) (d : Disk) :
    r.lookUp time d = (.error (r.beforeStart time), r) := by
  unfold lookUp
  rw [h]

theorem lookUp_some {time : UInt64} {s : Segment} (h : r.place? time = some k)
    (hs : r.segments[k]? = some s) (d : Disk) :
    let asked := s.query (·.lookUp time d) d
    r.lookUp time d =
      (asked.1.map (asked.2, ·), { r with segments := r.segments.set k asked.2 }) := by
  unfold lookUp query
  rw [h]
  simp only [hs]
  rfl

theorem map_set {f : Segment → β} {s t : Segment} (hs : r.segments[k]? = some s)
    (h : f t = f s) : (r.segments.set k t).map f = r.segments.map f := by
  obtain ⟨hk, rfl⟩ := List.getElem?_eq_some_iff.mp hs
  have hk' : k < (r.segments.map f).length := by rwa [List.length_map]
  have hget : (r.segments.map f)[k] = f t := by rw [List.getElem_map, h]
  rw [List.map_set, ← hget, List.set_getElem_self]

theorem query_recording (ask : Index → Except Error α) (r : Recording) (k : Nat) (d : Disk) :
    (r.query k (·.query ask d)).2 = r ∨ ∃ s, r.segments[k]? = some s ∧
      (r.query k (·.query ask d)).2 =
        { r with segments := r.segments.set k (s.query ask d).2 } := by
  unfold query
  cases hs : r.segments[k]? with
  | none => exact .inl rfl
  | some s => exact .inr ⟨s, rfl, rfl⟩

theorem lookUp_recording (r : Recording) (time : UInt64) (d : Disk) : (r.lookUp time d).2 = r ∨
    ∃ (k : Nat) (s : Segment), r.segments[k]? = some s ∧ (r.lookUp time d).2 =
      { r with segments := r.segments.set k (s.query (·.lookUp time d) d).2 } := by
  cases hp : r.place? time with
  | none => exact .inl (by rw [lookUp_none hp])
  | some k =>
    have hs := List.getElem?_eq_getElem (lt_of_place? hp)
    exact .inr ⟨k, _, hs, by rw [lookUp_some hp hs]⟩

theorem lookUp_finished (r : Recording) (time : UInt64) (d : Disk) :
    (r.lookUp time d).2.finished = r.finished := by
  rcases r.lookUp_recording time d with h | ⟨_, _, _, h⟩
  · rw [h]
  · rw [h]

/-- Nothing is being recorded, as in any recording that was loaded. -/
def Idle (r : Recording) : Prop := ∀ s ∈ r.segments, s.writer = none

theorem idle_ofManifest (base : Option Path) (m : Manifest) : (ofManifest base m).Idle := by
  intro s hs
  obtain ⟨_, _, rfl⟩ := List.mem_map.mp hs
  rfl

theorem Idle.lookUp (h : r.Idle) (time : UInt64) (d : Disk) : (r.lookUp time d).2.Idle := by
  rcases r.lookUp_recording time d with he | ⟨k, s, hs, he⟩
  · rw [he]
    exact h
  · rw [he]
    intro u hu
    rcases List.mem_or_eq_of_mem_set hu with hu | rfl
    · exact h u hu
    · rw [s.query_sameButReader (·.lookUp time d) d]
      exact h s (List.mem_of_getElem? hs)

theorem beforeStart_eq (r : Recording) (time : UInt64) :
    ∃ what, r.beforeStart time = .notFound what := by
  unfold beforeStart
  cases r.segments.head? with
  | none => exact ⟨_, rfl⟩
  | some first => exact ⟨_, rfl⟩

theorem beforeStart_congr {r' : Recording}
    (h : r'.segments.map (·.start) = r.segments.map (·.start)) (time : UInt64) :
    r'.beforeStart time = r.beforeStart time := by
  have hhead := congrArg List.head? h
  rw [List.head?_map, List.head?_map] at hhead
  unfold beforeStart
  cases hr : r.segments.head? with
  | none =>
    rw [hr, Option.map_none, Option.map_eq_none_iff] at hhead
    rw [hhead]
  | some first =>
    rw [hr, Option.map_some] at hhead
    obtain ⟨first', hfirst, hstart⟩ := Option.map_eq_some_iff.mp hhead
    simp only [hfirst, hstart]

end

end Timeshift.Recording
