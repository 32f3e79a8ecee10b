import Timeshift.Proofs.Index.Scanning
import Timeshift.Proofs.Recording.Confined
import Timeshift.Proofs.Recording.Making

/-!
# Later times and later positions

Where offsets rise with the timestamps, a later time is never resolved to an earlier position: not
to an earlier segment, and in the same segment not to a lower offset. Nor does a time fail in a
segment that an earlier one was found in. This holds of any two lookups, whatever the segments that
answer have open.
-/

namespace Timeshift

namespace Index

def Rising (es : List Entry) : Prop :=
  es.Pairwise fun a b => a.timestamp ≤ b.timestamp ∧ a.offset ≤ b.offset

instance decidableRising (es : List Entry) : Decidable (Rising es) :=
  inferInstanceAs (Decidable (es.Pairwise _))

section
variable {es : List Entry} {time : UInt64} {k : Nat} {e y : Entry}

theorem Rising.ordered (h : Rising es) : IsOrdered es := List.Pairwise.imp And.left h

/-- No record from the resolved timestamp on has a lower offset. -/
theorem Rising.offset_le (h : Rising es) (hfirst : FirstOfLatest es time k e) (hy : y ∈ es)
    (hle : e.timestamp ≤ y.timestamp) : e.offset ≤ y.offset := by
  obtain ⟨j, hj⟩ := List.mem_iff_getElem?.mp hy
  have hk := hfirst.place
  rcases Nat.lt_trichotomy j k with hlt | rfl | hgt
  · -- a record in front with this timestamp would have been the first
    have hge := h.ordered.le_of_le hj hk (Nat.le_of_lt hlt)
    exact absurd (UInt64.le_antisymm hge hle) (hfirst.first j y hlt hj)
  · rw [hk] at hj
    cases hj
    exact UInt64.le_refl _
  · obtain ⟨_, rfl⟩ := List.getElem?_eq_some_iff.mp hj
    obtain ⟨_, rfl⟩ := List.getElem?_eq_some_iff.mp hk
    exact (List.pairwise_iff_getElem.mp h _ _ _ _ hgt).2

theorem FirstOfLatest.timestamp_le {time' : UInt64} {k' : Nat} {e' : Entry}
    (h : FirstOfLatest es time k e) (h' : FirstOfLatest es time' k' e') (hle : time ≤ time') :
    e.timestamp ≤ e'.timestamp :=
  h'.greatest e (List.mem_of_getElem? h.place) (UInt64.le_trans h.upTo hle)

end

end Index

namespace Recording

def Rising (r : Recording) (d : Disk) : Prop :=
  ∀ s ∈ r.segments, ∀ es, (s.entries d).1 = .ok es → Index.Rising es

def position (r : Recording) (s : Segment) : Nat := r.segments.findIdx (·.path = s.path)

structure Leads (r : Recording) (d : Disk) (time : UInt64) (k : Nat) (s : Segment)
    (es : List Entry) (e : Entry) : Prop where
  place : r.place? time = some k
  segment : r.segments[k]? = some s
  entries : (s.entries d).1 = .ok es
  first : ∃ n, Index.FirstOfLatest es time n e

section
variable {r₀ r : Recording} {d : Disk} {time t₁ t₂ n : UInt64} {k k₁ k₂ : Nat} {s u : Segment}
  {es : List Entry} {e : Entry}

/-! ## Segments -/

theorem place?_mono (ho : r.segments.Pairwise fun s t => s.start ≤ t.start) (h : t₁ ≤ t₂)
    (h₁ : r.place? t₁ = some k₁) (h₂ : r.place? t₂ = some k₂) : k₁ ≤ k₂ := by
  rcases place?_cases ho t₂ with ⟨hnone, _⟩ | ⟨a, s, b, hab, hp, _, hlate⟩
  · rw [hnone] at h₂
    cases h₂
  · rw [hp] at h₂
    cases h₂
    rcases place?_cases ho t₁ with ⟨hnone, _⟩ | ⟨a₁, s₁, b₁, hab₁, hp₁, hle, _⟩
    · rw [hnone] at h₁
      cases h₁
    · rw [hp₁] at h₁
      cases h₁
      apply Nat.le_of_not_lt
      intro hlt
      -- behind the later place all segments start too late
      have hs₁ : (a ++ s :: b)[a₁.length]? = some s₁ := by rw [← hab, hab₁]; simp
      rw [List.getElem?_append_right (Nat.le_of_lt hlt)] at hs₁
      obtain ⟨m, hm⟩ := Nat.exists_eq_succ_of_ne_zero (Nat.sub_ne_zero_of_lt hlt)
      rw [hm, List.getElem?_cons_succ] at hs₁
      have hlt₁ := hlate s₁ (List.mem_of_getElem? hs₁)
      exact absurd (UInt64.le_trans hle h) (UInt64.not_le.mpr hlt₁)

theorem Represented.position_eq (h : Represented r₀ r) (hs : r.segments[k]? = some s)
    (hu : s.SameButReader u) : r.position u = k := by
  obtain ⟨hk, rfl⟩ := List.getElem?_eq_some_iff.mp hs
  have hdistinct := h.inOrder.distinct
  rw [manifest_items, List.pairwise_map] at hdistinct
  unfold position
  rw [List.findIdx_eq hk, hu.samePlace.path]
  refine ⟨decide_eq_true rfl, fun j hj => decide_eq_false ?_⟩
  exact List.pairwise_iff_getElem.mp hdistinct j k _ _ hj

/-! ## Lookups -/

theorem Came.row_of_ok {α : Type} (hb : r₀.Begins) (hr : Came r₀ r) (hs : s ∈ r.segments)
    {ask : Index → Except Error α} {a : α} (h : (s.query ask d).1 = .ok a) :
    ∃ x i, s.handle d = .ok x ∧ x.file = some i ∧
      (s.entries d).1 = .ok (Entry.readAll (d.content i)) := by
  rw [s.query_fst] at h
  obtain ⟨x, hx, _⟩ := bind_eq_ok.mp h
  obtain ⟨i, hi⟩ := hr.handle_file hb hs hx
  exact ⟨x, i, hx, hi, Segment.entries_of_handle hx hi⟩

theorem Came.answers (hb : r₀.Begins) (hr : Came r₀ r) (hs : s ∈ r.segments)
    (he : (s.entries d).1 = .ok es) (ho : Index.IsOrdered es) (time : UInt64) :
    Index.Answers es time (s.query (·.lookUp time d) d).1 := by
  obtain ⟨x, i, hx, hi, hrow⟩ := hr.row_of_ok hb hs he
  rw [he] at hrow
  cases hrow
  rw [s.query_fst, hx]
  exact Index.answers_lookUp hi ho time

theorem Came.leads (hb : r₀.Begins) (hr : Came r₀ r) (hrising : r.Rising d)
    (h : (r.lookUp time d).1 = .ok (u, n)) :
    ∃ k s es e, r.Leads d time k s es e ∧ u = (s.query (·.lookUp time d) d).2 ∧ n = e.offset := by
  cases hp : r.place? time with
  | none =>
    rw [lookUp_none hp] at h
    cases h
  | some k =>
    obtain ⟨s, hs⟩ : ∃ s, r.segments[k]? = some s :=
      ⟨_, List.getElem?_eq_getElem (lt_of_place? hp)⟩
    have hmem := List.mem_of_getElem? hs
    rw [lookUp_some hp hs] at h
    cases hq : (s.query (·.lookUp time d) d).1 with
    | error err =>
      rw [hq] at h
      cases h
    | ok offset =>
      obtain ⟨_, i, _, _, hrow⟩ := hr.row_of_ok hb hmem hq
      have hanswers := hr.answers hb hmem hrow (hrising s hmem _ hrow).ordered time
      rw [hq] at h hanswers
      cases h
      cases hanswers with
      | @found e _ _ hlatest =>
        exact ⟨k, s, _, e, ⟨hp, hs, hrow, Index.firstOfLatest_of_latest? hlatest⟩, rfl, rfl⟩

theorem Leads.offset_le {es₁ es₂ : List Entry} {e₁ e₂ : Entry} {s₁ s₂ : Segment}
    (h₁ : r.Leads d t₁ k s₁ es₁ e₁) (h₂ : r.Leads d t₂ k s₂ es₂ e₂) (hrising : r.Rising d)
    (hle : t₁ ≤ t₂) : e₁.offset ≤ e₂.offset := by
  have hs := h₁.segment
  rw [h₂.segment] at hs
  cases hs
  have hes := h₁.entries
  rw [h₂.entries] at hes
  cases hes
  obtain ⟨_, hfirst₁⟩ := h₁.first
  obtain ⟨_, hfirst₂⟩ := h₂.first
  have hrow := hrising s₁ (List.mem_of_getElem? h₁.segment) es₁ h₁.entries
  exact hrow.offset_le hfirst₁ (List.mem_of_getElem? hfirst₂.place)
    (hfirst₁.timestamp_le hfirst₂ hle)

/-- A time that falls in the segment is found there if an earlier one is. -/
theorem Leads.later (h : r.Leads d t₁ k s es e) (hb : r₀.Begins) (hr : Came r₀ r)
    (hrising : r.Rising d) (hle : t₁ ≤ t₂) (hsame : r.segmentAt? t₂ = r.segmentAt? t₁) :
    ∃ u n, (r.lookUp t₂ d).1 = .ok (u, n) := by
  have hat : r.segmentAt? t₂ = some s := by
    rw [hsame]
    unfold segmentAt?
    rw [h.place, Option.bind_some, h.segment]
  obtain ⟨k₂, hp, hs⟩ := Option.bind_eq_some_iff.mp hat
  have hmem := List.mem_of_getElem? hs
  have hanswers := hr.answers hb hmem h.entries (hrising s hmem es h.entries).ordered t₂
  rw [lookUp_some hp hs]
  generalize (s.query (·.lookUp t₂ d) d).1 = answer at hanswers
  cases hanswers with
  | found _ _ _ => exact ⟨_, _, rfl⟩
  | notFound hlate =>
    obtain ⟨_, hfirst⟩ := h.first
    have hlt := hlate e (List.mem_of_getElem? hfirst.place)
    exact absurd (UInt64.le_trans hfirst.upTo hle) (UInt64.not_le.mpr hlt)

/-- What a segment has opened does not change an answer. -/
theorem answer_asked {α : Type} (hs : r.segments[k]? = some s) (ask : Index → Except Error α)
    (time : UInt64) (d : Disk) :
    answer { r with segments := r.segments.set k (s.query ask d).2 } time d =
      r.answer time d := by
  have hk := (List.getElem?_eq_some_iff.mp hs).1
  apply answer_congr
  · exact map_set hs (s.query_sameButReader ask d).shut_eq
  · intro j t t' ht ht'
    by_cases hkj : k = j
    · subst hkj
      rw [List.getElem?_set_self hk] at ht'
      rw [hs] at ht
      cases ht
      cases ht'
      rw [Segment.query_fst, Segment.query_fst, s.handle_query]
    · rw [List.getElem?_set_ne hkj, ht] at ht'
      cases ht'
      rfl

theorem answer_after_lookUp (r : Recording) (time time' : UInt64) (d : Disk) :
    (r.lookUp time d).2.answer time' d = r.answer time' d := by
  rcases r.lookUp_recording time d with h | ⟨k, s, hs, h⟩
  · rw [h]
  · rw [h]
    exact answer_asked hs _ time' d

/-- Of two times the later one is not resolved to an earlier position, and is resolved if it falls
in the segment where the earlier one was found. What is found is the first of the latest records,
and no other of that timestamp has a lower offset. None of this depends on which is looked up
first. -/
theorem lookUp_ascending (hb : r₀.Begins) (hr : Came r₀ r) (hrising : r.Rising d)
    (hle : t₁ ≤ t₂) :
    (∀ u₁ n₁ u₂ n₂, (r.lookUp t₁ d).1 = .ok (u₁, n₁) → (r.lookUp t₂ d).1 = .ok (u₂, n₂) →
      r.position u₁ < r.position u₂ ∨ r.position u₁ = r.position u₂ ∧ n₁ ≤ n₂) ∧
    (∀ u₁ n₁, (r.lookUp t₁ d).1 = .ok (u₁, n₁) → r.segmentAt? t₂ = r.segmentAt? t₁ →
      ∃ u₂ n₂, (r.lookUp t₂ d).1 = .ok (u₂, n₂)) ∧
    (∀ time u n, (r.lookUp time d).1 = .ok (u, n) → ∃ es k e, (u.entries d).1 = .ok es ∧
      Index.FirstOfLatest es time k e ∧ n = e.offset ∧
      ∀ y ∈ es, y.timestamp = e.timestamp → n ≤ y.offset) ∧
    ∀ time time', (r.lookUp time d).2.answer time' d = r.answer time' d := by
  have hrep := hb.representation.came hr
  refine ⟨?_, ?_, ?_, fun time time' => r.answer_after_lookUp time time' d⟩
  · intro u₁ n₁ u₂ n₂ h₁ h₂
    obtain ⟨k₁, s₁, es₁, e₁, hleads₁, rfl, rfl⟩ := hr.leads hb hrising h₁
    obtain ⟨k₂, s₂, es₂, e₂, hleads₂, rfl, rfl⟩ := hr.leads hb hrising h₂
    rw [hrep.position_eq hleads₁.segment (s₁.query_sameButReader _ d),
      hrep.position_eq hleads₂.segment (s₂.query_sameButReader _ d)]
    rcases Nat.lt_or_eq_of_le (place?_mono hrep.starts hle hleads₁.place hleads₂.place) with
      hlt | rfl
    · exact .inl hlt
    · exact .inr ⟨rfl, hleads₁.offset_le hleads₂ hrising hle⟩
  · intro u₁ n₁ h₁ hsame
    obtain ⟨k, s, es, e, hleads, _, _⟩ := hr.leads hb hrising h₁
    exact hleads.later hb hr hrising hle hsame
  · intro time u n h
    obtain ⟨k, s, es, e, hleads, rfl, rfl⟩ := hr.leads hb hrising h
    obtain ⟨j, hfirst⟩ := hleads.first
    refine ⟨es, j, e, (s.entries_query _ d).trans hleads.entries, hfirst, rfl, ?_⟩
    intro y hy htime
    have hmem := List.mem_of_getElem? hleads.segment
    exact (hrising s hmem es hleads.entries).offset_le hfirst hy (UInt64.le_of_eq htime.symm)

end

/-! ## Two segments, with two records at one time -/

def restarted : Recording × World :=
  (empty "idx" none).performAll plainWorld [.append firstName 10, .record ⟨12, 7⟩, .record ⟨12, 9⟩,
    .record ⟨14, 20⟩, .append secondName 20, .record ⟨20, 3⟩]

theorem came_restarted : Came (empty "idx" none) restarted.1 :=
  ((Went.start plainWorld).performAll (by decide)).came

theorem entries_restarted : (restarted.1.segments.map fun s => (s.entries restarted.2.disk).1) =
    [.ok [⟨12, 7⟩, ⟨12, 9⟩, ⟨14, 20⟩], .ok [⟨20, 3⟩]] := by decide +kernel

theorem rising_restarted : restarted.1.Rising restarted.2.disk := by
  intro s hs es hes
  have hmem := List.mem_map_of_mem (f := fun s => (s.entries restarted.2.disk).1) hs
  rw [entries_restarted, hes] at hmem
  rcases List.mem_cons.mp hmem with h | h
  · cases h
    decide
  · cases List.mem_singleton.mp h
    decide

/-- The second segment starts again at a low offset, and its times are still the later ones. -/
theorem lookUp_ascending_restarted :
    let r := restarted.1
    let d := restarted.2.disk
    ∃ u₁ u₂, (r.lookUp 13 d).1 = .ok (u₁, 7) ∧ (r.lookUp 22 d).1 = .ok (u₂, 3) ∧
      r.position u₁ < r.position u₂ ∧ ∃ u n, (r.lookUp 19 d).1 = .ok (u, n) := by
  intro r d
  have hfound : (r.lookUp 13 d).1.map (·.2) = .ok 7 ∧ (r.lookUp 22 d).1.map (·.2) = .ok 3 := by
    decide +kernel
  have hsame : r.segmentAt? 19 = r.segmentAt? 13 := by decide +kernel
  obtain ⟨⟨u₁, _⟩, h₁, rfl⟩ := map_eq_ok.mp hfound.1
  obtain ⟨⟨u₂, _⟩, h₂, rfl⟩ := map_eq_ok.mp hfound.2
  have hascending := fun t (ht : 13 ≤ t) =>
    lookUp_ascending (.inl ⟨"idx", rfl⟩) came_restarted rising_restarted ht
  refine ⟨u₁, u₂, h₁, h₂, ?_, (hascending 19 (by decide)).2.1 _ _ h₁ hsame⟩
  rcases (hascending 22 (by decide)).1 _ _ _ _ h₁ h₂ with hlt | ⟨_, hle⟩
  · exact hlt
  · exact absurd hle (by decide)

end Recording

end Timeshift
