import Timeshift.Proofs.Player.Clamping

/-!
# Seeking outside the range of a recording

Before its start and after its stop a player that clamps finds a place in every recording whose
segments have records. It says that it clamped where the segment it was sent to has nothing so
early. After the stop that is hardly ever so: there the last record is found as in any gap.
-/

namespace Timeshift

namespace Recording

def Stocked (r : Recording) (d : Disk) : Prop :=
  ∀ s ∈ r.segments, ∃ es, (s.entries d).1 = .ok es ∧ Index.IsOrdered es ∧ es ≠ []

section
variable {r : Recording} {s t : Segment} {init : List Segment} {first last time : UInt64}

theorem timeRange?_eq_some : r.timeRange? = some (first, last) ↔
    ∃ s t, r.segments.head? = some s ∧ r.segments.getLast? = some t ∧ s.start = first ∧
      t.stop = last := by
  unfold timeRange?
  cases r.segments.head? with
  | none => simp
  | some s =>
    cases r.segments.getLast? with
    | none => simp
    | some t => simp

theorem place?_early (hs : r.segments.head? = some s) (ht : time < s.start) :
    r.place? time = none := by
  obtain ⟨rest, hrest⟩ := List.head?_eq_some_iff.mp hs
  unfold place?
  rw [hrest, List.takeWhile_cons_of_neg (by simpa using ht)]
  rfl

/-- The last segment has no end. -/
theorem place?_late (ho : r.segments.Pairwise fun s t => s.start ≤ t.start)
    (hs : r.segments = init ++ [s]) (ht : s.start ≤ time) : r.place? time = some init.length := by
  rcases place?_cases ho time with ⟨_, hlate⟩ | ⟨a, u, b, hab, hp, _, hlate⟩
  · exact absurd ht (UInt64.not_le.mpr (hlate s (by rw [hs]; simp)))
  · rcases List.eq_nil_or_concat b with rfl | ⟨b', v, rfl⟩
    · obtain ⟨rfl, _⟩ := List.append_inj' (hs.symm.trans hab) rfl
      exact hp
    · rw [List.concat_eq_append] at hab hlate
      have hwhole : init ++ [s] = (a ++ u :: b') ++ [v] := by
        rw [← hs, hab, List.append_assoc, List.cons_append]
      obtain ⟨_, hv⟩ := List.append_inj' hwhole rfl
      cases hv
      exact absurd ht (UInt64.not_le.mpr (hlate s (List.mem_append_right b' List.mem_cons_self)))

end

end Recording

namespace Segment

section
variable {s : Segment} {d : Disk} {x : Index} {i : FileId} {es : List Entry} {time : UInt64}

theorem handle_of_entries (h : (s.entries d).1 = .ok es) : ∃ x, s.handle d = .ok x := by
  unfold Segment.entries at h
  rw [query_fst] at h
  obtain ⟨x, hx, _⟩ := bind_eq_ok.mp h
  exact ⟨x, hx⟩

/-- Where a player that clamps starts in a segment is its latest record for the time, or its first
record if all are later. -/
theorem positionThrough_cases (hx : x.file = some i)
    (ho : Index.IsOrdered (Entry.readAll (d.content i))) :
    (∃ e ∈ Entry.readAll (d.content i), e.timestamp ≤ time ∧
        Entry.latest? (Entry.readAll (d.content i)) time = some e ∧
        s.positionThrough (.ok x) true time d = .ok ⟨s.file, e.offset, false⟩) ∨
      (∀ e ∈ Entry.readAll (d.content i), time < e.timestamp) ∧
        s.positionThrough (.ok x) true time d =
          .ok (Player.positionOf s (Entry.readAll (d.content i)).head?) := by
  have hlookUp := Index.lookUp_of_file hx time d
  rcases Index.search_cases x.path ho time with ⟨e, he, hle, hlatest, hs⟩ | ⟨hlate, what, hs⟩
  · rw [hs] at hlookUp
    exact .inl ⟨e, he, hle, hlatest, positionThrough_found hlookUp true⟩
  · rw [hs] at hlookUp
    refine .inr ⟨hlate, ?_⟩
    rw [positionThrough_notFound hlookUp, if_pos rfl, startThrough_ok hx]

end

end Segment

namespace Player

inductive Outside (r : Recording) (time : UInt64) (d : Disk) : Position → Prop
  | early {s : Segment} {e : Entry} {es : List Entry} : r.segments.head? = some s →
      time < s.start → (s.entries d).1 = .ok (e :: es) → Outside r time d ⟨s.file, e.offset, true⟩
  | unrecorded {s : Segment} {e : Entry} {es : List Entry} : r.segments.getLast? = some s →
      s.stop < time → (s.entries d).1 = .ok (e :: es) → time < e.timestamp →
      Outside r time d ⟨s.file, e.offset, true⟩
  | late {s : Segment} {e : Entry} {es : List Entry} : r.segments.getLast? = some s →
      s.stop < time → (s.entries d).1 = .ok es → Entry.latest? es time = some e →
      Outside r time d ⟨s.file, e.offset, false⟩

section
variable {r₀ r : Recording} {s : Segment} {time first last : UInt64} {d : Disk}

theorem seek_early (hb : r₀.Begins) (hr : Recording.Came r₀ r) (hrows : r.Stocked d)
    (hs : r.segments.head? = some s) (ht : time < s.start) : ∃ e es,
      (s.entries d).1 = .ok (e :: es) ∧
        (seek ⟨r, true⟩ time d).1 = .ok ⟨s.file, e.offset, true⟩ := by
  have hmem := List.mem_of_head? hs
  obtain ⟨es, hes, _, hne⟩ := hrows s hmem
  obtain ⟨x, hx⟩ := Segment.handle_of_entries hes
  obtain ⟨i, hi⟩ := hr.handle_file hb hmem hx
  have hread := Segment.entries_of_handle hx hi
  rw [hes, Except.ok.injEq] at hread
  obtain ⟨e, rest, rfl⟩ := List.exists_cons_of_ne_nil hne
  refine ⟨e, rest, hes, ?_⟩
  rw [seek_none (p := ⟨r, true⟩) (Recording.place?_early hs ht)]
  simp only [hs, if_true, hx]
  rw [Segment.startThrough_ok hi, ← hread]
  rfl

theorem seek_late (hb : r₀.Begins) (hr : Recording.Came r₀ r) (hrows : r.Stocked d)
    (hs : r.segments.getLast? = some s) (ht : s.stop < time) : ∃ es, (s.entries d).1 = .ok es ∧
      ((∃ e ∈ es, e.timestamp ≤ time ∧ Entry.latest? es time = some e ∧
          (seek ⟨r, true⟩ time d).1 = .ok ⟨s.file, e.offset, false⟩) ∨
        (∀ e ∈ es, time < e.timestamp) ∧ ∃ e rest, es = e :: rest ∧
          (seek ⟨r, true⟩ time d).1 = .ok ⟨s.file, e.offset, true⟩) := by
  have hmem := List.mem_of_getLast? hs
  have hrepresented := hb.representation.came hr
  obtain ⟨es, hes, ho, hne⟩ := hrows s hmem
  obtain ⟨x, hx⟩ := Segment.handle_of_entries hes
  obtain ⟨i, hi⟩ := hr.handle_file hb hmem hx
  have hread := Segment.entries_of_handle hx hi
  rw [hes, Except.ok.injEq] at hread
  obtain ⟨init, hinit⟩ := List.getLast?_eq_some_iff.mp hs
  have hstart := UInt64.le_of_lt (UInt64.lt_of_le_of_lt (hrepresented.span hmem) ht)
  have hplace := Recording.place?_late hrepresented.starts hinit hstart
  have hget : r.segments[init.length]? = some s := by simp [hinit]
  rw [seek_some (p := ⟨r, true⟩) hplace hget, hx]
  refine ⟨es, hes, ?_⟩
  subst hread
  rcases s.positionThrough_cases hi ho with hfound | ⟨hlate, hq⟩
  · exact .inl hfound
  · obtain ⟨e, rest, hcons⟩ := List.exists_cons_of_ne_nil hne
    refine .inr ⟨hlate, e, rest, hcons, ?_⟩
    rw [hq, hcons]
    rfl

/-- Outside the range of a recording whose segments have records a player that clamps finds a place.
It says that it clamped for a time before the start, and after the stop only where the last segment
has no record so early. -/
theorem seek_outside (hb : r₀.Begins) (hr : Recording.Came r₀ r) (hrows : r.Stocked d)
    (hrange : r.timeRange? = some (first, last)) (ht : time < first ∨ last < time) :
    ∃ q, (seek ⟨r, true⟩ time d).1 = .ok q ∧ Outside r time d q ∧
      (q.clamped = true ↔ time < first ∨ ∃ s es, r.segments.getLast? = some s ∧
        (s.entries d).1 = .ok es ∧ ∀ e ∈ es, time < e.timestamp) := by
  obtain ⟨s, t, hs, hl, rfl, rfl⟩ := Recording.timeRange?_eq_some.mp hrange
  by_cases hearly : time < s.start
  · obtain ⟨e, es, hes, hq⟩ := seek_early hb hr hrows hs hearly
    exact ⟨_, hq, .early hs hearly hes, fun _ => .inl hearly, fun _ => rfl⟩
  · have hlate := ht.resolve_left hearly
    obtain ⟨es, hes, ⟨e, he, hle, hlatest, hq⟩ | ⟨hall, e, rest, rfl, hq⟩⟩ :=
      seek_late hb hr hrows hl hlate
    · refine ⟨_, hq, .late hl hlate hes hlatest, nofun, ?_⟩
      rintro (h | ⟨u, es', hu, hes', hall⟩)
      · exact absurd h hearly
      · rw [hl, Option.some.injEq] at hu
        rw [← hu, hes, Except.ok.injEq] at hes'
        exact absurd hle (UInt64.not_le.mpr (hall e (hes' ▸ he)))
    · exact ⟨_, hq, .unrecorded hl hlate hes (hall e List.mem_cons_self),
        fun _ => .inr ⟨t, _, hl, hes, hall⟩, fun _ => rfl⟩

end

/-! ## A recording of two segments -/

theorem stocked_pair : Recording.pair.Stocked Recording.wholeDisk := by
  have hearly : ∀ s ∈ Recording.pair.segments.take 1,
      (s.entries Recording.wholeDisk).1 = .ok [⟨12, 7⟩] := by decide +kernel
  have hlate : ∀ s ∈ Recording.pair.segments.drop 1,
      (s.entries Recording.wholeDisk).1 = .ok [⟨22, 9⟩] := by decide +kernel
  intro s hs
  rw [← List.take_append_drop 1 Recording.pair.segments] at hs
  rcases List.mem_append.mp hs with hs | hs
  · exact ⟨_, hearly s hs, List.pairwise_singleton _ _, List.cons_ne_nil _ _⟩
  · exact ⟨_, hlate s hs, List.pairwise_singleton _ _, List.cons_ne_nil _ _⟩

theorem seek_outside_pair : Recording.pair.timeRange? = some (10, 22) ∧
    (∃ q, (seek ⟨Recording.pair, true⟩ 5 Recording.wholeDisk).1 = .ok q ∧ q.clamped = true) ∧
    ∃ q, (seek ⟨Recording.pair, true⟩ 25 Recording.wholeDisk).1 = .ok q ∧ q.clamped = false := by
  have hrange : Recording.pair.timeRange? = some (10, 22) := by decide +kernel
  have hentries : ∀ s ∈ Recording.pair.segments.getLast?,
      (s.entries Recording.wholeDisk).1 = .ok [⟨22, 9⟩] := by decide +kernel
  have hb : Recording.Begins Recording.pair := .inr ⟨_, _, Recording.load_pair⟩
  obtain ⟨q, hq, _, hclamped⟩ := seek_outside hb .start stocked_pair hrange
    (.inl (by decide : (5 : UInt64) < 10))
  obtain ⟨q', hq', _, hclamped'⟩ := seek_outside hb .start stocked_pair hrange
    (.inr (by decide : (22 : UInt64) < 25))
  refine ⟨hrange, ⟨q, hq, hclamped.mpr (.inl (by decide))⟩, q', hq', ?_⟩
  rw [Bool.eq_false_iff]
  intro hc
  rcases hclamped'.mp hc with hlt | ⟨s, es, hs, hes, hall⟩
  · exact absurd hlt (by decide)
  · rw [hentries s hs, Except.ok.injEq] at hes
    exact absurd (hall ⟨22, 9⟩ (hes ▸ List.mem_cons_self)) (by decide)

/-- After the stop the nearest position is used, and nothing tells that it was. -/
theorem late_not_clamped : Recording.load Recording.pairPath Recording.wholeDisk =
      .ok Recording.pair ∧ Recording.pair.Stocked Recording.wholeDisk ∧
    Recording.pair.timeRange? = some (10, 22) ∧ (22 : UInt64) < 25 ∧
    (seek ⟨Recording.pair, true⟩ 25 Recording.wholeDisk).1 = .ok ⟨⟨"late.ts"⟩, 9, false⟩ := by
  refine ⟨Recording.load_pair, stocked_pair, ?_, ?_, ?_⟩
  · decide +kernel
  · decide
  · decide +kernel

end Player

end Timeshift
