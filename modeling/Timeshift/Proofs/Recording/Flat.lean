import Timeshift.Proofs.Recording.Attached

/-!
# Looking up in a recording as in one index

Where the records of each segment lie between its start and the next one's, a lookup over the starts
and then over one index gives what a search of all records in a row would give.
-/

namespace Timeshift.Recording

/-! ## A recording and the disk it lies on -/

def KeepsIndexes (r : Recording) (d d' : Disk) : Prop :=
  ∀ s ∈ r.segments, ∀ i, d.lookUp s.index = .ok (.file i) → d'.lookUp s.index = .ok (.file i)

/-- Operations one after another in one world brought `r₀` to `r`. Meanwhile, and where a manifest
is stored, the disk may change in any way that keeps the names of the index files. -/
inductive Went (r₀ : Recording) : Recording → World → Prop
  | start (w : World) : Went r₀ r₀ w
  | based {r : Recording} {w : World} (directory : Path) : Went r₀ r w →
      r.segments.length = r₀.segments.length → Went r₀ (r.withBase directory) w
  | performed {r : Recording} {w : World} (o : Operation) : Went r₀ r w →
      (∀ path, o = .store path → r.KeepsIndexes w.disk (r.perform w o).2.disk) →
      Went r₀ (r.perform w o).1 (r.perform w o).2
  | elsewhere {r : Recording} {w : World} (w' : World) : Went r₀ r w →
      r.KeepsIndexes w.disk w'.disk → Went r₀ r w'

section
variable {r₀ r r' : Recording} {w w' : World} {s : Segment} {d : Disk} {time : UInt64}
  {a b : List Segment}

theorem Went.came (h : Went r₀ r w) : Came r₀ r := by
  induction h with
  | start w => exact .start
  | based directory _ hn ih => exact ih.based directory hn
  | performed o _ _ ih => exact ih.performed o _
  | elsewhere w' _ _ ih => exact ih

theorem Attached.frame_indexes {d' : Disk} (h : r.Attached d) (hk : r.KeepsIndexes d d') :
    r.Attached d' := by
  intro s hs
  exact (h s hs).frame (hk s hs)

theorem Attached.turn (h : r.Attached w.disk) {o : Operation} (ht : Turn r w o r' w')
    (hk : ∀ path, o = .store path → r.KeepsIndexes w.disk w'.disk) : r'.Attached w'.disk := by
  cases ht with
  | appended ha => exact h.append ha
  | @notAppended path start _ _ ha =>
    have := keepsFiles_append r path start w
    rw [ha] at this
    exact h.frame this
  | recorded hr => exact h.record hr
  | @notRecorded e _ _ hr =>
    have := keepsFiles_record r e w
    rw [hr] at this
    exact h.frame this
  | finished => exact h.finish
  | stored path => exact h.frame_indexes (hk path rfl)
  | @asked o α ask k s hs =>
    intro u hu
    rcases List.mem_or_eq_of_mem_set hu with hu | rfl
    · exact h u hu
    · exact (h s (List.mem_of_getElem? hs)).query ask
  | unanswered => exact h

theorem Begins.attached (h : r.Begins) (d : Disk) : r.Attached d := by
  rcases h with ⟨extension, rfl⟩ | ⟨path, d', hload⟩
  · exact fun _ hs => nomatch hs
  · obtain ⟨m, _, rfl⟩ := load_eq_ok.mp hload
    intro s hs x hx
    obtain ⟨item, _, rfl⟩ := List.mem_map.mp hs
    rcases hx with hx | hx
    · cases hx
    · cases hx

theorem Went.attached (hb : r₀.Begins) (h : Went r₀ r w) : r.Attached w.disk := by
  induction h with
  | start w => exact hb.attached w.disk
  | based directory _ _ ih => exact ih
  | performed o _ hk ih => exact ih.turn (turn_perform _ _ o) hk
  | elsewhere w' _ hk ih => exact ih.frame_indexes hk

/-! ## All records in a row -/

def flat (r : Recording) (d : Disk) : List (Segment × Entry) :=
  r.segments.flatMap fun s => (row d s).map (s, ·)

def Spans (r : Recording) (d : Disk) : Prop :=
  ∀ k s, r.segments[k]? = some s → ∀ e ∈ row d s, s.start ≤ e.timestamp ∧
    ∀ next, r.segments[k + 1]? = some next → e.timestamp < next.start

theorem mem_flat {u : Segment} {e : Entry} : (u, e) ∈ r.flat d ↔ u ∈ r.segments ∧ e ∈ row d u := by
  simp only [flat, List.mem_flatMap, List.mem_map, Prod.mk.injEq]
  constructor
  · rintro ⟨_, hu, _, he, rfl, rfl⟩
    exact ⟨hu, he⟩
  · rintro ⟨hu, he⟩
    exact ⟨u, hu, e, he, rfl, rfl⟩

/-- The records of earlier segments are before the start of a later one. -/
theorem Spans.lt_start (h : r.Spans d) (ho : r.segments.Pairwise fun s t => s.start ≤ t.start)
    (hab : r.segments = a ++ s :: b) {u : Segment} (hu : u ∈ a) {e : Entry} (he : e ∈ row d u) :
    e.timestamp < s.start := by
  obtain ⟨k, hk⟩ := List.mem_iff_getElem?.mp hu
  have hlt := (List.getElem?_eq_some_iff.mp hk).1
  have hk' : r.segments[k]? = some u := by rw [hab, List.getElem?_append_left hlt, hk]
  have hlen : a.length < r.segments.length := by simp [hab]
  obtain ⟨next, hnext⟩ : ∃ next, r.segments[k + 1]? = some next :=
    ⟨_, List.getElem?_eq_getElem (Nat.lt_of_le_of_lt hlt hlen)⟩
  have hs : r.segments[a.length]? = some s := by simp [hab]
  apply UInt64.lt_of_lt_of_le ((h k u hk' e he).2 next hnext)
  rcases Nat.lt_or_eq_of_le (Nat.succ_le_of_lt hlt) with hlt' | heq
  · obtain ⟨_, rfl⟩ := List.getElem?_eq_some_iff.mp hnext
    obtain ⟨_, rfl⟩ := List.getElem?_eq_some_iff.mp hs
    exact List.pairwise_iff_getElem.mp ho _ _ _ _ hlt'
  · rw [← heq, hnext] at hs
    cases hs
    exact UInt64.le_refl _

/-- The latest record of the segment that a time belongs to is the latest of all. -/
theorem Spans.latest (h : r.Spans d) (ho : r.segments.Pairwise fun s t => s.start ≤ t.start)
    (hab : r.segments = a ++ s :: b) (hb : ∀ u ∈ b, time < u.start) {e : Entry}
    (he : e ∈ row d s) (hlatest : Entry.latest? (row d s) time = some e) :
    latestBy? (fun x => x.2.timestamp) (r.flat d) time = some (s, e) := by
  rw [← latestBy?_timestamp, latestBy?_eq_some] at hlatest
  obtain ⟨hle, hmax, before, after, hrow, hbefore⟩ := hlatest
  have hstart : s.start ≤ e.timestamp := (h a.length s (by simp [hab]) e he).1
  rw [latestBy?_eq_some]
  refine ⟨hle, ?_, ?_⟩
  · rintro ⟨u, y⟩ hy ht
    obtain ⟨hu, hy⟩ := mem_flat.mp hy
    rw [hab] at hu
    rcases List.mem_append.mp hu with hu | hu
    · -- an earlier segment has no record as late as this one's start
      have hlt := h.lt_start ho hab hu hy
      exact UInt64.le_of_lt (UInt64.lt_of_lt_of_le hlt hstart)
    rcases List.mem_cons.mp hu with rfl | hu
    · exact hmax y hy ht
    · -- a later segment starts after the time
      obtain ⟨k, hk⟩ := List.mem_iff_getElem?.mp (hab ▸ List.mem_append_right a (.tail s hu))
      have := UInt64.le_trans (h k u hk y hy).1 ht
      exact absurd (hb u hu) (UInt64.not_lt.mpr this)
  · refine ⟨a.flatMap (fun u => (row d u).map (u, ·)) ++ before.map (s, ·),
      after.map (s, ·) ++ b.flatMap (fun u => (row d u).map (u, ·)), ?_, ?_⟩
    · simp [flat, hab, hrow]
    · rintro ⟨u, y⟩ hy ht
      rcases List.mem_append.mp hy with hy | hy
      · obtain ⟨v, hv, hy⟩ := List.mem_flatMap.mp hy
        obtain ⟨z, hz, heq⟩ := List.mem_map.mp hy
        cases heq
        exact UInt64.lt_of_lt_of_le (h.lt_start ho hab hv hz) hstart
      · obtain ⟨z, hz, heq⟩ := List.mem_map.mp hy
        cases heq
        exact hbefore _ hz ht

/-- A lookup gives what a search of all records in a row gives, where the last segment that starts
at or before the time has a record for it. Elsewhere there is nothing to find. -/
theorem lookUp_flat (hb : r₀.Begins) (hr : Went r₀ r w) (hrows : r.HasRows w.disk)
    (hspans : r.Spans w.disk) (time : UInt64) :
    ((∃ t n, (r.lookUp time w.disk).1 = .ok (t, n)) ↔
      ∃ s, (r.segments.filter (·.start ≤ time)).getLast? = some s ∧
        ∃ e ∈ row w.disk s, e.timestamp ≤ time) ∧
    (∀ t n, (r.lookUp time w.disk).1 = .ok (t, n) →
      ∃ s e, latestBy? (fun x => x.2.timestamp) (r.flat w.disk) time = some (s, e) ∧
        s.SameButReader t ∧ n = e.offset) ∧
    ∀ err, (r.lookUp time w.disk).1 = .error err → err.isNotFound = true := by
  have ho := (hb.representation.came hr.came).starts
  rcases (hr.attached hb).lookUp hrows ho time with
    ⟨hlate, what, hl⟩ | ⟨a, s, b, t, answer, hab, hle, hlate, hst, hanswer, hl⟩
  · rw [hl]
    refine ⟨⟨?_, ?_⟩, ?_, ?_⟩
    · rintro ⟨t, n, hok⟩
      cases hok
    · rintro ⟨s, hs, _⟩
      have hmem := List.mem_filter.mp (List.mem_of_getLast? hs)
      exact absurd (of_decide_eq_true hmem.2) (UInt64.not_le.mpr (hlate s hmem.1))
    · intro t n hok
      cases hok
    · intro err herr
      cases herr
      rfl
  · have hlast : (r.segments.filter (·.start ≤ time)).getLast? = some s :=
      hab ▸ getLast?_filter_start hle hlate
    rw [hl, hlast]
    cases hanswer with
    | @found e he het hlatest =>
      have hflat := hspans.latest ho hab hlate he hlatest
      refine ⟨⟨fun _ => ⟨s, rfl, e, he, het⟩, fun _ => ⟨t, e.offset, rfl⟩⟩, ?_, ?_⟩
      · intro t' n hok
        cases hok
        exact ⟨s, e, hflat, hst, rfl⟩
      · intro err herr
        cases herr
    | notFound hnone =>
      refine ⟨⟨?_, ?_⟩, ?_, ?_⟩
      · rintro ⟨t', n, hok⟩
        cases hok
      · rintro ⟨s', hs', e, he, het⟩
        cases hs'
        exact absurd het (UInt64.not_le.mpr (hnone e he))
      · intro t' n hok
        cases hok
      · intro err herr
        cases herr
        rfl

end

theorem went_rotated : Went (empty "idx" none) rotated.1 rotated.2 :=
  (((Went.start plainWorld).performed (.append firstName 10) nofun).performed
    (.record ⟨12, 7⟩) nofun).performed (.append secondName 20) nofun

theorem rows_rotated :
    (rotated.1.segments.map fun s => (s.start, row rotated.2.disk s)) =
      [(10, [⟨12, 7⟩]), (20, [])] ∧
    ∀ s ∈ rotated.1.segments, (rotated.2.disk.openRead s.index).isOk = true := by
  decide +kernel

theorem row_of_rotated {k : Nat} {s : Segment} (hs : rotated.1.segments[k]? = some s) :
    k = 0 ∧ s.start = 10 ∧ row rotated.2.disk s = [⟨12, 7⟩] ∨
      k = 1 ∧ s.start = 20 ∧ row rotated.2.disk s = [] := by
  have hrow := congrArg (·[k]?) rows_rotated.1
  simp only [List.getElem?_map, hs, Option.map_some] at hrow
  match k with
  | 0 => simpa using hrow
  | 1 => simpa using hrow
  | k + 2 => simp at hrow

theorem hasRows_rotated : rotated.1.HasRows rotated.2.disk := by
  intro s hs
  refine ⟨rows_rotated.2 s hs, ?_⟩
  obtain ⟨k, hk⟩ := List.mem_iff_getElem?.mp hs
  rcases row_of_rotated hk with ⟨_, _, hrow⟩ | ⟨_, _, hrow⟩
  · rw [hrow]
    exact List.pairwise_singleton _ _
  · rw [hrow]
    exact List.Pairwise.nil

theorem spans_rotated : rotated.1.Spans rotated.2.disk := by
  intro k s hs e he
  rcases row_of_rotated hs with ⟨rfl, hstart, hrow⟩ | ⟨_, _, hrow⟩
  · rw [hrow] at he
    obtain rfl := List.mem_singleton.mp he
    rw [hstart]
    refine ⟨by decide, ?_⟩
    intro next hnext
    obtain ⟨h, _, _⟩ | ⟨_, hnext, _⟩ := row_of_rotated hnext
    · cases h
    · rw [hnext]
      decide
  · rw [hrow] at he
    cases he

/-- In a gap the segment before it answers; a time of an empty segment has no answer. -/
theorem lookUp_flat_rotated : (∃ t, (rotated.1.lookUp 15 rotated.2.disk).1 = .ok (t, 7)) ∧
    ∃ err, (rotated.1.lookUp 20 rotated.2.disk).1 = .error err ∧ err.isNotFound = true := by
  have hflat := lookUp_flat (.inl ⟨"idx", rfl⟩) went_rotated hasRows_rotated spans_rotated
  have hlast : (rotated.1.segments.filter (·.start ≤ 15)).getLast?.map (row rotated.2.disk) =
        some [⟨12, 7⟩] ∧
      (rotated.1.segments.filter (·.start ≤ 20)).getLast?.map (row rotated.2.disk) = some [] ∧
      (latestBy? (fun x => x.2.timestamp) (rotated.1.flat rotated.2.disk) 15).map (·.2.offset) =
        some 7 := by decide +kernel
  constructor
  · obtain ⟨hiff, hfound, _⟩ := hflat 15
    obtain ⟨s, hs, hrow⟩ := Option.map_eq_some_iff.mp hlast.1
    obtain ⟨t, n, hok⟩ := hiff.mpr ⟨s, hs, ⟨12, 7⟩, by rw [hrow]; simp, by decide⟩
    obtain ⟨u, e, hlatest, _, hn⟩ := hfound t n hok
    have hoffset := hlast.2.2
    rw [hlatest, Option.map_some, Option.some.injEq] at hoffset
    rw [← hoffset, ← hn]
    exact ⟨t, hok⟩
  · obtain ⟨hiff, _, herror⟩ := hflat 20
    cases hl : (rotated.1.lookUp 20 rotated.2.disk).1 with
    | error err => exact ⟨err, rfl, herror err hl⟩
    | ok answer =>
      obtain ⟨s, hs, e, he, _⟩ := hiff.mp ⟨answer.1, answer.2, hl⟩
      obtain ⟨s', hs', hrow⟩ := Option.map_eq_some_iff.mp hlast.2.1
      rw [hs] at hs'
      cases hs'
      rw [hrow] at he
      cases he

end Timeshift.Recording
