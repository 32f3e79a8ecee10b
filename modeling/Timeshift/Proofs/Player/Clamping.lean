import Timeshift.Proofs.Index.Bounds
import Timeshift.Proofs.Recording.Confined
import Timeshift.Proofs.Recording.Flat

/-!
# Seeking with and without clamping

A player that clamps goes where one that does not goes, and where that one has nothing to go to, to
the first record of the segment that the time belongs to, or of the first segment. `Seeks` has a
case for each way in which the two can end, and clamping is in vain in two of them only.
-/

namespace Timeshift

namespace Index

theorem lookUp_cases {x : Index} {i : FileId} (hx : x.file = some i) (time : UInt64) (d : Disk) :
    (∃ offset, x.lookUp time d = .ok offset) ∨
      ∃ what, x.lookUp time d = .error (.notFound what) := by
  rw [lookUp_of_file hx]
  rcases search_any x.path (d.content i) time with ⟨e, _, hs, _⟩ | ⟨_, what, hs⟩
  · rw [hs]
    exact .inl ⟨e.offset, rfl⟩
  · rw [hs]
    exact .inr ⟨what, rfl⟩

end Index

namespace Segment

section
variable {s : Segment} {d : Disk} {x : Index} {i : FileId} {e : Error}

theorem startThrough_ok (hx : x.file = some i) : s.startThrough (.ok x) d =
    .ok (Player.positionOf s (Entry.readAll (d.content i)).head?) := by
  unfold startThrough
  rw [ok_bind, (Index.describes_of_file hx d).first]
  rfl

theorem startThrough_error (s : Segment) (e : Error) (d : Disk) :
    s.startThrough (.error e) d = .error e := rfl

theorem positionThrough_error (s : Segment) (e : Error) (clamp : Bool) (time : UInt64)
    (d : Disk) : s.positionThrough (.error e) clamp time d = .error e := by
  unfold positionThrough
  rw [error_bind]
  simp only [startThrough_error, ite_self]

theorem positionThrough_found {offset : UInt64} {time : UInt64}
    (h : x.lookUp time d = .ok offset) (clamp : Bool) :
    s.positionThrough (.ok x) clamp time d = .ok ⟨s.file, offset, false⟩ := by
  unfold positionThrough
  rw [ok_bind, h]

theorem positionThrough_notFound {what : String} {time : UInt64}
    (h : x.lookUp time d = .error (.notFound what)) (clamp : Bool) :
    s.positionThrough (.ok x) clamp time d =
      if clamp then s.startThrough (.ok x) d else .error (.notFound what) := by
  unfold positionThrough
  rw [ok_bind, h]
  simp only [Error.isNotFound, Bool.true_and]

end

end Segment

namespace Player

def Nearest (r : Recording) (time : UInt64) (s : Segment) : Prop :=
  (r.chosen? time).or r.segments.head? = some s

/-- How a player and one that clamps may end where both seek the same time. -/
inductive Seeks (r : Recording) (time : UInt64) (d : Disk) :
    Except Error Position → Except Error Position → Prop
  | found (file : Path) (offset : UInt64) :
      Seeks r time d (.ok ⟨file, offset, false⟩) (.ok ⟨file, offset, false⟩)
  | clamped {s : Segment} {es : List Entry} (what : String) : Nearest r time s →
      (s.entries d).1 = .ok es →
      Seeks r time d (.error (.notFound what)) (.ok (positionOf s es.head?))
  | nothing (what : String) : r.segments = [] →
      Seeks r time d (.error (.notFound what)) (.error (.notFound what))
  | unopened {s : Segment} {e : Error} (plain : Error) : Nearest r time s → s.writer = none →
      s.reader = none → Index.Unopened s.index d e → Seeks r time d (.error plain) (.error e)

section
variable {r₀ r : Recording} {s : Segment} {time : UInt64} {d : Disk} {k : Nat}
  {plain clamping : Except Error Position}

theorem seeks_none (hb : r₀.Begins) (hr : Recording.Came r₀ r) (hp : r.place? time = none)
    (hc : r.chosen? time = none) :
    Seeks r time d (seek ⟨r, false⟩ time d).1 (seek ⟨r, true⟩ time d).1 := by
  obtain ⟨what, hwhat⟩ := r.beforeStart_eq time
  rw [seek_none (p := ⟨r, false⟩) hp, seek_none (p := ⟨r, true⟩) hp]
  simp only [hwhat]
  cases hf : r.segments.head? with
  | none => exact .nothing what (List.head?_eq_none_iff.mp hf)
  | some s =>
    have hnearest : Nearest r time s := by rw [Nearest, hc, Option.none_or, hf]
    simp only [if_true, if_false, Bool.false_eq_true]
    cases hh : s.handle d with
    | error e =>
      obtain ⟨hw, hread, hopen⟩ := Segment.handle_eq_error hh
      exact .unopened _ hnearest hw hread (Index.unopened_of_error hopen)
    | ok x =>
      obtain ⟨i, hi⟩ := hr.handle_file hb (List.mem_of_head? hf) hh
      rw [Segment.startThrough_ok hi]
      exact .clamped what hnearest (Segment.entries_of_handle hh hi)

theorem seeks_some (hb : r₀.Begins) (hr : Recording.Came r₀ r) (hp : r.place? time = some k)
    (hs : r.segments[k]? = some s) (hc : r.chosen? time = some s) :
    Seeks r time d (seek ⟨r, false⟩ time d).1 (seek ⟨r, true⟩ time d).1 := by
  have hnearest : Nearest r time s := by rw [Nearest, hc, Option.some_or]
  rw [seek_some (p := ⟨r, false⟩) hp hs, seek_some (p := ⟨r, true⟩) hp hs]
  cases hh : s.handle d with
  | error e =>
    obtain ⟨hw, hread, hopen⟩ := Segment.handle_eq_error hh
    rw [Segment.positionThrough_error, Segment.positionThrough_error]
    exact .unopened _ hnearest hw hread (Index.unopened_of_error hopen)
  | ok x =>
    obtain ⟨i, hi⟩ := hr.handle_file hb (List.mem_of_getElem? hs) hh
    rcases Index.lookUp_cases hi time d with ⟨offset, hl⟩ | ⟨what, hl⟩
    · rw [Segment.positionThrough_found hl, Segment.positionThrough_found hl]
      exact .found s.file offset
    · rw [Segment.positionThrough_notFound hl, Segment.positionThrough_notFound hl, if_pos rfl,
        Segment.startThrough_ok hi]
      exact .clamped what hnearest (Segment.entries_of_handle hh hi)

theorem seeks (hb : r₀.Begins) (hr : Recording.Came r₀ r) (time : UInt64) (d : Disk) :
    Seeks r time d (seek ⟨r, false⟩ time d).1 (seek ⟨r, true⟩ time d).1 := by
  have ho := (hb.representation.came hr).starts
  rcases Recording.place?_cases_chosen ho time with ⟨hp, hc⟩ | ⟨k, s, hp, hs, hc⟩
  · exact seeks_none hb hr hp hc
  · exact seeks_some hb hr hp hs hc

theorem Nearest.mem (h : Nearest r time s) : s ∈ r.segments := by
  rcases Option.or_eq_some_iff.mp h with h | ⟨_, h⟩
  · exact (List.mem_filter.mp (List.mem_of_getLast? h)).1
  · exact List.mem_of_head? h

/-! ## What each end means -/

theorem Seeks.ok_iff (h : Seeks r time d plain clamping) (q : Position) :
    plain = .ok q ↔ clamping = .ok q ∧ q.clamped = false := by
  cases h with
  | found file offset =>
    constructor
    · intro hq
      cases hq
      exact ⟨rfl, rfl⟩
    · exact fun hq => hq.1
  | clamped what _ _ =>
    refine ⟨nofun, fun hq => ?_⟩
    obtain ⟨hok, hplain⟩ := hq
    cases hok
    cases hplain
  | nothing what _ => exact ⟨nofun, fun hq => nomatch hq.1⟩
  | unopened plain _ _ _ _ => exact ⟨nofun, fun hq => nomatch hq.1⟩

theorem Seeks.of_clamped (h : Seeks r time d plain clamping) {q : Position}
    (hq : clamping = .ok q) (hc : q.clamped = true) :
    (∃ what, plain = .error (.notFound what)) ∧ ∃ s es, Nearest r time s ∧
      (s.entries d).1 = .ok es ∧ q.file = s.file ∧
        q.offset = (es.head?.map (·.offset)).getD 0 := by
  cases h with
  | found file offset =>
    cases hq
    cases hc
  | clamped what hnearest hentries =>
    cases hq
    exact ⟨⟨what, rfl⟩, _, _, hnearest, hentries, rfl, rfl⟩
  | nothing what _ => cases hq
  | unopened plain _ _ _ _ => cases hq

theorem Seeks.of_error (h : Seeks r time d plain clamping) {e : Error} (he : clamping = .error e) :
    r.segments = [] ∨ ∃ s, Nearest r time s ∧ s.writer = none ∧ s.reader = none ∧
      Index.Unopened s.index d e := by
  cases h with
  | found file offset => cases he
  | clamped what _ _ => cases he
  | nothing what hnil => exact .inl hnil
  | unopened plain hnearest hw hread hopen =>
    cases he
    exact .inr ⟨_, hnearest, hw, hread, hopen⟩

theorem not_unopened {e : Error} (hrows : r.HasRows d) (hs : s ∈ r.segments) :
    ¬ Index.Unopened s.index d e := by
  obtain ⟨hok, hordered⟩ := hrows s hs
  intro h
  cases h with
  | unreadable hcause =>
    rw [hcause] at hok
    cases hok
  | disordered hi hk =>
    rw [Recording.row_of_file (Disk.openRead_eq_ok.mp hi), ← Index.regression?_eq_none, hk]
      at hordered
    cases hordered

/-- Where a player finds a place, one that clamps finds the same. What the other one finds besides
is the start of the nearest segment, for a time that has nothing to be found. It fails only if there
is no segment or the index of the nearest one is not open and cannot be opened. -/
theorem seek_clamped (hb : r₀.Begins) (hr : Recording.Came r₀ r) (time : UInt64) (d : Disk) :
    (∀ q, (seek ⟨r, false⟩ time d).1 = .ok q ↔
      (seek ⟨r, true⟩ time d).1 = .ok q ∧ q.clamped = false) ∧
    (∀ q, (seek ⟨r, true⟩ time d).1 = .ok q → q.clamped = true →
      (∃ what, (seek ⟨r, false⟩ time d).1 = .error (.notFound what)) ∧
      ∃ s es, (r.chosen? time).or r.segments.head? = some s ∧ (s.entries d).1 = .ok es ∧
        q.file = s.file ∧ q.offset = (es.head?.map (·.offset)).getD 0) ∧
    (∀ e, (seek ⟨r, true⟩ time d).1 = .error e → r.segments = [] ∨
      ∃ s, (r.chosen? time).or r.segments.head? = some s ∧ s.writer = none ∧ s.reader = none ∧
        Index.Unopened s.index d e) ∧
    (r.segments ≠ [] → r.HasRows d → ∃ q, (seek ⟨r, true⟩ time d).1 = .ok q) := by
  have h := seeks hb hr time d
  refine ⟨h.ok_iff, fun q => h.of_clamped, fun e => h.of_error, ?_⟩
  intro hne hrows
  cases hq : (seek ⟨r, true⟩ time d).1 with
  | ok q => exact ⟨q, rfl⟩
  | error e =>
    rcases h.of_error hq with hnil | ⟨s, hnearest, _, _, hopen⟩
    · exact absurd hnil hne
    · exact absurd hopen (not_unopened hrows hnearest.mem)

end

/-- Before the start the first record of the first segment stands in, in an empty segment its
beginning; in a gap there is nothing to stand in for. -/
theorem seek_clamped_rotated :
    let r := Recording.rotated.1
    let d := Recording.rotated.2.disk
    (∃ what, (seek ⟨r, false⟩ 5 d).1 = .error (.notFound what)) ∧
    (seek ⟨r, true⟩ 5 d).1 = .ok ⟨⟨"a.ts"⟩, 7, true⟩ ∧
    (∃ what, (seek ⟨r, false⟩ 20 d).1 = .error (.notFound what)) ∧
    (seek ⟨r, true⟩ 20 d).1 = .ok ⟨⟨"b.ts"⟩, 0, true⟩ ∧
    (seek ⟨r, true⟩ 15 d).1 = .ok ⟨⟨"a.ts"⟩, 7, false⟩ ∧
    ∀ time, ∃ q, (seek ⟨r, true⟩ time d).1 = .ok q := by
  intro r d
  have hclamped := seek_clamped (.inl ⟨"idx", rfl⟩) Recording.went_rotated.came
  have hplain : (seek ⟨r, false⟩ 15 d).1 = .ok ⟨⟨"a.ts"⟩, 7, false⟩ := by decide +kernel
  have hearly : (seek ⟨r, true⟩ 5 d).1 = .ok ⟨⟨"a.ts"⟩, 7, true⟩ := by decide +kernel
  have hempty : (seek ⟨r, true⟩ 20 d).1 = .ok ⟨⟨"b.ts"⟩, 0, true⟩ := by decide +kernel
  refine ⟨((hclamped 5 d).2.1 _ hearly rfl).1, hearly, ((hclamped 20 d).2.1 _ hempty rfl).1, hempty,
    (((hclamped 15 d).1 _).mp hplain).1, ?_⟩
  intro time
  apply (hclamped time d).2.2.2
  · decide
  · exact Recording.hasRows_rotated

end Player

end Timeshift
