import Timeshift.Proofs.Recording.Undisturbed

/-!
# Answers that stay

A time that a segment's index has reached is resolved for good. Whatever else is recorded behind it,
and however the segment comes to have its index open, the same record is found in the same segment.
The storage under the indexes has to let a failed record be cut off again; where it does not, what
is left of one moves all that comes behind it.
-/

namespace Timeshift.Recording

/-- The time belongs to the `k`-th segment `s`, and `e` is the record of its index file `i` to start
from. -/
structure Resolves (r : Recording) (d : Disk) (time : UInt64) (k : Nat) (s : Segment) (i : FileId)
    (e : Entry) : Prop where
  place : r.place? time = some k
  segment : r.segments[k]? = some s
  file : d.lookUp s.index = .ok (.file i)
  ordered : Index.IsOrdered (Entry.readAll (d.content i))
  latest : Entry.latest? (Entry.readAll (d.content i)) time = some e

section
variable {r₀ r r' : Recording} {d d' : Disk} {w₀ w w' : World} {os more : List Operation}
  {time n : UInt64} {k : Nat} {s t : Segment} {i : FileId} {e last : Entry}

theorem Resolves.answers (h : r.Resolves d time k s i e) (hr : r.Steady d) :
    (r.lookUp time d).1 = .ok ((s.query (·.lookUp time d) d).2, e.offset) := by
  have hattached := (hr.segment s (List.mem_of_getElem? h.segment)).attached
  have hanswer := hattached.lookUp h.file h.ordered time
  have hlatest := h.latest
  rw [lookUp_some h.place h.segment]
  generalize (s.query (·.lookUp time d) d).1 = answer at hanswer ⊢
  cases hanswer with
  | found _ _ hfound =>
    rw [hlatest] at hfound
    cases hfound
    rfl
  | notFound hlate =>
    rw [← latestBy?_timestamp, latestBy?_eq_some] at hlatest
    obtain ⟨hle, _, a, b, hab, _⟩ := hlatest
    have hmem : e ∈ Entry.readAll (d.content i) := by
      rw [hab]
      exact List.mem_append_right a List.mem_cons_self
    exact absurd hle (UInt64.not_le.mpr (hlate e hmem))

theorem Steady.resolves (h : r.Steady d) (hl : (r.lookUp time d).1 = .ok (t, n)) :
    ∃ k s i e, r.Resolves d time k s i e ∧ s.SameButReader t ∧ n = e.offset := by
  cases hp : r.place? time with
  | none =>
    rw [lookUp_none hp] at hl
    cases hl
  | some k =>
    obtain ⟨s, hs⟩ : ∃ s, r.segments[k]? = some s :=
      ⟨_, List.getElem?_eq_getElem (lt_of_place? hp)⟩
    have hsteady := h.segment s (List.mem_of_getElem? hs)
    have hquery := s.query_sameButReader (·.lookUp time d) d
    rw [lookUp_some hp hs] at hl
    cases ha : (s.query (·.lookUp time d) d).1 with
    | error err =>
      rw [ha] at hl
      cases hl
    | ok offset =>
      obtain ⟨i, hi, ho⟩ := hsteady.found ha
      have hanswer := hsteady.attached.lookUp hi ho time
      rw [ha] at hanswer hl
      cases hl
      cases hanswer with
      | @found e _ _ hlatest => exact ⟨k, s, i, e, ⟨hp, hs, hi, ho, hlatest⟩, hquery, rfl⟩

/-- Segments that start later do not change where a time belongs. -/
theorem Continues.place? (h : Continues r d os r' d')
    (hlate : ∀ path start, Operation.append path start ∈ os → time < start) :
    r'.place? time = r.place? time := by
  obtain ⟨more, hmarks, hmore⟩ := h.marks
  have hstarts : r'.segments.map (·.start) = r.segments.map (·.start) ++ more.map (·.start) := by
    have := congrArg (List.map Segment.Mark.start) hmarks
    rwa [List.map_append, List.map_map, List.map_map] at this
  have hnone : (more.map (·.start)).takeWhile (· ≤ time) = [] := by
    cases more with
    | nil => rfl
    | cons m more =>
      have hm := hlate m.path m.start (hmore m List.mem_cons_self)
      apply List.takeWhile_cons_of_neg
      simpa using hm
  have hsame : (r.segments.map (·.start) ++ more.map (·.start)).takeWhile (· ≤ time) =
      (r.segments.map (·.start)).takeWhile (· ≤ time) := by
    rw [List.takeWhile_append, hnone, List.append_nil]
    split
    · rename_i hall
      exact ((List.takeWhile_prefix _).eq_of_length hall).symm
    · rfl
  rw [place?_eq, place?_eq, hstarts, hsame]

theorem Continues.segment (h : Continues r d os r' d') (hs : r.segments[k]? = some s) :
    ∃ s', r'.segments[k]? = some s' ∧ s.SamePlace s' := by
  obtain ⟨more, hmarks, _⟩ := h.marks
  have hmark : (r'.segments.map Segment.mark)[k]? = some s.mark := by
    have hk := (List.getElem?_eq_some_iff.mp hs).1
    rw [hmarks, List.getElem?_append_left (by rwa [List.length_map]), List.getElem?_map, hs]
    rfl
  rw [List.getElem?_map] at hmark
  obtain ⟨s', hs', hsame⟩ := Option.map_eq_some_iff.mp hmark
  exact ⟨s', hs', Segment.mark_eq.mp hsame⟩

/-- A time that the index has reached stays resolved as it is. -/
theorem Resolves.continues (h : r.Resolves d time k s i e) (hc : Continues r d os r' d')
    (hlate : ∀ path start, Operation.append path start ∈ os → time < start)
    (hl : (Entry.readAll (d.content i)).getLast? = some last) (ht : time ≤ last.timestamp) :
    ∃ s', r'.Resolves d' time k s' i e ∧ s.SamePlace s' := by
  obtain ⟨s', hs', hsame⟩ := hc.segment h.segment
  obtain ⟨hi, more, hmore, ho⟩ := hc.indexes s (List.mem_of_getElem? h.segment) i h.file
  have hordered := ho h.ordered
  refine ⟨s', ⟨?_, hs', ?_, hordered, ?_⟩, hsame⟩
  · rw [hc.place? hlate]
    exact h.place
  · rw [hsame.index]
    exact hi
  · rw [hmore] at hordered ⊢
    exact Index.latest?_append hordered hl ht h.latest

/-- What a lookup has found in a segment that has reached the time, it finds ever after, whatever
calls succeed or fail, on storage that gives up what a failed record has left there
(`Medium.Exact`). -/
theorem lookUp_stable (hb : r₀.Begins) (hd : w₀.disk.Sound) (h : Undisturbed r₀ w₀ os r w)
    (hl : (r.lookUp time w.disk).1 = .ok (s, n))
    (hlast : ∃ last, (row w.disk s).getLast? = some last ∧ time ≤ last.timestamp)
    (h' : Undisturbed r w more r' w')
    (hlate : ∀ path start, Operation.append path start ∈ more → time < start) :
    ∃ s', (r'.lookUp time w'.disk).1 = .ok (s', n) ∧ s.SamePlace s' := by
  have hsteady := (h.steady (hb.steady hd)).1
  obtain ⟨hsteady', hcontinues⟩ := h'.steady hsteady
  obtain ⟨k, u, i, e, hresolves, hsu, rfl⟩ := hsteady.resolves hl
  obtain ⟨last, hlast, ht⟩ := hlast
  have hfile := hresolves.file
  rw [← hsu.samePlace.index] at hfile
  rw [row_of_file hfile] at hlast
  obtain ⟨u', hresolves', huu⟩ := hresolves.continues hcontinues hlate hlast ht
  refine ⟨_, hresolves'.answers hsteady', Segment.mark_eq.mp ?_⟩
  have hquery := u'.query_sameButReader (·.lookUp time w'.disk) w'.disk
  rw [Segment.mark_eq.mpr hquery.samePlace, Segment.mark_eq.mpr huu,
    Segment.mark_eq.mpr hsu.samePlace]

/-! ## A time that was reached before its segment ended -/

theorem suits_append (path : SegmentPath) (start : UInt64)
    (h : (d.lookUp ((r.fileOf path).indexPath r.extension)).isOk = false) :
    r.Suits d (.append path start) := by
  intro i hi
  rw [hi] at h
  cases h

theorem suits_store {path : Path} (h : (d.lookUp path).isOk = false)
    (htemporary : (d.lookUp (path.withExtension "tmp")).isOk = false) :
    r.Suits d (.store path) := by
  intro s _ i _
  constructor
  · intro hi
    rw [hi] at h
    cases h
  · intro hi
    rw [hi] at htemporary
    cases htemporary

end

def tied : Recording × World := sampled.1.perform sampled.2 (.record ⟨12, 8⟩)
def passed : Recording × World := tied.1.perform tied.2 (.append secondName 20)
def listed : Recording × World := passed.1.perform passed.2 (.store ⟨"m.json"⟩)
def ended : Recording × World := listed.1.perform listed.2 .finish

theorem undisturbed_sampled : Undisturbed (empty "idx" none) plainWorld
    [.append firstName 10, .record ⟨12, 7⟩] sampled.1 sampled.2 := by
  have hbegun := Undisturbed.start.performed (.append firstName 10)
    (suits_append (r := empty "idx" none) (d := plainWorld.disk) firstName 10 (by decide +kernel))
  exact hbegun.performed (.record ⟨12, 7⟩) trivial

theorem undisturbed_ended : Undisturbed sampled.1 sampled.2
    [.record ⟨12, 8⟩, .append secondName 20, .store ⟨"m.json"⟩, .finish] ended.1 ended.2 := by
  have htied : Undisturbed sampled.1 sampled.2 _ tied.1 tied.2 :=
    Undisturbed.start.performed (.record ⟨12, 8⟩) trivial
  have hpassed := htied.performed (.append secondName 20)
    (suits_append (r := tied.1) (d := tied.2.disk) secondName 20 (by decide +kernel))
  have hlisted := hpassed.performed (.store ⟨"m.json"⟩)
    (suits_store (r := passed.1) (d := passed.2.disk) (by decide +kernel) (by decide +kernel))
  exact hlisted.performed .finish trivial

/-- The answer survives a record of the same time, the next segment, a manifest and the end. -/
theorem lookUp_stable_ended : ∃ s, (ended.1.lookUp 12 ended.2.disk).1 = .ok (s, 7) ∧
    s.path = firstName := by
  have hanswer : ((sampled.1.lookUp 12 sampled.2.disk).1.toOption.map fun x =>
      (x.2, x.1.path, row sampled.2.disk x.1)) = some (7, firstName, [⟨12, 7⟩]) := by
    decide +kernel
  cases hl : (sampled.1.lookUp 12 sampled.2.disk).1 with
  | error err =>
    rw [hl] at hanswer
    cases hanswer
  | ok found =>
    obtain ⟨s, n⟩ := found
    rw [hl] at hanswer
    obtain ⟨rfl, hpath, hrow⟩ : n = 7 ∧ s.path = firstName ∧ row sampled.2.disk s = [⟨12, 7⟩] := by
      simpa [Except.toOption] using hanswer
    have hlast : ∃ last, (row sampled.2.disk s).getLast? = some last ∧ 12 ≤ last.timestamp := by
      rw [hrow]
      exact ⟨⟨12, 7⟩, rfl, UInt64.le_refl _⟩
    have hlate : ∀ path start, Operation.append path start ∈ ([.record ⟨12, 8⟩,
        .append secondName 20, .store ⟨"m.json"⟩, .finish] : List Operation) → 12 < start := by
      intro path start h
      simp only [List.mem_cons, reduceCtorEq, Operation.append.injEq, List.not_mem_nil, or_false,
        false_or] at h
      rw [h.2]
      decide
    obtain ⟨s', hl', hsame⟩ := lookUp_stable (.inl ⟨"idx", rfl⟩) (Disk.sound_blank _)
      undisturbed_sampled hl hlast undisturbed_ended hlate
    exact ⟨s', hl', hsame.path.trans hpath⟩

/-! ## Storage that does not give a failed record up -/

/-- The first word of a record finds room and cannot be cut off again. -/
def halfMedium : Medium :=
  { keeps := some 8, writeError := some .noSpace, resizeError := some .invalidArgument }

def reached : Recording × World := sampled.1.perform sampled.2 (.record ⟨20, 8⟩)
def halved : Recording × World := reached.1.perform (stored halfMedium reached.2) (.record ⟨30, 9⟩)
def shifted : Recording × World :=
  [.record ⟨40, 13⟩, .record ⟨41, 13⟩, .append secondName 50].foldl
    (fun x o => x.1.perform x.2 o) (halved.1, stored .regular halved.2)

/-- What a failed record leaves moves the records behind it, and the time that was reached before
has no answer any more when its segment has ended. -/
theorem lookUp_lost :
    let index := Entry.encodeAll [⟨12, 7⟩, ⟨20, 8⟩]
    halfMedium.Honest ∧ reached.2.disk.content 2 = index ∧
      (reached.1.lookUp 20 reached.2.disk).1.toOption.map (fun x => (x.1.path, x.2)) =
        some (firstName, 8) ∧
      (reached.1.record ⟨30, 9⟩ (stored halfMedium reached.2)).1.isOk = false ∧
      halved.2.disk.content 2 = index ++ Word.bytes 8 30 ∧
      shifted.2.disk.content 2 =
        index ++ Word.bytes 8 30 ++ Entry.encodeAll [⟨40, 13⟩, ⟨41, 13⟩] ∧
      shifted.1.segments.map (·.path) = [firstName, secondName] ∧
      (shifted.1.lookUp 20 shifted.2.disk).1.map (·.2) =
        .error (.corrupt "a.ts.idx: timestamp decreases at record 3") := by
  intro index
  refine ⟨nofun, ?_⟩
  decide +kernel

end Timeshift.Recording
