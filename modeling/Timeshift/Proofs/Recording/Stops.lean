import Timeshift.Proofs.Recording.Making

/-!
# Where a segment stops

A segment stops with the last record of its index, or at its start if that is later. A segment that
is appended where an index has records already begins with its start as its stop all the same; the
first sample that is accepted puts that right, and so does the end of its recording.
-/

namespace Timeshift

namespace Segment

def due (s : Segment) : Option Entry → UInt64
  | some e => max e.timestamp s.start
  | none => s.start

/-- The index of the segment holds what was `found` in it and then the samples of the take. Until it
has a sample, or is over, the segment stops where it starts. -/
structure Timed (s : Segment) (t : Take) (found : List Entry) (d : Disk) : Prop where
  start : s.start = t.start
  indexed : ∃ n i, s.Indexed d n i (found ++ t.entries) ∧ (d.medium i).Exact
  fresh : s.isActive = true → t.entries = [] → s.stop = s.start
  settled : s.isActive = false ∨ t.entries ≠ [] → s.stop = s.due (found ++ t.entries).getLast?

section
variable {s : Segment} {t : Take} {found : List Entry} {d d' : Disk} {e : Entry} {w w' : World}
  {x x' : Index} {n : Name} {i : FileId}

theorem Timed.keeps (h : s.Timed t found d) (hk : d.KeepsRecords d' s.index) :
    s.Timed t found d' := by
  obtain ⟨n, i, hi, hm⟩ := h.indexed
  refine ⟨h.start, ?_, h.fresh, h.settled⟩
  obtain ⟨hl, hm', hc⟩ := hk i hi.lookUp
  obtain ⟨n', hplace, hnode⟩ := Disk.lookUp_eq_file.mp hl
  rw [hi.content, Entry.readAll_encodeAll, or_self] at hc
  exact ⟨n', i, ⟨hplace, hnode, hc, hi.ordered, hi.writer, hi.reader⟩, hm' hm⟩

theorem Timed.finish (h : s.Timed t found w.disk) : (s.finish w).1.Timed t found w.disk := by
  obtain ⟨n, i, hi, hm⟩ := h.indexed
  obtain ⟨_, hstop, hi'⟩ := hi.finish
  have hstart := (s.finish_samePlace w).start
  have hidle : (s.finish w).1.isActive = false := by
    unfold isActive
    rw [s.finish_inactive w]
    rfl
  refine ⟨hstart.trans h.start, ⟨n, i, hi', hm⟩, ?_, ?_⟩
  · intro hactive
    rw [hidle] at hactive
    cases hactive
  · intro _
    rw [hstop]
    cases hlast : (found ++ t.entries).getLast? with
    | some e =>
      unfold stopAfter due
      rw [hstart]
    | none =>
      -- there is no record, so the segment stopped at its start before
      obtain ⟨_, hnone⟩ := List.append_eq_nil_iff.mp (List.getLast?_eq_none_iff.mp hlast)
      have hstop : s.stop = s.start := by
        by_cases hactive : s.isActive = true
        · exact h.fresh hactive hnone
        · have := h.settled (.inl (Bool.eq_false_iff.mpr hactive))
          rwa [hlast] at this
      unfold stopAfter due
      rw [hstop, hstart]

/-- An accepted sample is the last record, so the segment stops there, however late its stop was
before. -/
theorem Timed.record (h : s.Timed t found w.disk) (hi : s.Indexed w.disk n i (found ++ t.entries))
    (hm : (w.disk.medium i).Exact) (hx : s.writer = some x)
    (hw : x.write e w = (.ok x', w')) :
    Timed { s with writer := some x', stop := max s.stop e.timestamp } (t.add e) found w'.disk := by
  obtain ⟨ha, htracks, hc, hcontent⟩ := Index.write_ok (hi.writer x hx) hi.content hm hw
  have hrow : found ++ (t.add e).entries = found ++ t.entries ++ [e] := by
    unfold Take.add
    rw [List.append_assoc]
  refine ⟨h.start, ?_, ?_, ?_⟩
  · rw [hrow]
    refine ⟨n, i, ⟨hi.place.mono hc.extends_, ?_, hcontent,
      Index.isOrdered_concat.mpr ⟨hi.ordered, ha⟩, ?_, hi.reader⟩, hc.medium i ▸ hm⟩
    · rw [Disk.node?_congr hc.nodes]
      exact hi.node
    · intro y hy
      cases hy
      exact htracks
  · intro _ hnone
    exact absurd hnone (by simp [Take.add])
  · intro _
    rw [hrow, List.getLast?_concat]
    show max s.stop e.timestamp = max e.timestamp s.start
    by_cases hfirst : t.entries = []
    · have hactive : s.isActive = true := by
        unfold isActive
        rw [hx]
        rfl
      rw [h.fresh hactive hfirst, word_max_comm]
    · rw [h.settled (.inr hfirst)]
      cases hlast : (found ++ t.entries).getLast? with
      | none =>
        have hnil := List.getLast?_eq_none_iff.mp hlast
        exact absurd (List.append_eq_nil_iff.mp hnil).2 hfirst
      | some last => exact word_max_later (ha last hlast) s.start

/-- The index had records from after the start when the segment was appended, and nothing has come
of it yet. -/
def Awaits (s : Segment) (t : Take) (found : List Entry) : Prop :=
  s.isActive = true ∧ t.entries = [] ∧ ∃ last ∈ found.getLast?, s.start < last.timestamp

theorem Timed.stop_eq_iff (h : s.Timed t found d) :
    s.stop = s.due (found ++ t.entries).getLast? ↔ ¬ s.Awaits t found := by
  by_cases hactive : s.isActive = true
  · by_cases hnone : t.entries = []
    · rw [h.fresh hactive hnone, hnone, List.append_nil]
      cases hlast : found.getLast? with
      | none =>
        refine ⟨?_, fun _ => rfl⟩
        intro _ hawaits
        obtain ⟨_, _, last, hmem, _⟩ := hawaits
        rw [hlast] at hmem
        cases hmem
      | some last =>
        have hdue : s.due (some last) =
            if last.timestamp ≤ s.start then s.start else last.timestamp := rfl
        rw [hdue]
        constructor
        · intro hstart hawaits
          obtain ⟨_, _, last', hmem, hlt⟩ := hawaits
          rw [hlast] at hmem
          cases hmem
          rw [if_neg (UInt64.not_le.mpr hlt)] at hstart
          exact UInt64.ne_of_lt hlt hstart
        · intro hnot
          have hle : last.timestamp ≤ s.start := by
            apply UInt64.not_lt.mp
            intro hlt
            exact hnot ⟨hactive, hnone, last, hlast, hlt⟩
          rw [if_pos hle]
    · refine ⟨fun _ hawaits => hnone hawaits.2.1, fun _ => h.settled (.inr hnone)⟩
  · have hidle := Bool.eq_false_iff.mpr hactive
    exact ⟨fun _ hawaits => hactive hawaits.1, fun _ => h.settled (.inl hidle)⟩

end

end Segment

namespace Recording

open Recorder (note note_concat forall_concat forall_split)

/-- Segments, samples and ends of the recording brought `r₀` to `r`, each call accepted or refused.
The takes are the segments that were appended, with the samples that were accepted for each. In
between the storage may begin or cease to fail. -/
inductive Driven (r₀ : Recording) (w₀ : World) : List Take → Recording → World → Prop
  | start : Driven r₀ w₀ [] r₀ w₀
  | appended {takes : List Take} {r r' : Recording} {w w' : World} {path : SegmentPath}
      {start : UInt64} : Driven r₀ w₀ takes r w → r.Suits w.disk (.append path start) →
      r.append path start w = (.ok r', w') → Driven r₀ w₀ (takes ++ [⟨start, []⟩]) r' w'
  | notAppended {takes : List Take} {r : Recording} {w w' : World} {path : SegmentPath}
      {start : UInt64} {err : Error} : Driven r₀ w₀ takes r w →
      r.append path start w = (.error err, w') → Driven r₀ w₀ takes r w'
  | recorded {takes : List Take} {r r' : Recording} {w w' : World} {e : Entry} :
      Driven r₀ w₀ takes r w → r.record e w = (.ok r', w') →
      Driven r₀ w₀ (note e takes) r' w'
  | notRecorded {takes : List Take} {r : Recording} {w w' : World} {e : Entry} {err : Error} :
      Driven r₀ w₀ takes r w → r.record e w = (.error err, w') → Driven r₀ w₀ takes r w'
  | finished {takes : List Take} {r : Recording} {w : World} : Driven r₀ w₀ takes r w →
      Driven r₀ w₀ takes (r.finish w).1 (r.finish w).2
  | storage {takes : List Take} {r : Recording} {w w' : World} : Driven r₀ w₀ takes r w →
      w.disk.ChangesMedia Medium.Exact w'.disk → Driven r₀ w₀ takes r w'

structure InTime (takes : List Take) (r : Recording) (d : Disk) : Prop where
  length_eq : r.segments.length = takes.length
  timed : ∀ (k : Nat) (s : Segment) (t : Take), r.segments[k]? = some s → takes[k]? = some t →
    ∃ found, s.Timed t found d

section
variable {r₀ r r' : Recording} {w₀ w w' : World} {takes before : List Take} {t : Take}
  {s : Segment} {d d' : Disk} {path : SegmentPath} {start : UInt64} {e : Entry} {k : Nat}
  {init : List Segment} {err : Error} {found : List Entry}

/-! ## What each call keeps -/

theorem InTime.keeps (h : InTime takes r d) (hk : ∀ s ∈ r.segments, d.KeepsRecords d' s.index) :
    InTime takes r d' := by
  refine ⟨h.length_eq, ?_⟩
  intro k s t hs ht
  obtain ⟨found, hst⟩ := h.timed k s t hs ht
  exact ⟨found, hst.keeps (hk s (List.mem_of_getElem? hs))⟩

theorem InTime.split (h : InTime takes r d) (hr : r.segments = init ++ [s]) :
    ∃ before t, takes = before ++ [t] ∧ InTime before { r with segments := init } d ∧
      ∃ found, s.Timed t found d := by
  have hlen := h.length_eq
  have htimed := h.timed
  rw [hr] at hlen htimed
  obtain ⟨before, t, htakes, hlen', hbefore, hlast⟩ := forall_split hlen htimed
  exact ⟨before, t, htakes, ⟨hlen', hbefore⟩, hlast⟩

theorem InTime.concat (h : InTime before { r with segments := init } d)
    (hst : s.Timed t found d) :
    InTime (before ++ [t]) { r with segments := init ++ [s] } d := by
  refine ⟨?_, forall_concat h.length_eq h.timed ⟨found, hst⟩⟩
  have := h.length_eq
  simp only [List.length_append, this]
  rfl

theorem InTime.finishLast (h : InTime takes r w.disk) :
    InTime takes (r.finishLast w).1 w.disk := by
  rcases finishLast_cases r w with ⟨_, hf⟩ | ⟨init, s, hr, hf⟩
  · rw [hf]
    exact h
  · rw [hf]
    obtain ⟨before, t, htakes, hinit, found, hst⟩ := h.split hr
    rw [htakes]
    exact hinit.concat hst.finish

/-- The writer of a new segment knows what was found in its index. -/
theorem timed_opened {x : Index} (hm : r.Suits w.disk (.append path start))
    (hopen : Index.openRecord ((r.fileOf path).indexPath r.extension) w = (.ok x, w')) :
    ∃ found, (r.opened path start x).Timed ⟨start, []⟩ found w'.disk := by
  obtain ⟨i, row, htracks, hl, ho, hcontent, hmedium⟩ := (steady_opened hm hopen).writer x rfl
  obtain ⟨n, hplace, hnode⟩ := Disk.lookUp_eq_file.mp hl
  refine ⟨row, rfl, ⟨n, i, ?_, hmedium⟩, fun _ _ => rfl, ?_⟩
  · rw [List.append_nil]
    refine ⟨hplace, hnode, hcontent, ho, ?_, nofun⟩
    intro y hy
    cases hy
    exact htracks
  · intro hover
    rcases hover with hidle | hsome
    · cases hidle
    · exact absurd rfl hsome

theorem InTime.append (h : InTime takes r w.disk) (hs : w.disk.Sound)
    (hm : r.Suits w.disk (.append path start)) (ha : r.append path start w = (.ok r', w')) :
    InTime (takes ++ [⟨start, []⟩]) r' w'.disk := by
  obtain ⟨_, x, w₁, hopen, rfl, rfl⟩ := append_eq_ok.mp ha
  have hkeeps := Index.keepsRecords_openRecord hs ((r.fileOf path).indexPath r.extension)
  rw [hopen] at hkeeps
  obtain ⟨found, hnew⟩ := timed_opened hm hopen
  rw [disk_finishLast]
  exact (h.keeps fun s _ => hkeeps s.index).finishLast.concat hnew

theorem InTime.append_error (h : InTime takes r w.disk) (hs : w.disk.Sound)
    (ha : r.append path start w = (.error err, w')) : InTime takes r w'.disk := by
  rcases append_eq_error ha with rfl | hopen
  · exact h
  · have hkeeps := Index.keepsRecords_openRecord hs ((r.fileOf path).indexPath r.extension)
    rw [hopen] at hkeeps
    exact h.keeps fun s _ => hkeeps s.index

theorem InTime.record (h : InTime takes r w.disk) (hr : r.record e w = (.ok r', w'))
    (hown : Apart w.disk r.indexes) : InTime (note e takes) r' w'.disk := by
  obtain ⟨init, s, x, x', hs, hx, hwrite, rfl⟩ := record_eq_ok hr
  obtain ⟨before, t, rfl, hinit, found, hst⟩ := h.split hs
  obtain ⟨n, i, hi, hm⟩ := hst.indexed
  obtain ⟨_, _, hc, _⟩ := Index.write_ok (hi.writer x hx) hi.content hm hwrite
  have hown' : Apart w.disk (indexes { r with segments := init } ++ [s.index]) := by
    simpa [indexes, hs] using hown
  rw [note_concat]
  refine InTime.concat (hinit.keeps ?_) (hst.record hi hm hx hwrite)
  intro u hu
  apply hc.keepsRecords_elsewhere
  intro hl
  exact hown'.concat_ne (mem_indexes hu) hl hi.lookUp

theorem InTime.record_error (h : InTime takes r w.disk)
    (hr : r.record e w = (.error err, w')) : InTime takes r w'.disk := by
  rcases record_eq_error hr with rfl | ⟨init, s, x, hs, hx, hw⟩
  · exact h
  · obtain ⟨before, t, rfl, _, found, hst⟩ := h.split hs
    obtain ⟨n, i, hi, hm⟩ := hst.indexed
    obtain ⟨hc, hcontent⟩ := Index.write_error (hi.writer x hx) hi.content hm hw
    apply h.keeps
    intro u _
    exact hc.keepsRecords (.inl (hcontent.trans hi.content.symm)) u.index

theorem InTime.finish (h : InTime takes r w.disk) :
    InTime takes (r.finish w).1 (r.finish w).2.disk := by
  rw [disk_finish]
  rcases r.finish_cases w with hf | ⟨_, hf⟩
  · rw [hf]
    exact h
  · rw [hf]
    exact ⟨h.finishLast.length_eq, h.finishLast.timed⟩

/-! ## What a run keeps -/

theorem Driven.sound (h : Driven r₀ w₀ takes r w) (hs : w₀.disk.Sound) : w.disk.Sound := by
  induction h with
  | start => exact hs
  | @appended _ r _ w _ path start _ _ ha ih =>
    have := sound_perform ih (o := .append path start) trivial r
    simpa only [perform, ha, kept] using this
  | @notAppended _ r w _ path start _ _ ha ih =>
    have := sound_perform ih (o := .append path start) trivial r
    simpa only [perform, ha, kept] using this
  | @recorded _ r _ w _ e _ hr ih =>
    have := sound_perform ih (o := .record e) trivial r
    simpa only [perform, hr, kept] using this
  | @notRecorded _ r w _ e _ _ hr ih =>
    have := sound_perform ih (o := .record e) trivial r
    simpa only [perform, hr, kept] using this
  | @finished _ r w _ ih =>
    rw [disk_finish]
    exact ih
  | storage _ hd ih => exact hd.sound ih

/-- Index files that are apart in the end were apart all the time. -/
theorem Driven.inTime {extension : String} {base : Option Path}
    (h : Driven (empty extension base) w₀ takes r w) (hs : w₀.disk.Sound)
    (hown : Apart w.disk r.indexes) : InTime takes r w.disk := by
  induction h with
  | start => exact ⟨rfl, fun _ _ _ hk => nomatch hk⟩
  | @appended takes r r' w w' path start h hm ha ih =>
    have hkeeps := keepsFiles_append r path start w
    rw [ha] at hkeeps
    rw [indexes_append ha] at hown
    have hback := hown.back hkeeps (List.sublist_append_left _ _)
    exact (ih hback).append (h.sound hs) hm ha
  | @notAppended takes r w w' path start err h ha ih =>
    have hkeeps := keepsFiles_append r path start w
    rw [ha] at hkeeps
    exact (ih (hown.back hkeeps (.refl _))).append_error (h.sound hs) ha
  | @recorded takes r r' w w' e _ hr ih =>
    have hkeeps := keepsFiles_record r e w
    rw [hr] at hkeeps
    rw [indexes_record hr] at hown
    have hback := hown.back hkeeps (.refl _)
    exact (ih hback).record hr hback
  | @notRecorded takes r w w' e err _ hr ih =>
    have hkeeps := keepsFiles_record r e w
    rw [hr] at hkeeps
    exact (ih (hown.back hkeeps (.refl _))).record_error hr
  | @finished takes r w _ ih =>
    rw [disk_finish, indexes_finish] at hown
    exact (ih hown).finish
  | storage _ hd ih =>
    exact (ih (hown.back hd.keepsFiles (.refl _))).keeps fun s _ => hd.keepsRecords s.index

/-- A segment of a new recording holds what was found in its index and then its accepted samples,
and stops with the last of these or at its start if that is later. Only while it is recorded, and
before its first sample, it stops at its start in spite of later records that were found. The
storage may fail at any time, as long as what is left of a failed write can be cut off again
(`Medium.Exact`). -/
theorem stop_eq_due_iff {extension : String} {base : Option Path}
    (h : Driven (empty extension base) w₀ takes r w) (hs : w₀.disk.Sound)
    (hown : r.segments.Pairwise fun s t => w.disk.lookUp s.index ≠ w.disk.lookUp t.index)
    (hk : r.segments[k]? = some s) :
    ∃ t i found, takes[k]? = some t ∧ t.start = s.start ∧
      w.disk.lookUp s.index = .ok (.file i) ∧
      Entry.readAll (w.disk.content i) = found ++ t.entries ∧
      (s.stop = s.due (Entry.readAll (w.disk.content i)).getLast? ↔ ¬ s.Awaits t found) ∧
      (s.Awaits t found → s.stop = s.start) := by
  have hapart : Apart w.disk r.indexes := by
    apply List.pairwise_map.mpr
    refine hown.imp ?_
    intro u v hne i hu hv
    exact hne (hu.trans hv.symm)
  have htime := h.inTime hs hapart
  have hlt := (List.getElem?_eq_some_iff.mp hk).1
  rw [htime.length_eq] at hlt
  have ht := List.getElem?_eq_getElem hlt
  obtain ⟨found, hst⟩ := htime.timed k s _ hk ht
  obtain ⟨n, i, hi, _⟩ := hst.indexed
  have hrow : Entry.readAll (w.disk.content i) = found ++ takes[k].entries := by
    rw [hi.content, Entry.readAll_encodeAll]
  refine ⟨_, i, found, ht, hst.start.symm, hi.lookUp, hrow, ?_, ?_⟩
  · rw [hrow]
    exact hst.stop_eq_iff
  · intro hawaits
    exact hst.fresh hawaits.1 hawaits.2.1

end

/-! ## An index that was there before -/

def earlier : World := ((empty "idx" none).performAll plainWorld
  [.append firstName 10, .record ⟨50, 7⟩, .finish]).2

def resumed : Recording × World := (empty "idx" none).perform earlier (.append firstName 10)

def caughtUp : Recording × World := resumed.1.perform resumed.2 (.record ⟨60, 9⟩)

theorem sound_earlier : earlier.disk.Sound :=
  sound_performAll (Disk.sound_blank _) (by decide)

theorem driven_resumed : Driven (empty "idx" none) earlier [⟨10, []⟩] resumed.1 resumed.2 := by
  refine Driven.start.appended ?_ (append_perform (by decide +kernel))
  intro i hi
  have hl : earlier.disk.lookUp ((empty "idx" none).indexOf firstName) = .ok (.file 2) := by
    decide +kernel
  have hi' : earlier.disk.lookUp ((empty "idx" none).indexOf firstName) = .ok (.file i) := hi
  rw [hl] at hi'
  cases hi'
  have hm : earlier.disk.medium 2 = .regular := by decide +kernel
  rw [hm]
  exact Medium.exact_named.1

theorem driven_caughtUp :
    Driven (empty "idx" none) earlier [⟨10, [⟨60, 9⟩]⟩] caughtUp.1 caughtUp.2 :=
  driven_resumed.recorded (record_perform (e := ⟨60, 9⟩) (by decide +kernel))

/-- The first sample puts the stop right. -/
theorem stop_eq_due_iff_caughtUp : ∃ s i, caughtUp.1.segments[0]? = some s ∧
    caughtUp.2.disk.lookUp s.index = .ok (.file i) ∧
    Entry.readAll (caughtUp.2.disk.content i) = [⟨50, 7⟩, ⟨60, 9⟩] ∧
    s.stop = s.due (some ⟨60, 9⟩) := by
  have hs := List.getElem?_eq_getElem (l := caughtUp.1.segments) (i := 0) (by decide +kernel)
  obtain ⟨t, i, found, ht, _, hl, _, hiff, _⟩ := stop_eq_due_iff driven_caughtUp sound_earlier
    (own_files (by decide +kernel)) hs
  have hrow : row caughtUp.2.disk caughtUp.1.segments[0] = [⟨50, 7⟩, ⟨60, 9⟩] := by decide +kernel
  rw [row_of_file hl] at hrow
  refine ⟨_, i, hs, hl, hrow, ?_⟩
  rw [hrow] at hiff
  apply hiff.mpr
  intro hawaits
  cases ht
  cases hawaits.2.1

/-- Until then the segment stops at its start, before the last record of its index. -/
theorem stop_stale : ∃ takes r w, Driven (empty "idx" none) earlier takes r w ∧
    earlier.disk.Sound ∧
    (r.segments.Pairwise fun s t => w.disk.lookUp s.index ≠ w.disk.lookUp t.index) ∧
    ∃ s ∈ r.segments, (row w.disk s).getLast? = some ⟨50, 7⟩ ∧ s.stop = 10 ∧
      s.stop ≠ s.due (row w.disk s).getLast? := by
  refine ⟨_, _, _, driven_resumed, sound_earlier, own_files (by decide +kernel), ?_⟩
  decide +kernel

end Recording

end Timeshift
