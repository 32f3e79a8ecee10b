import Timeshift.Proofs.Recording.Making

/-!
# Calls that are turned away

A segment is turned away by the list, or because its index cannot be opened or is not in order, and
a sample by the segment that is recorded. Nothing is touched before that is decided, so whatever is
done afterwards goes as if there had been no such call. Besides these, a segment fails only where
storage does that is to give up the torn end of its index.
-/

namespace Timeshift.Recording

inductive Refused (r : Recording) (path : SegmentPath) (start : UInt64) : Error → Prop
  | finished : r.finished = true → Refused r path start (.notWritable "recording is finished")
  | early {last : Segment} : r.finished = false → r.segments.getLast? = some last →
      start < last.start → Refused r path start (.invalidInput
        s!"segment {path} starts at {start} before previous segment start {last.start}")
  | listed {s : Segment} : r.finished = false →
      (∀ last ∈ r.segments.getLast?, last.start ≤ start) → s ∈ r.segments → s.path = path →
      Refused r path start (.invalidInput s!"segment {path} is already in the list")

inductive Declined (r : Recording) (path : SegmentPath) (start : UInt64) (d : Disk) : Error → Prop
  | refused {e : Error} : Refused r path start e → Declined r path start d e
  | unrecordable {e : Error} : r.refusal? path start = none →
      Index.Unrecordable (r.indexOf path) d e → Declined r path start d e

def WithoutEffect (r : Recording) (w : World) (o : Operation) : Prop :=
  r.perform w o = (r, w) ∧ ∀ os, r.performAll w (o :: os) = r.performAll w os

section
variable {r : Recording} {path : SegmentPath} {start : UInt64} {e : Entry} {err : Error}
  {w w' : World} {o : Operation}

theorem withoutEffect_of_perform (h : r.perform w o = (r, w)) : r.WithoutEffect w o := by
  refine ⟨h, fun os => ?_⟩
  rw [performAll, h]

theorem refusal?_eq_some : r.refusal? path start = some err ↔ Refused r path start err := by
  constructor
  · intro h
    unfold refusal? at h
    split at h
    · rename_i hf
      cases h
      exact .finished hf
    · rename_i hf
      rw [Bool.not_eq_true] at hf
      split at h
      · rename_i previous hprevious
        cases h
        obtain ⟨hstart, hlt⟩ := Option.filter_eq_some_iff.mp hprevious
        obtain ⟨last, hlast, rfl⟩ := Option.map_eq_some_iff.mp hstart
        exact .early hf hlast (of_decide_eq_true hlt)
      · rename_i hprevious
        split at h
        · rename_i hany
          cases h
          obtain ⟨s, hs, heq⟩ := List.any_eq_true.mp hany
          refine .listed hf (fun last hlast => ?_) hs (of_decide_eq_true heq)
          rw [Option.mem_def.mp hlast, Option.map_some, Option.filter_eq_none_iff] at hprevious
          exact UInt64.not_lt.mp fun hlt => hprevious last.start rfl (decide_eq_true hlt)
        · cases h
  · intro h
    unfold refusal?
    cases h with
    | finished hf => rw [if_pos hf]
    | @early last hf hlast hlt =>
      have hfilter : (r.segments.getLast?.map (·.start)).filter (start < ·) = some last.start := by
        rw [hlast, Option.map_some]
        exact Option.filter_some_pos (decide_eq_true hlt)
      rw [if_neg (by rw [hf]; nofun)]
      simp only [hfilter]
    | @listed s hf hle hs hpath =>
      have hfilter : (r.segments.getLast?.map (·.start)).filter (start < ·) = none := by
        rw [Option.filter_eq_none_iff]
        intro previous hprevious
        obtain ⟨last, hlast, rfl⟩ := Option.map_eq_some_iff.mp hprevious
        simpa using hle last hlast
      have hany : r.segments.any (·.path = path) = true :=
        List.any_eq_true.mpr ⟨s, hs, decide_eq_true hpath⟩
      rw [if_neg (by rw [hf]; nofun)]
      simp only [hfilter, hany, if_true]

/-! ## A segment that is turned away -/

theorem Declined.append (h : Declined r path start w.disk err) :
    r.append path start w = (.error err, w) := by
  unfold Recording.append
  cases h with
  | refused hr => rw [refusal?_eq_some.mpr hr]
  | unrecordable hn hu =>
    unfold indexOf at hu
    simp only [hn, hu.openRecord]

/-- What is decided by the list comes first, then the index is opened. -/
theorem append_error_cases (h : r.append path start w = (.error err, w')) :
    Declined r path start w.disk err ∧ w' = w ∨
      ∃ i cause, err = .io cause ∧ Index.Uncut (r.indexOf path) i cause w.disk w'.disk := by
  cases hr : r.refusal? path start with
  | some refusal =>
    have hdeclined := Declined.refused (d := w.disk) (refusal?_eq_some.mp hr)
    rw [hdeclined.append] at h
    cases h
    exact .inl ⟨hdeclined, rfl⟩
  | none =>
    unfold Recording.append at h
    rw [hr] at h
    simp only at h
    split at h
    · rename_i hopen
      cases h
      exact (Index.openRecord_error_cases hopen).imp_left fun hu => ⟨.unrecordable hr hu.1, hu.2⟩
    · cases h

theorem Declined.withoutEffect (h : Declined r path start w.disk err) :
    r.WithoutEffect w (.append path start) := by
  apply withoutEffect_of_perform
  simp only [perform, h.append, kept]

/-! ## A sample that is turned away -/

theorem record_rejected (h : r.record e w = (.error err, w')) (hr : err.isRejection = true) :
    w' = w := by
  rcases record_eq_error h with rfl | ⟨_, _, x, _, _, hw⟩
  · rfl
  · exact Index.write_rejected hw hr

theorem withoutEffect_record (h : r.record e w = (.error err, w'))
    (hr : err.isRejection = true) : r.WithoutEffect w (.record e) := by
  obtain rfl := record_rejected h hr
  apply withoutEffect_of_perform
  simp only [perform, h, kept]

theorem perform_of_error (h : r.append path start w = (.error err, w')) :
    r.perform w (.append path start) = (r, w') := by
  simp only [perform, h, kept]

/-- A segment that is turned away, and a sample, leave the recording and the disk as they are, and
nothing that is done afterwards shows that they were tried. A segment that is not turned away fails
only if storage does: the recording stays as it is, and so do the records of the index. -/
theorem failed_without_effect (r : Recording) (w : World) :
    (∀ path start err, Declined r path start w.disk err →
      r.append path start w = (.error err, w) ∧ r.WithoutEffect w (.append path start)) ∧
    (∀ path start err w', r.append path start w = (.error err, w') →
      r.perform w (.append path start) = (r, w') ∧
      (Declined r path start w.disk err ∧ w' = w ∨
        ∃ i cause, err = .io cause ∧ Index.Uncut (r.indexOf path) i cause w.disk w'.disk)) ∧
    ∀ e err w', r.record e w = (.error err, w') → err.isRejection = true →
      w' = w ∧ r.WithoutEffect w (.record e) := by
  refine ⟨?_, ?_, ?_⟩
  · intro path start err h
    exact ⟨h.append, h.withoutEffect⟩
  · intro path start err w' h
    exact ⟨perform_of_error h, append_error_cases h⟩
  · intro e err w' h hr
    exact ⟨record_rejected h hr, withoutEffect_record h hr⟩

end

def takenName : SegmentPath := ⟨"taken.ts", by decide, by decide⟩

/-- The index of the second segment is there already, torn and out of order, and a directory stands
where another would be made. -/
def beset : World :=
  ⟨{ sampled.2.disk with
      nodes := (sampled.2.disk.nodes.put ["work".toList, "b.ts.idx".toList] (.file 9)).put
        ["work".toList, "taken.ts.idx".toList] .directory
      files := sampled.2.disk.files.put 9
        { content := Entry.encodeAll [⟨5, 0⟩, ⟨3, 188⟩] ++ [1, 2, 3] }
      next := 10 }, []⟩

theorem declined_beset : (∃ what, Declined sampled.1 secondName 20 beset.disk (.corrupt what)) ∧
    Declined sampled.1 takenName 20 beset.disk (.io .isDirectory) := by
  constructor
  · have hfile : beset.disk.lookUp (sampled.1.indexOf secondName) = .ok (.file 9) := by
      decide +kernel
    have hbroken : Index.regression? (Entry.readAll (beset.disk.content 9)) = some 1 := by
      decide +kernel
    exact ⟨_, .unrecordable (by decide +kernel) (.disordered hfile hbroken)⟩
  · have hopen : beset.disk.openCreate (sampled.1.indexOf takenName) = .error .isDirectory := rfl
    exact .unrecordable (by decide +kernel) (.unopened hopen)

/-- After an index that is out of order, a directory in the way and a sample that is too early the
segment that is recorded goes on as before. -/
theorem failed_without_effect_beset :
    (∃ what, sampled.1.append secondName 20 beset = (.error (.corrupt what), beset)) ∧
    sampled.1.append takenName 20 beset = (.error (.io .isDirectory), beset) ∧
    (∃ last, sampled.1.record ⟨11, 9⟩ beset = (.error (.timestampRegression 11 last), beset)) ∧
    ∀ os, sampled.1.performAll beset
        (.append secondName 20 :: .append takenName 20 :: .record ⟨11, 9⟩ :: os) =
      sampled.1.performAll beset os := by
  obtain ⟨hdeclined, _, hrejected⟩ := failed_without_effect sampled.1 beset
  obtain ⟨what, hbroken⟩ := declined_beset.1
  obtain ⟨hsecond, _, hskip⟩ := hdeclined _ _ _ hbroken
  obtain ⟨htaken, _, hskip'⟩ := hdeclined _ _ _ declined_beset.2
  have hregression : (sampled.1.record ⟨11, 9⟩ beset).1 =
      .error (.timestampRegression 11 12) := by decide +kernel
  obtain ⟨hworld, _, hskip''⟩ := hrejected _ _ _ (Prod.ext hregression rfl) rfl
  refine ⟨⟨what, hsecond⟩, htaken, ⟨12, Prod.ext hregression hworld⟩, ?_⟩
  intro os
  rw [hskip, hskip', hskip'']

end Timeshift.Recording
