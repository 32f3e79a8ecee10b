import Timeshift.Proofs.Recorder.EndToEnd
import Timeshift.Proofs.Recording.Attached

/-!
# Rotations that fail

A rotation that fails up to the opening of the new index leaves the recorder as it was, and the next
sample goes where it would have gone. Where only the manifest cannot be stored, the rotation is done
all the same: the caller gets an error, and the next sample goes to the new segment.
-/

namespace Timeshift

section
variable {x x' : Recorder} {e : Entry} {err : Error} {start : UInt64} {v w w' : World}

namespace Recording

theorem record_congr (r : Recording) (e : Entry) (h : ∀ i, v.disk.medium i = w.disk.medium i) :
    (r.record e v).1 = (r.record e w).1 := by
  unfold record
  cases r.segments.getLast? with
  | none => rfl
  | some s =>
    cases hx : s.writer with
    | none => simp only [hx]
    | some y =>
      simp only [hx]
      have hw := y.write_congr e h
      cases hv : y.write e v with
      | mk result v₁ =>
        cases hw' : y.write e w with
        | mk result' w₁ =>
          rw [hv, hw'] at hw
          obtain rfl : result = result' := hw
          cases result with
          | ok _ => rfl
          | error _ => rfl

end Recording

namespace Recorder

def target? (x : Recorder) : Option FileId :=
  (x.recording.segments.getLast?.bind (·.writer)).bind (·.file)

theorem sample_touches (x : Recorder) (e : Entry) (w : World) :
    (x.sample e w).2.2.disk = w.disk ∨
      ∃ i, x.target? = some i ∧ w.disk.ChangesOnly i (x.sample e w).2.2.disk := by
  have hsample : (x.sample e w).2.2 = (x.recording.record e w).2 := by
    unfold Recorder.sample
    split
    · rename_i h; rw [h]
    · rename_i h; rw [h]
  rw [hsample]
  by_cases hr : x.recording.isRecording = true
  · obtain ⟨init, s, y, hs, hy⟩ := Recording.isRecording_iff.mp hr
    rw [(Recording.record_outcome hs hy e w).2]
    have htarget : x.target? = y.file := by
      unfold target?
      rw [hs, List.getLast?_concat, Option.bind_some, hy, Option.bind_some]
    rw [htarget]
    exact y.write_touches e w
  · obtain ⟨what, hw⟩ :=
      Recording.record_inactive (Recording.idle_of_isRecording hr) e w
    left
    rw [hw]

/-- What a sample answers, and what it makes of the recorder, does not depend on what the disk
holds. -/
theorem sample_congr (x : Recorder) (e : Entry) (h : ∀ i, v.disk.medium i = w.disk.medium i) :
    (x.sample e v).1 = (x.sample e w).1 ∧ (x.sample e v).2.1 = (x.sample e w).2.1 := by
  have hr := x.recording.record_congr e h
  unfold Recorder.sample
  cases hv : x.recording.record e v with
  | mk result v₁ =>
    cases hw : x.recording.record e w with
    | mk result' w₁ =>
      rw [hv, hw] at hr
      obtain rfl : result = result' := hr
      cases result with
      | ok _ => exact ⟨rfl, rfl⟩
      | error _ => exact ⟨rfl, rfl⟩

/-- The recorder is as it was and takes the next sample as it would have. At most the torn end of
one file is cut off. -/
structure Unrotated (x x' : Recorder) (w w' : World) : Prop where
  same : x' = x
  sample : ∀ e, (x'.sample e w').1 = (x.sample e w).1 ∧ (x'.sample e w').2.1 = (x.sample e w).2.1
  disk : w'.disk = w.disk ∨ ∃ i, w.disk.ChangesOnly i w'.disk ∧
    w'.disk.content i = Entry.encodeAll (Entry.readAll (w.disk.content i))

/-- The recorder has gone on: its last segment is ended, and there is a new one whose index, as it
stands on `d`, takes the samples. -/
structure Rotated (x x' : Recorder) (start : UInt64) (d : Disk) : Prop where
  ended : ∃ w₁, x'.recording.segments.dropLast = (x.recording.finishLast w₁).1.segments ∧
    ∀ s ∈ x'.recording.segments.dropLast.getLast?, s.writer = none
  next : ∃ s i, x'.recording.segments.getLast? = some s ∧ s.start = start ∧
    s.path.text = segmentName x.settings x.recording.segments.length ∧
    d.lookUp s.index = .ok (.file i) ∧ x'.target? = some i

theorem Rotated.length_eq {d : Disk} (h : Rotated x x' start d) :
    x'.recording.segments.length = x.recording.segments.length + 1 := by
  obtain ⟨⟨w₁, hdrop, _⟩, s, _, hlast, _⟩ := h
  obtain ⟨init, hinit⟩ := List.getLast?_eq_some_iff.mp hlast
  rw [hinit, List.dropLast_concat] at hdrop
  rw [hinit, List.length_append, hdrop, Recording.length_finishLast]
  rfl

theorem rotated_of_append {path : SegmentPath} {r : Recording}
    (hpath : path.text = segmentName x.settings x.recording.segments.length)
    (ha : x.recording.append path start w = (.ok r, w')) :
    Rotated x { x with recording := r } start w'.disk := by
  obtain ⟨_, y, w₁, hopen, rfl, rfl⟩ := Recording.append_eq_ok.mp ha
  obtain ⟨i, d, hcreate, rfl, _, hchange, _⟩ := Index.openRecord_ok hopen
  refine ⟨⟨w₁, List.dropLast_concat, ?_⟩, x.recording.opened path start _, i,
    List.getLast?_concat, rfl, hpath, ?_, ?_⟩
  · simp only [List.dropLast_concat]
    exact Recording.idle_finishLast x.recording w₁
  · rw [Recording.disk_finishLast, hchange.lookUp_eq]
    exact Disk.lookUp_openCreate hcreate
  · unfold target?
    simp only [List.getLast?_concat]
    rfl

/-- A rotation that fails either leaves the recorder as it was or has been made, and then it was the
manifest that could not be stored. -/
theorem unrotated_or_rotated (hb : x.beginSegment start w = (.error err, x', w')) :
    Unrotated x x' w w' ∨ ∃ r w₁, Rotated x x' start w₁.disk ∧ x' = { x with recording := r } ∧
      r.store x.manifestPath w₁ = (.error err, w') := by
  rcases beginSegment_eq_error hb with ⟨_, rfl, rfl⟩ |
    ⟨path, hpath, ⟨ha, rfl⟩ | ⟨r, w₁, ha, hs, rfl⟩⟩
  · exact .inl ⟨rfl, fun e => ⟨rfl, rfl⟩, .inl rfl⟩
  · left
    have hdisk : w'.disk = w.disk ∨ ∃ i, w.disk.ChangesOnly i w'.disk ∧
        w'.disk.content i = Entry.encodeAll (Entry.readAll (w.disk.content i)) := by
      rcases Recording.append_eq_error ha with rfl | hopen
      · exact .inl rfl
      · rcases Index.openRecord_error hopen with hd | ⟨i, _, hchange, hcontent⟩
        · exact .inl hd
        · exact .inr ⟨i, hchange, hcontent⟩
    refine ⟨rfl, fun e => sample_congr _ e fun i => ?_, hdisk⟩
    rcases hdisk with hd | ⟨_, hchange, _⟩
    · rw [hd]
    · exact hchange.medium i
  · exact .inr ⟨r, w₁, rotated_of_append hpath ha, rfl, hs⟩

/-! ## A directory where the manifest is to be written -/

def blocked : World :=
  ⟨(sampled.2.disk.makeDirectories ⟨"rec/recording.tmp"⟩).2, sampled.2.warnings⟩

def stuck : Recorder × World := (sampled.1.beginSegment 100 blocked).2

theorem rotated_stuck : ∃ (err : Error) (r : Recording) (w₁ : World),
    sampled.1.beginSegment 100 blocked = (.error err, stuck.1, stuck.2) ∧
      Rotated sampled.1 stuck.1 100 w₁.disk ∧
      r.store ⟨"rec/recording.json"⟩ w₁ = (.error err, stuck.2) := by
  have hfail : (sampled.1.beginSegment 100 blocked).1.isOk = false := by decide +kernel
  have hone : sampled.1.recording.segments.length = 1 := by decide +kernel
  have htwo : stuck.1.recording.segments.length = 2 := by decide +kernel
  have hpath : sampled.1.manifestPath = ⟨"rec/recording.json"⟩ := by decide +kernel
  obtain ⟨err, hb⟩ := eq_of_not_isOk (s := stuck) rfl hfail
  rcases unrotated_or_rotated hb with h | ⟨r, w₁, hr, _, hs⟩
  · rw [h.same, hone] at htwo
    cases htwo
  · rw [hpath] at hs
    exact ⟨err, r, w₁, hb, hr, hs⟩

/-- The call fails, and yet the active segment is ended and the samples go elsewhere. -/
theorem stuck_changed : (sampled.1.beginSegment 100 blocked).1.isOk = false ∧
    sampled.1.recording.segments.map (·.isActive) = [true] ∧
    stuck.1.recording.segments.map (·.isActive) = [false, true] ∧
    stuck.1.target? ≠ sampled.1.target? := by decide +kernel

end Recorder

end

end Timeshift
