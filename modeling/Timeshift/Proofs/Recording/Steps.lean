import Timeshift.Proofs.Path.Join
import Timeshift.Proofs.Recording.Asking
import Timeshift.Proofs.Manifest.RoundTrip

/-!
# What one operation does to a recording

Each operation that succeeds is taken apart once, into the segment it changes and the world it
leaves. `Listed` is what all of them keep: the segments stand in an order that a manifest may have,
and their files lie where the recording says.
-/

namespace Timeshift.Recording

theorem manifest_items (r : Recording) : r.manifest.items = r.segments.map Segment.item := rfl

/-- A recording whose manifest breaks no rule, and whose segments lie where it takes them from. -/
structure Listed (r : Recording) : Prop where
  extension : r.extension ≠ ""
  inOrder : Manifest.InOrder r.manifest.items
  file : ∀ s ∈ r.segments, s.file = r.fileOf s.path
  index : ∀ s ∈ r.segments, s.index = s.file.indexPath r.extension

section
variable {r r' : Recording} {s t : Segment} {path : SegmentPath} {start : UInt64} {e : Entry}
  {w w' : World} {init : List Segment}

/-! ## The last segment -/

theorem getLast?_segments : r.segments.getLast? = some s ↔
    ∃ init, r.segments = init ++ [s] := List.getLast?_eq_some_iff

theorem setLast_of_concat (h : r.segments = init ++ [s]) (t : Segment) :
    r.setLast t = { r with segments := init ++ [t] } := by
  unfold setLast
  rw [h, List.dropLast_concat]

theorem finishLast_nil (h : r.segments = []) (w : World) : r.finishLast w = (r, w) := by
  unfold finishLast
  rw [h]
  rfl

theorem finishLast_concat (h : r.segments = init ++ [s]) (w : World) :
    r.finishLast w = ({ r with segments := init ++ [(s.finish w).1] }, (s.finish w).2) := by
  unfold finishLast
  rw [h, List.getLast?_concat]
  simp only [setLast_of_concat h]

theorem finishLast_cases (r : Recording) (w : World) :
    r.segments = [] ∧ r.finishLast w = (r, w) ∨ ∃ init s, r.segments = init ++ [s] ∧
      r.finishLast w = ({ r with segments := init ++ [(s.finish w).1] }, (s.finish w).2) := by
  rcases List.eq_nil_or_concat r.segments with h | ⟨init, s, h⟩
  · exact .inl ⟨h, finishLast_nil h w⟩
  · rw [List.concat_eq_append] at h
    exact .inr ⟨init, s, h, finishLast_concat h w⟩

theorem finish_unfinished (h : r.finished = false) (w : World) : r.finish w =
    ({ (r.finishLast w).1 with finished := true }, (r.finishLast w).2) := by
  unfold finish
  rw [h]
  rfl

theorem finish_cases (r : Recording) (w : World) : r.finish w = (r, w) ∨ r.finished = false ∧
    r.finish w = ({ (r.finishLast w).1 with finished := true }, (r.finishLast w).2) := by
  cases hf : r.finished with
  | true =>
    left
    unfold finish
    rw [hf]
    rfl
  | false => exact .inr ⟨rfl, finish_unfinished hf w⟩

def opened (r : Recording) (path : SegmentPath) (start : UInt64) (x : Index) : Segment :=
  ⟨path, r.fileOf path, (r.fileOf path).indexPath r.extension, start, start, some x, none⟩

theorem finishLast_keeps (r : Recording) (w : World) :
    (r.finishLast w).1.extension = r.extension ∧ (r.finishLast w).1.base = r.base ∧
      (r.finishLast w).1.finished = r.finished ∧ (r.finishLast w).1.refusal? = r.refusal? ∧
      (r.finishLast w).1.opened = r.opened := by
  rcases finishLast_cases r w with ⟨_, h⟩ | ⟨init, s, hr, h⟩
  · rw [h]
    exact ⟨rfl, rfl, rfl, rfl, rfl⟩
  · rw [h]
    refine ⟨rfl, rfl, rfl, ?_, rfl⟩
    funext path start
    have hp := s.finish_samePlace w
    simp [refusal?, hr, hp.start, hp.path]

theorem length_finishLast (r : Recording) (w : World) :
    (r.finishLast w).1.segments.length = r.segments.length := by
  rcases finishLast_cases r w with ⟨_, hf⟩ | ⟨init, s, hs, hf⟩
  · rw [hf]
  · rw [hf, hs, List.length_append, List.length_append]
    rfl

theorem idle_finishLast (r : Recording) (w : World) :
    ∀ s ∈ (r.finishLast w).1.segments.getLast?, s.writer = none := by
  rcases finishLast_cases r w with ⟨hnil, hf⟩ | ⟨init, s, _, hf⟩
  · rw [hf, hnil]
    nofun
  · rw [hf, List.getLast?_concat]
    intro t ht
    cases ht
    exact s.finish_inactive w

/-! ## Taking the operations apart -/

theorem refusal?_eq_none : r.refusal? path start = none ↔ r.finished = false ∧
    (∀ s ∈ r.segments.getLast?, s.start ≤ start) ∧ ∀ s ∈ r.segments, s.path ≠ path := by
  unfold refusal?
  by_cases hf : r.finished = true
  · rw [if_pos hf, hf]
    exact ⟨nofun, fun h => nomatch h.1⟩
  rw [if_neg hf]
  cases hl : (r.segments.getLast?.map (·.start)).filter (start < ·) with
  | some previous =>
    refine ⟨nofun, fun h => ?_⟩
    obtain ⟨hm, hlt⟩ := Option.filter_eq_some_iff.mp hl
    obtain ⟨s, hs, rfl⟩ := Option.map_eq_some_iff.mp hm
    exact absurd (of_decide_eq_true hlt) (UInt64.not_lt.mpr (h.2.1 s hs))
  | none =>
    have hle : ∀ s ∈ r.segments.getLast?, s.start ≤ start := fun s hs => by
      rw [Option.mem_def.mp hs, Option.map_some, Option.filter_eq_none_iff] at hl
      exact UInt64.not_lt.mp fun hlt => hl s.start rfl (decide_eq_true hlt)
    by_cases hp : r.segments.any (·.path = path) = true
    · simp only [hp, if_true]
      refine ⟨nofun, fun h => ?_⟩
      obtain ⟨s, hs, heq⟩ := List.any_eq_true.mp hp
      exact absurd (of_decide_eq_true heq) (h.2.2 s hs)
    · simp only [hp]
      exact ⟨fun _ => ⟨Bool.eq_false_iff.mpr hf, hle, fun s hs heq =>
        hp (List.any_eq_true.mpr ⟨s, hs, decide_eq_true heq⟩)⟩, fun _ => rfl⟩

theorem append_eq_ok : r.append path start w = (.ok r', w') ↔ r.refusal? path start = none ∧
    ∃ x w₁, Index.openRecord ((r.fileOf path).indexPath r.extension) w = (.ok x, w₁) ∧
      r' = { (r.finishLast w₁).1 with
        segments := (r.finishLast w₁).1.segments ++ [r.opened path start x] } ∧
      w' = (r.finishLast w₁).2 := by
  unfold append
  cases hr : r.refusal? path start with
  | some err => exact ⟨nofun, fun h => nomatch h.1⟩
  | none =>
    simp only [true_and]
    cases ho : Index.openRecord ((r.fileOf path).indexPath r.extension) w with
    | mk opened w₁ =>
      cases opened with
      | error err => exact ⟨nofun, fun ⟨_, _, h, _⟩ => nomatch h⟩
      | ok x =>
        constructor
        · intro h
          cases h
          exact ⟨x, w₁, rfl, rfl, rfl⟩
        · rintro ⟨_, _, h, rfl, rfl⟩
          cases h
          rfl

theorem append_eq_error {err : Error} (h : r.append path start w = (.error err, w')) : w' = w ∨
    Index.openRecord ((r.fileOf path).indexPath r.extension) w = (.error err, w') := by
  unfold append at h
  split at h
  · cases h
    exact .inl rfl
  · cases ho : Index.openRecord ((r.fileOf path).indexPath r.extension) w with
    | mk opened w₁ =>
      simp only [ho] at h
      cases opened with
      | ok x => cases h
      | error e => cases h; exact .inr rfl

theorem record_active {x : Index} (h : r.segments = init ++ [s]) (hx : s.writer = some x)
    (e : Entry) (w : World) : r.record e w =
      match x.write e w with
      | (.error err, w) => (.error err, w)
      | (.ok x, w) => (.ok { r with segments := init ++ [{ s with
          writer := some x, stop := max s.stop e.timestamp }] }, w) := by
  unfold record
  rw [h, List.getLast?_concat]
  cases hw : x.write e w with
  | mk result w₁ =>
    cases result with
    | error err => simp only [hx, hw]
    | ok y => simp only [hx, hw, setLast_of_concat h]

theorem record_outcome {x : Index} (h : r.segments = init ++ [s]) (hx : s.writer = some x)
    (e : Entry) (w : World) : (r.record e w).1.isOk = (x.write e w).1.isOk ∧
      (r.record e w).2 = (x.write e w).2 := by
  rw [record_active h hx]
  cases x.write e w with
  | mk result w₁ =>
    cases result with
    | error err => exact ⟨rfl, rfl⟩
    | ok y => exact ⟨rfl, rfl⟩

theorem record_inactive (h : ∀ s ∈ r.segments.getLast?, s.writer = none) (e : Entry) (w : World) :
    ∃ what, r.record e w = (.error (.notWritable what), w) := by
  unfold record
  cases hl : r.segments.getLast? with
  | none => exact ⟨_, rfl⟩
  | some s =>
    simp only [h s hl]
    exact ⟨_, rfl⟩

theorem isRecording_iff : r.isRecording = true ↔
    ∃ init s x, r.segments = init ++ [s] ∧ s.writer = some x := by
  unfold isRecording Segment.isActive
  rw [Option.any_eq_true]
  constructor
  · rintro ⟨s, hs, hw⟩
    obtain ⟨init, hinit⟩ := getLast?_segments.mp hs
    obtain ⟨x, hx⟩ := Option.isSome_iff_exists.mp hw
    exact ⟨init, s, x, hinit, hx⟩
  · rintro ⟨init, s, x, hinit, hx⟩
    exact ⟨s, getLast?_segments.mpr ⟨init, hinit⟩, Option.isSome_iff_exists.mpr ⟨x, hx⟩⟩

theorem idle_of_isRecording (h : r.isRecording ≠ true) :
    ∀ s ∈ r.segments.getLast?, s.writer = none := by
  intro s hs
  by_cases hw : s.writer = none
  · exact hw
  · obtain ⟨init, hinit⟩ := getLast?_segments.mp hs
    obtain ⟨x, hx⟩ := Option.ne_none_iff_exists'.mp hw
    exact absurd (isRecording_iff.mpr ⟨init, s, x, hinit, hx⟩) h

theorem record_eq_ok (h : r.record e w = (.ok r', w')) : ∃ init s x x', r.segments = init ++ [s] ∧
    s.writer = some x ∧ x.write e w = (.ok x', w') ∧
    r' = { r with segments := init ++ [{ s with
      writer := some x', stop := max s.stop e.timestamp }] } := by
  by_cases hr : r.isRecording = true
  · obtain ⟨init, s, x, hinit, hx⟩ := isRecording_iff.mp hr
    rw [record_active hinit hx] at h
    cases hw : x.write e w with
    | mk written w₁ =>
      rw [hw] at h
      cases written with
      | error err => cases h
      | ok x' =>
        cases h
        exact ⟨init, s, x, x', hinit, hx, hw, rfl⟩
  · obtain ⟨what, hw⟩ := record_inactive (idle_of_isRecording hr) e w
    rw [hw] at h
    cases h

theorem record_eq_error {err : Error} (h : r.record e w = (.error err, w')) : w' = w ∨
    ∃ init s x, r.segments = init ++ [s] ∧ s.writer = some x ∧
      x.write e w = (.error err, w') := by
  by_cases hr : r.isRecording = true
  · obtain ⟨init, s, x, hinit, hx⟩ := isRecording_iff.mp hr
    rw [record_active hinit hx] at h
    cases hw : x.write e w with
    | mk written w₁ =>
      rw [hw] at h
      cases written with
      | ok x' => cases h
      | error cause =>
        cases h
        exact .inr ⟨init, s, x, hinit, hx, hw⟩
  · obtain ⟨what, hw⟩ := record_inactive (idle_of_isRecording hr) e w
    rw [hw] at h
    cases h
    exact .inl rfl

theorem load_eq_ok {path : Path} {d : Disk} : load path d = .ok r ↔
    ∃ m, Manifest.load path d = .ok m ∧ r = ofManifest (baseOf path) m := by
  unfold load
  rw [bind_eq_ok]
  exact ⟨fun ⟨m, hm, h⟩ => ⟨m, hm, by cases h; rfl⟩, fun ⟨m, hm, h⟩ => ⟨m, hm, by rw [h]; rfl⟩⟩

/-! ## What is kept of the segments -/

section
variable {β : Type} {f : Segment → β}

theorem map_finishLast (hf : ∀ {s t : Segment}, s.SamePlace t → f t = f s) (r : Recording)
    (w : World) : (r.finishLast w).1.segments.map f = r.segments.map f := by
  rcases finishLast_cases r w with ⟨_, h⟩ | ⟨init, s, hr, h⟩
  · rw [h]
  · rw [h, hr, List.map_append, List.map_append, List.map_singleton, List.map_singleton,
      hf (s.finish_samePlace w)]

theorem map_finish (hf : ∀ {s t : Segment}, s.SamePlace t → f t = f s) (r : Recording)
    (w : World) : (r.finish w).1.segments.map f = r.segments.map f := by
  rcases r.finish_cases w with h | ⟨_, h⟩
  · rw [h]
  · rw [h]
    exact map_finishLast hf r w

theorem map_record (hf : ∀ {s t : Segment}, s.SamePlace t → f t = f s)
    (h : r.record e w = (.ok r', w')) : r'.segments.map f = r.segments.map f := by
  obtain ⟨init, s, x, x', hs, _, _, rfl⟩ := record_eq_ok h
  rw [hs, List.map_append, List.map_append, List.map_singleton, List.map_singleton]
  exact congrArg (init.map f ++ [·]) (hf ⟨rfl, rfl, rfl, rfl⟩)

theorem map_append (hf : ∀ {s t : Segment}, s.SamePlace t → f t = f s)
    (h : r.append path start w = (.ok r', w')) :
    ∃ x, r'.segments.map f = r.segments.map f ++ [f (r.opened path start x)] := by
  obtain ⟨_, x, w₁, _, rfl, _⟩ := append_eq_ok.mp h
  refine ⟨x, ?_⟩
  rw [List.map_append, List.map_singleton, map_finishLast hf r w₁]

end

/-! ## What the manifest decides -/

theorem manifest_eq (hx : r'.extension = r.extension) (hf : r'.finished = r.finished)
    (hi : r'.manifest.items = r.manifest.items) : r'.manifest = r.manifest := by
  unfold manifest at hi ⊢
  simp only at hi
  rw [hx, hf, hi]

theorem manifest_concat (r : Recording) (s : Segment) :
    manifest { r with segments := r.segments ++ [s] } =
      { r.manifest with items := r.manifest.items ++ [s.item] } := by
  unfold manifest
  simp only [List.map_append, List.map_singleton]
  rfl

/-- What can be appended is decided by what is stored of a recording. -/
theorem refusal?_congr (h : r'.manifest = r.manifest) : r'.refusal? = r.refusal? := by
  have hitems : r'.segments.map Segment.item = r.segments.map Segment.item :=
    congrArg Manifest.items h
  have hstart : r'.segments.getLast?.map (·.start) = r.segments.getLast?.map (·.start) := by
    have := congrArg (fun items => items.getLast?.map Manifest.Item.start) hitems
    simp only [List.getLast?_map, Option.map_map] at this
    exact this
  have hpath : ∀ path, r'.segments.any (·.path = path) = r.segments.any (·.path = path) :=
    fun path => by
      have := congrArg (List.any · fun item => decide (item.path = path)) hitems
      simp only [List.any_map] at this
      exact this
  have hfinished : r'.finished = r.finished := congrArg Manifest.finished h
  funext path start
  unfold refusal?
  rw [hfinished, hstart, hpath]

theorem store_same {v : World} {q : Path} (hm : r'.manifest = r.manifest) (hd : v.disk = w.disk)
    (hs : r.store q w = (.ok (), w')) : ∃ v', r'.store q v = (.ok (), v') ∧ v'.disk = w'.disk := by
  unfold store at hs ⊢
  rw [hm, hd]
  cases hst : r.manifest.store q w.disk with
  | mk result d =>
    rw [hst] at hs
    cases hs
    exact ⟨_, rfl, rfl⟩

/-! ## Every operation keeps a recording listed -/

theorem listed_empty {extension : String} (h : extension ≠ "") (base : Option Path) :
    (empty extension base).Listed :=
  ⟨h, Manifest.inOrder_nil, fun _ hs => absurd hs List.not_mem_nil,
    fun _ hs => absurd hs List.not_mem_nil⟩

theorem ofManifest_items (base : Option Path) (m : Manifest) :
    (ofManifest base m).manifest.items = m.items := by
  rw [manifest_items]
  simp [ofManifest, Function.comp_def, Segment.item]

theorem listed_ofManifest {m : Manifest} (h : m.fault? = none) (base : Option Path) :
    (ofManifest base m).Listed := by
  obtain ⟨_, hx, hi⟩ := Manifest.fault?_eq_none.mp h
  refine ⟨hx, ?_, fun s hs => ?_, fun s hs => ?_⟩
  · rw [ofManifest_items]
    exact hi
  · obtain ⟨item, _, rfl⟩ := List.mem_map.mp hs
    rfl
  · obtain ⟨item, _, rfl⟩ := List.mem_map.mp hs
    rfl

theorem inOrder_setLast (h : Manifest.InOrder r.manifest.items) (hr : r.segments = init ++ [s])
    (ht : s.SamePlace t) (hspan : t.start ≤ t.stop) :
    Manifest.InOrder (manifest { r with segments := init ++ [t] }).items := by
  rw [manifest_items, hr, List.map_append, List.map_singleton] at h
  obtain ⟨hinit, hnew⟩ := Manifest.inOrder_concat.mp h
  rw [manifest_items, List.map_append, List.map_singleton]
  refine Manifest.inOrder_concat.mpr ⟨hinit, Manifest.itemFault?_eq_none.mpr ⟨hspan, ?_⟩⟩
  simp only [Segment.item, ht.start, ht.path]
  exact (Manifest.itemFault?_eq_none.mp hnew).2

theorem Listed.setLast (h : r.Listed) (hr : r.segments = init ++ [s]) (ht : s.SamePlace t)
    (hspan : t.start ≤ t.stop) : Listed { r with segments := init ++ [t] } := by
  have hs : s ∈ r.segments := by rw [hr]; simp
  refine ⟨h.extension, inOrder_setLast h.inOrder hr ht hspan, fun u hu => ?_, fun u hu => ?_⟩
  · rcases List.mem_append.mp hu with hu | hu
    · exact h.file u (by rw [hr]; exact List.mem_append_left _ hu)
    · rw [List.mem_singleton.mp hu, ht.file, ht.path]
      exact h.file s hs
  · rcases List.mem_append.mp hu with hu | hu
    · exact h.index u (by rw [hr]; exact List.mem_append_left _ hu)
    · rw [List.mem_singleton.mp hu, ht.index, ht.file]
      exact h.index s hs

theorem Listed.span (h : r.Listed) (hs : s ∈ r.segments) : s.start ≤ s.stop :=
  h.inOrder.span ⟨s.path, s.start, s.stop⟩ (List.mem_map.mpr ⟨s, hs, rfl⟩)

theorem Listed.finishLast (h : r.Listed) (w : World) : (r.finishLast w).1.Listed := by
  rcases finishLast_cases r w with ⟨_, hf⟩ | ⟨init, s, hr, hf⟩
  · rw [hf]
    exact h
  · rw [hf]
    exact h.setLast hr (s.finish_samePlace w) (Segment.finish_span (h.span (by rw [hr]; simp)) w)

theorem inOrder_concat (h : Manifest.InOrder r.manifest.items)
    (hn : r.refusal? path start = none) (x : Index) : Manifest.InOrder
      (manifest { r with segments := r.segments ++ [r.opened path start x] }).items := by
  obtain ⟨_, hstart, hpath⟩ := refusal?_eq_none.mp hn
  rw [manifest_items, List.map_append, List.map_singleton, ← manifest_items]
  refine Manifest.inOrder_concat.mpr ⟨h, Manifest.itemFault?_eq_none.mpr
    ⟨UInt64.le_refl _, fun t ht => ?_, fun t ht => ?_⟩⟩
  · rw [manifest_items, Option.mem_def, List.getLast?_map] at ht
    obtain ⟨s, hs, rfl⟩ := Option.map_eq_some_iff.mp ht
    exact hstart s hs
  · obtain ⟨s, hs, rfl⟩ := List.mem_map.mp ht
    exact hpath s hs

theorem Listed.concat (h : r.Listed) (hn : r.refusal? path start = none) (x : Index) :
    Listed { r with segments := r.segments ++ [r.opened path start x] } := by
  refine ⟨h.extension, inOrder_concat h.inOrder hn x, fun s hs => ?_, fun s hs => ?_⟩
  · rcases List.mem_append.mp hs with hs | hs
    · exact h.file s hs
    · rw [List.mem_singleton.mp hs]; rfl
  · rcases List.mem_append.mp hs with hs | hs
    · exact h.index s hs
    · rw [List.mem_singleton.mp hs]; rfl

theorem Listed.append (h : r.Listed) (ha : r.append path start w = (.ok r', w')) : r'.Listed := by
  obtain ⟨hn, x, w₁, _, rfl, _⟩ := append_eq_ok.mp ha
  obtain ⟨_, _, _, hrefusal, hopened⟩ := finishLast_keeps r w₁
  rw [← hopened]
  exact (h.finishLast w₁).concat (hrefusal ▸ hn) x

theorem Listed.record (h : r.Listed) (hr : r.record e w = (.ok r', w')) : r'.Listed := by
  obtain ⟨init, s, x, x', hs, _, _, rfl⟩ := record_eq_ok hr
  have hspan : s.start ≤ s.stop := h.span (by rw [hs]; simp)
  exact h.setLast hs ⟨rfl, rfl, rfl, rfl⟩ (UInt64.le_trans hspan (left_le_max _ _))

theorem Listed.finish (h : r.Listed) (w : World) : (r.finish w).1.Listed := by
  unfold Recording.finish
  split
  · exact h
  · have hl := h.finishLast w
    exact ⟨hl.extension, hl.inOrder, hl.file, hl.index⟩

end

end Timeshift.Recording
