import Timeshift.Proofs.Disk.Directories
import Timeshift.Proofs.Recording.Making

/-!
# Sealed segments

What is recorded goes to the last segment alone, so a segment that is no longer recorded keeps its
place, its times and its index file, as long as the index paths of the others lead elsewhere.
Whether they do is a matter of the disk; that the segment paths are different texts is not enough.
-/

namespace Timeshift

namespace Disk

def Separate (d : Disk) (p q : Path) : Prop := ∀ n, d.LeadsTo p n → ¬ d.LeadsTo q n

section
variable {d d' : Disk} {p q : Path} {i j : FileId} {x y : List Char}

theorem Separate.congr (h : d.Separate p q) (hd : SameWays d d') : d'.Separate p q := by
  intro n hp hq
  exact h n (hp.mono hd.back) (hq.mono hd.back)

theorem Separate.file_ne (h : d.Separate p q) (hs : d.Sound) (hp : d.lookUp p = .ok (.file i))
    (hq : d.lookUp q = .ok (.file j)) : j ≠ i := by
  obtain ⟨m, hm, hmi⟩ := lookUp_eq_file.mp hp
  obtain ⟨n, hn, hnj⟩ := lookUp_eq_file.mp hq
  intro hji
  rw [hji] at hnj
  apply h m hm
  rw [hs.one_name hmi hnj]
  exact hn

/-- Different names in one directory have no place in common. -/
theorem separate_names (hx : Path.IsName x) (hy : Path.IsName y) (hxy : x ≠ y) (d : Disk)
    (p : Path) : d.Separate (p.join ⟨String.ofList x⟩) (p.join ⟨String.ofList y⟩) := by
  intro n hp hq
  obtain ⟨_, _, _, a, _, hna⟩ := (leadsTo_join_name hx).mp hp
  obtain ⟨_, _, _, b, _, hnb⟩ := (leadsTo_join_name hy).mp hq
  rw [hna] at hnb
  exact hxy (List.cons.inj (List.append_inj_right' hnb rfl)).1

end

end Disk

namespace Index

theorem content_openRecord {w : World} {path p : Path} {i : FileId} (hs : w.disk.Sound)
    (hp : w.disk.lookUp p = .ok (.file i)) (hsep : w.disk.Separate p path) :
    (openRecord path w).2.disk.content i = w.disk.content i := by
  have hkeeps := keepsFiles_openRecord path w
  have hsound := sound_openRecord hs path
  have hways := sameWays_openRecord path w
  cases h : openRecord path w with
  | mk result w' =>
    rw [h] at hkeeps hsound hways
    cases result with
    | ok x =>
      obtain ⟨j, d, hcreate, _, _, hchange, _⟩ := openRecord_ok h
      have hj : w'.disk.lookUp path = .ok (.file j) := by
        rw [hchange.lookUp_eq]
        exact Disk.lookUp_openCreate hcreate
      have hne := (hsep.congr hways).file_ne hsound (hkeeps p i hp) hj
      rw [hchange.content i (Ne.symm hne)]
      exact (Disk.openCreate_other hs hcreate hp).1
    | error err =>
      rcases openRecord_error h with hd | ⟨j, hj, hchange, _⟩
      · rw [hd]
      · exact hchange.content i (Ne.symm (hsep.file_ne hs hp hj))

end Index

namespace Segment

section
variable {s : Segment} {d d' : Disk} {i : FileId}

/-- The entries of a segment hang on its index file alone. -/
theorem Attached.entries_congr (h : s.Attached d) (hl : d.lookUp s.index = .ok (.file i))
    (hl' : d'.lookUp s.index = .ok (.file i)) (hc : d'.content i = d.content i) :
    (s.entries d').1 = (s.entries d).1 := by
  have hopen : Index.openPlayback s.index d' = Index.openPlayback s.index d := by
    unfold Index.openPlayback
    rw [Disk.openRead_eq_ok.mpr hl', Disk.openRead_eq_ok.mpr hl]
    simp only [mapError_ok, ok_bind, hc]
  have hhandle : s.handle d' = s.handle d := by
    unfold Segment.handle
    rw [hopen]
  unfold Segment.entries
  rw [query_fst, query_fst, hhandle]
  cases hh : s.handle d with
  | error e => rfl
  | ok x => simp only [ok_bind, Index.entries, Index.bytes, h.handle_file hl hh, hc]

end

end Segment

namespace Recording

section
variable {r₀ r r' : Recording} {w w' : World} {o : Operation} {s t : Segment} {k j : Nat}
  {i : FileId} {path : SegmentPath} {start : UInt64} {e : Entry} {d : Disk} {extension : String}

/-! ## The place and the times of a sealed segment -/

/-- The segment `s` is at the place `k`, and what is recorded from now on is not recorded there. -/
structure SealedAt (k : Nat) (s : Segment) (r : Recording) : Prop where
  segment : r.segments[k]? = some s
  idle : s.writer = none
  behind : r.finished = true ∨ k + 1 < r.segments.length

theorem getElem?_init {init : List Segment} (hr : r.segments = init ++ [t])
    (hk : k + 1 < r.segments.length) (t' : Segment) :
    (init ++ [t'])[k]? = r.segments[k]? := by
  have hlt : k < init.length := by
    rw [hr, List.length_append] at hk
    exact Nat.lt_of_succ_lt_succ hk
  rw [hr, List.getElem?_append_left hlt, List.getElem?_append_left hlt]

theorem SealedAt.finishLast (h : SealedAt k s r) (hf : r.finished = false) (w : World) :
    SealedAt k s (r.finishLast w).1 := by
  have hk := h.behind.resolve_left (by rw [hf]; exact Bool.false_ne_true)
  have hlength := length_finishLast r w
  refine ⟨?_, h.idle, .inr (hlength ▸ hk)⟩
  rcases finishLast_cases r w with ⟨_, hl⟩ | ⟨init, t, hr, hl⟩
  · rw [hl]
    exact h.segment
  · rw [hl]
    exact (getElem?_init hr hk _).trans h.segment

theorem SealedAt.append (h : SealedAt k s r) (ha : r.append path start w = (.ok r', w')) :
    SealedAt k s r' := by
  obtain ⟨hn, x, w₁, _, hr', _⟩ := append_eq_ok.mp ha
  have hlast := h.finishLast (refusal?_eq_none.mp hn).1 w₁
  have hlt := (List.getElem?_eq_some_iff.mp hlast.segment).1
  rw [hr']
  refine ⟨?_, h.idle, .inr ?_⟩
  · rw [List.getElem?_append_left hlt]
    exact hlast.segment
  · rw [List.length_append]
    exact Nat.succ_lt_succ hlt

theorem SealedAt.record (h : SealedAt k s r) (hrep : Represented r₀ r)
    (hr : r.record e w = (.ok r', w')) : SealedAt k s r' := by
  obtain ⟨init, t, x, x', hs, hx, _, hr'⟩ := record_eq_ok hr
  -- a recording that is finished has no writer
  have hf := ((hrep.segment init.length t (by simp [hs])).writer x hx).2.1
  have hk := h.behind.resolve_left (by rw [hf]; exact Bool.false_ne_true)
  rw [hr']
  refine ⟨(getElem?_init hs hk _).trans h.segment, h.idle, .inr ?_⟩
  rw [hs, List.length_append] at hk
  rw [List.length_append]
  exact hk

theorem SealedAt.finish (h : SealedAt k s r) (w : World) : SealedAt k s (r.finish w).1 := by
  rcases r.finish_cases w with hw | ⟨hf, hw⟩
  · rw [hw]
    exact h
  · rw [hw]
    exact ⟨(h.finishLast hf w).segment, h.idle, .inl rfl⟩

theorem SealedAt.perform (h : SealedAt k s r) (hrep : Represented r₀ r) (ho : o.Records)
    (w : World) : SealedAt k s (r.perform w o).1 := by
  rcases recording_perform ho r w with hr | ⟨path, start, w', rfl, ha⟩ | ⟨e, w', hr⟩ | hr
  · rw [hr]
    exact h
  · exact h.append ha
  · exact h.record hrep hr
  · rw [hr]
    exact h.finish w

theorem SealedAt.performAll {os : List Operation} (h : SealedAt k s r)
    (hr : Went (empty extension none) r w) (hos : ∀ o ∈ os, o.Records) :
    SealedAt k s (r.performAll w os).1 := by
  refine (performAll_keeps (P := fun r w => Went (empty extension none) r w ∧ SealedAt k s r)
    ⟨hr, h⟩ ?_).2
  intro o ho r w ⟨hr, h⟩
  have hrep := (represented_empty extension none).came hr.came
  exact ⟨hr.records (hos o ho), h.perform hrep (hos o ho) w⟩

/-- A segment of a new recording that is not recorded any more is not the last, or the recording is
finished. -/
theorem Went.sealedAt (hr : Went (empty extension none) r w) (hs : r.segments[k]? = some s)
    (hidle : s.writer = none) : SealedAt k s r := by
  refine ⟨hs, hidle, hr.ongoing.imp_right fun hlast => ?_⟩
  have hk := (List.getElem?_eq_some_iff.mp hs).1
  apply Nat.lt_of_le_of_ne hk
  intro heq
  have hget : r.segments.getLast? = some s := by
    rw [List.getLast?_eq_getElem?, ← heq]
    exact hs
  exact hlast s hget hidle

/-! ## Its file -/

/-- The index of the segment is the file `i`, and no other index path of the recording leads to
it. -/
structure Sealed (k : Nat) (s : Segment) (i : FileId) (r : Recording) (d : Disk) : Prop
    extends SealedAt k s r where
  file : d.lookUp s.index = .ok (.file i)
  others : ∀ j p, j ≠ k → r.indexes[j]? = some p → d.Separate s.index p

theorem getElem?_indexes (hs : r.segments[j]? = some t) : r.indexes[j]? = some t.index := by
  unfold indexes
  rw [List.getElem?_map, hs]
  rfl

/-- The one that is recorded is another segment, and what it has open is another file. -/
theorem Sealed.writer_ne {init : List Segment} {x : Index} (h : Sealed k s i r d) (hd : d.Sound)
    (ha : r.Attached d) (hr : r.segments = init ++ [t]) (hx : t.writer = some x)
    (hf : x.file = some j) : j ≠ i := by
  have ht : r.segments[init.length]? = some t := by simp [hr]
  have hne : init.length ≠ k := by
    intro heq
    have hst := h.segment
    rw [← heq, ht, Option.some.injEq] at hst
    rw [hst, h.idle] at hx
    cases hx
  obtain ⟨i', hi', hlook⟩ := ha t (List.mem_of_getElem? ht) x (.inl hx)
  rw [hf, Option.some.injEq] at hi'
  rw [← hi'] at hlook
  exact (h.others _ _ hne (getElem?_indexes ht)).file_ne hd h.file hlook

theorem Sealed.perform (h : Sealed k s i r w.disk) (hr : Went (empty extension none) r w)
    (hd : w.disk.Sound) (ho : o.Records)
    (hsep : ∀ path start, o = .append path start → path ≠ s.path →
      w.disk.Separate s.index (r.indexOf path)) :
    Sealed k s i (r.perform w o).1 (r.perform w o).2.disk ∧
      (r.perform w o).2.disk.content i = w.disk.content i := by
  have hrep := (represented_empty extension none).came hr.came
  have hways := sameWays_perform ho r w
  have hnew : ∀ path start, o = .append path start → r.refusal? path start = none →
      w.disk.Separate s.index (r.indexOf path) := by
    intro path start heq hn
    apply hsep path start heq
    exact ((refusal?_eq_none.mp hn).2.2 s (List.mem_of_getElem? h.segment)).symm
  refine ⟨⟨h.toSealedAt.perform hrep ho w, keepsFiles_perform ho r w _ _ h.file, ?_⟩, ?_⟩
  · intro j p hj hp
    rcases indexes_perform ho r w with hx | ⟨path, start, heq, hn, hx⟩
    · rw [hx] at hp
      exact (h.others j p hj hp).congr hways
    · rw [hx] at hp
      by_cases hlt : j < r.indexes.length
      · rw [List.getElem?_append_left hlt] at hp
        exact (h.others j p hj hp).congr hways
      · rw [List.getElem?_append_right (Nat.not_lt.mp hlt)] at hp
        rw [List.mem_singleton.mp (List.mem_of_getElem? hp)]
        exact (hnew path start heq hn).congr hways
  · rcases disk_perform ho r w with hsame | ⟨path, start, heq, hn, hopen⟩ |
      ⟨init, t, x, j, hinit, hx, hf, hchange⟩
    · rw [hsame]
    · rw [hopen]
      exact Index.content_openRecord hd h.file (hnew path start heq hn)
    · -- the sample goes through the writer of another segment, which is open on another file
      have hne := h.writer_ne hd (hr.attached (.inl ⟨extension, rfl⟩)) hinit hx hf
      exact hchange.content i hne.symm

theorem Sealed.performAll {os : List Operation} (h : Sealed k s i r w.disk)
    (hr : Went (empty extension none) r w) (hd : w.disk.Sound) (hos : ∀ o ∈ os, o.Records)
    (hsep : ∀ path start, .append path start ∈ os → path ≠ s.path →
      w.disk.Separate s.index (r.indexOf path)) :
    Sealed k s i (r.performAll w os).1 (r.performAll w os).2.disk ∧
      (r.performAll w os).2.disk.Sound ∧
      (r.performAll w os).2.disk.content i = w.disk.content i := by
  -- the index paths and the ways on the disk stay, so what is kept apart in the beginning stays so
  let Kept (r' : Recording) (w' : World) : Prop :=
    Sealed k s i r' w'.disk ∧ Went (empty extension none) r' w' ∧ w'.disk.Sound ∧
      w'.disk.content i = w.disk.content i ∧ r'.indexOf = r.indexOf ∧ w.disk.SameWays w'.disk
  have hkept : Kept (r.performAll w os).1 (r.performAll w os).2 := by
    refine performAll_keeps (P := Kept) ⟨h, hr, hd, rfl, rfl, .refl _⟩ ?_
    intro o ho r' w' ⟨h', hr', hd', hcontent, hindex, hways⟩
    have hrecords := hos o ho
    obtain ⟨hnext, hsame⟩ := h'.perform hr' hd' hrecords fun path start heq hne => by
      rw [hindex]
      exact (hsep path start (heq ▸ ho) hne).congr hways
    exact ⟨hnext, hr'.records hrecords, sound_perform hd' hrecords r', hsame.trans hcontent,
      (indexOf_perform hrecords r' w').trans hindex, hways.trans (sameWays_perform hrecords r' w')⟩
  exact ⟨hkept.1, hkept.2.2.1, hkept.2.2.2.1⟩

def Mentions (r : Recording) (os : List Operation) (path : SegmentPath) : Prop :=
  (∃ t ∈ r.segments, t.path = path) ∨ ∃ start, .append path start ∈ os

theorem indexOf_eq (r : Recording) (path : SegmentPath) : r.indexOf path =
    r.directory.join ⟨String.ofList (path.text ++ "." ++ r.extension).toList⟩ := by
  unfold indexOf
  rw [fileOf_eq, Path.indexPath_join path.nonempty, String.ofList_toList]
  rfl

/-- Among plain file names, different texts are enough. -/
theorem separate_plain {q : SegmentPath} (hx : '/' ∉ r.extension.toList)
    (hpath : '/' ∉ path.text.toList) (hq : '/' ∉ q.text.toList) (hne : path ≠ q) (d : Disk) :
    d.Separate (r.indexOf path) (r.indexOf q) := by
  have hname : ∀ q : SegmentPath, '/' ∉ q.text.toList →
      Path.IsName (q.text ++ "." ++ r.extension).toList := by
    intro q hq
    have hpos := List.length_pos_iff.mpr (mt String.toList_eq_nil_iff.mp q.nonempty)
    refine Path.isName_of_length ?_ ?_
    · simp only [String.toList_append, List.mem_append, not_or]
      exact ⟨⟨hq, by decide⟩, hx⟩
    · simp only [String.toList_append, List.length_append]
      have hdot : ".".toList.length = 1 := rfl
      omega
  rw [indexOf_eq, indexOf_eq]
  refine Disk.separate_names (hname path hpath) (hname q hq) ?_ d _
  intro heq
  simp only [String.toList_append, List.append_assoc] at heq
  have hlist : path.text.toList = q.text.toList := List.append_cancel_right heq
  exact hne (SegmentPath.ext_text (String.toList_inj.mp hlist))

theorem Represented.path_ne (h : Represented r₀ r) (hj : r.segments[j]? = some t)
    (hk : r.segments[k]? = some s) (hne : j ≠ k) : t.path ≠ s.path := by
  have hdistinct := h.inOrder.distinct
  rw [manifest_items, List.pairwise_map, List.pairwise_iff_getElem] at hdistinct
  obtain ⟨hlt, rfl⟩ := List.getElem?_eq_some_iff.mp hj
  obtain ⟨hlt', rfl⟩ := List.getElem?_eq_some_iff.mp hk
  rcases Nat.lt_or_gt_of_ne hne with h | h
  · exact hdistinct j k hlt hlt' h
  · exact (hdistinct k j hlt' hlt h).symm

theorem Went.sealed {os : List Operation} (hr : Went (empty extension none) r w)
    (hs : r.segments[k]? = some s) (hidle : s.writer = none)
    (hown : ∀ path, r.Mentions os path → path ≠ s.path →
      w.disk.Separate s.index (r.indexOf path)) : ∃ i, Sealed k s i r w.disk := by
  have hrep := (represented_empty extension none).came hr.came
  obtain ⟨i, hi⟩ := hr.hasFiles s.index (mem_indexes (List.mem_of_getElem? hs))
  refine ⟨i, hr.sealedAt hs hidle, hi, ?_⟩
  intro j p hj hp
  unfold indexes at hp
  rw [List.getElem?_map] at hp
  obtain ⟨t, ht, htp⟩ := Option.map_eq_some_iff.mp hp
  rw [← htp, hr.index_eq ht]
  exact hown t.path (.inl ⟨t, List.mem_of_getElem? ht, rfl⟩) (hrep.path_ne ht hs hj)

/-- Whatever is appended and recorded after a segment was sealed, the segment stays as it is. Its
index file does too if no other segment's index path leads there; and among plain file names none
does. -/
theorem sealed_unchanged {os : List Operation} (hr : Went (empty extension none) r w)
    (hd : w.disk.Sound) (hs : r.segments[k]? = some s) (hidle : s.writer = none)
    (hos : ∀ o ∈ os, o.Records) :
    let after := r.performAll w os
    after.1.segments[k]? = some s ∧
    ((∀ path, r.Mentions os path → path ≠ s.path →
        w.disk.Separate s.index (r.indexOf path)) →
      ∃ i, w.disk.lookUp s.index = .ok (.file i) ∧ after.2.disk.lookUp s.index = .ok (.file i) ∧
        after.2.disk.content i = w.disk.content i ∧
        (s.entries after.2.disk).1 = (s.entries w.disk).1 ∧
        ∀ j t, j ≠ k → after.1.segments[j]? = some t →
          after.2.disk.lookUp t.index ≠ .ok (.file i)) ∧
    ((∀ path, r.Mentions os path → '/' ∉ path.text.toList) → '/' ∉ r.extension.toList →
      ∀ path, r.Mentions os path → path ≠ s.path →
        w.disk.Separate s.index (r.indexOf path)) := by
  intro after
  refine ⟨((hr.sealedAt hs hidle).performAll hr hos).segment, ?_, ?_⟩
  · intro hown
    obtain ⟨i, hsealed⟩ := hr.sealed hs hidle hown
    obtain ⟨hlast, hsound, hcontent⟩ := hsealed.performAll hr hd hos fun path start hmem =>
      hown path (.inr ⟨start, hmem⟩)
    have hattached := hr.attached (.inl ⟨extension, rfl⟩) s (List.mem_of_getElem? hs)
    refine ⟨i, hsealed.file, hlast.file, hcontent,
      hattached.entries_congr hsealed.file hlast.file hcontent, ?_⟩
    intro j t hj ht hfile
    have hsep := hlast.others j t.index hj (getElem?_indexes ht)
    exact hsep.file_ne hsound hlast.file hfile rfl
  · intro hplain hx path hpath hne
    rw [hr.index_eq hs]
    have hmem := List.mem_of_getElem? hs
    exact separate_plain hx (hplain s.path (.inl ⟨s, hmem, rfl⟩)) (hplain path hpath) hne.symm _

end

def dottedName : SegmentPath := ⟨"./a.ts", by decide, by decide⟩
def thirdName : SegmentPath := ⟨"c.ts", by decide, by decide⟩

def doubled : Recording × World := (empty "idx" none).performAll plainWorld
  [.append firstName 10, .record ⟨12, 7⟩, .append dottedName 20]

/-- Both segments have one index, and a sample of the second comes to the first, which was
sealed. -/
theorem sealed_changed : Went (empty "idx" none) doubled.1 doubled.2 ∧
    ∃ s t i, doubled.1.segments[0]? = some s ∧ doubled.1.segments[1]? = some t ∧
      s.writer = none ∧ doubled.2.disk.lookUp s.index = .ok (.file i) ∧
      doubled.2.disk.lookUp t.index = .ok (.file i) ∧
      let (result, after) := doubled.1.record ⟨25, 9⟩ doubled.2
      result.isOk = true ∧ after.disk.content i ≠ doubled.2.disk.content i ∧
        (s.entries after.disk).1 ≠ (s.entries doubled.2.disk).1 := by
  constructor
  · refine (Went.start plainWorld).performAll ?_
    intro o ho
    simp only [List.mem_cons, List.not_mem_nil, or_false] at ho
    rcases ho with rfl | rfl | rfl <;> trivial
  · refine ⟨_, _, 2, List.getElem?_eq_getElem (by decide +kernel),
      List.getElem?_eq_getElem (by decide +kernel), ?_, ?_, ?_, ?_, ?_, ?_⟩
    · decide +kernel
    · decide +kernel
    · decide +kernel
    · decide +kernel
    · decide +kernel
    · decide +kernel

def later : List Operation := [.record ⟨25, 9⟩, .append thirdName 30, .finish]

theorem later_records : ∀ o ∈ later, o.Records := by decide

theorem sound_rotated : rotated.2.disk.Sound := by
  have hrotated : rotated = (empty "idx" none).performAll plainWorld
    [.append firstName 10, .record ⟨12, 7⟩, .append secondName 20] := rfl
  rw [hrotated]
  exact sound_performAll (Disk.sound_blank _) (by decide)

theorem sealed_unchanged_rotated : ∃ s i, rotated.1.segments[0]? = some s ∧ s.writer = none ∧
    (rotated.1.performAll rotated.2 later).1.segments[0]? = some s ∧
    rotated.2.disk.lookUp s.index = .ok (.file i) ∧
    (rotated.1.performAll rotated.2 later).2.disk.content i = rotated.2.disk.content i ∧
    (s.entries (rotated.1.performAll rotated.2 later).2.disk).1 = (s.entries rotated.2.disk).1 := by
  obtain ⟨s, hs, hidle⟩ : ∃ s, rotated.1.segments[0]? = some s ∧ s.writer = none :=
    ⟨_, List.getElem?_eq_getElem (by decide +kernel), by decide +kernel⟩
  obtain ⟨hsegment, hfile, hplain⟩ :=
    sealed_unchanged went_rotated sound_rotated hs hidle later_records
  have hown := hplain ?_ (by decide +kernel)
  · obtain ⟨i, hi, _, hcontent, hentries, _⟩ := hfile hown
    exact ⟨s, i, hs, hidle, hsegment, hi, hcontent, hentries⟩
  · have hnames : ∀ t ∈ rotated.1.segments, '/' ∉ t.path.text.toList := by decide +kernel
    intro path hpath
    rcases hpath with ⟨t, ht, htp⟩ | ⟨start, hmem⟩
    · rw [← htp]
      exact hnames t ht
    · simp only [later, List.mem_cons, List.not_mem_nil, or_false, reduceCtorEq, false_or,
        Operation.append.injEq] at hmem
      rw [hmem.1]
      decide +kernel

end Recording

end Timeshift
