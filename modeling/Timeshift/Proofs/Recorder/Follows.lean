import Timeshift.Proofs.Disk.Directories
import Timeshift.Proofs.Disk.Replace
import Timeshift.Proofs.Recorder.Takes
import Timeshift.Proofs.Recording.Storing

/-!
# Recordings that follow takes

A recording follows the takes of a directory if it lists them in order and each of its segments has
the index with the samples of its take. The list of the recorder, one loaded at any time from its
manifest, and one that would be loaded now all do, and each operation keeps it so.
-/

namespace Timeshift.Recorder

def indexPlace (c : RecorderSettings) (directory : Name) (k : Nat) : Name :=
  directory ++ [(indexName c k).toList]

def manifestPlace (c : RecorderSettings) (directory : Name) : Name :=
  directory ++ [c.manifestName.toList]

def temporaryPlace (c : RecorderSettings) (directory : Name) : Name :=
  directory ++ [((⟨c.manifestName⟩ : Path).withExtension "tmp").text.toList]

def WritesAt (c : RecorderSettings) (directory : Name) (n : Name) : Prop :=
  (∃ k, n = indexPlace c directory k) ∨ n = temporaryPlace c directory

/-- The path of the directory as a loaded manifest has it. -/
def home (c : RecorderSettings) (dir : Path) : Path :=
  (dir.join ⟨c.manifestName⟩).parent?.getD ⟨""⟩

structure Follows (c : RecorderSettings) (dir : Path) (directory : Name) (d : Disk)
    (takes : List Take) (r : Recording) : Prop where
  listed : r.Listed
  extension : r.extension = c.indexExtension
  home : Path.Shortens (home c dir) r.directory
  lists : Lists c takes r.manifest.items
  indexed : ∀ (k : Nat) (s : Segment) (t : Take), r.segments[k]? = some s → takes[k]? = some t →
    ∃ i, s.Indexed d (indexPlace c directory k) i t.entries

section
variable {c : RecorderSettings} {dir : Path} {directory : Name} {d d' : Disk}
  {takes before : List Take} {t : Take} {r r' : Recording} {w w' : World} {e : Entry} {k : Nat}
  {s s' : Segment} {i : FileId} {init : List Segment}

theorem indexPlace_injective {j k : Nat} (h : indexPlace c directory j = indexPlace c directory k) :
    j = k := by
  exact indexName_injective (String.toList_inj.mp (List.append_singleton_inj.mp h).2)

theorem Lists.segment (h : Lists c takes r.manifest.items) (hs : r.segments[k]? = some s)
    (ht : takes[k]? = some t) : s.path.text = segmentName c k ∧ s.start = t.start := by
  refine h.get (s := s.item) ?_ ht
  rw [Recording.manifest_items, List.getElem?_map, hs]
  rfl

namespace Follows

theorem length_eq (h : Follows c dir directory d takes r) : r.segments.length = takes.length := by
  rw [← h.lists.length_eq, Recording.manifest_items, List.length_map]

theorem item (h : Follows c dir directory d takes r) (hs : r.segments[k]? = some s)
    (ht : takes[k]? = some t) : s.path.text = segmentName c k ∧ s.start = t.start :=
  h.lists.segment hs ht

theorem index_eq (hl : r.Listed) (hx : r.extension = c.indexExtension) (hs : s ∈ r.segments)
    (hp : s.path.text = segmentName c k) : s.index = r.directory.join ⟨indexName c k⟩ := by
  have hne : s.path.path.text ≠ "" := s.path.nonempty
  rw [hl.index s hs, hl.file s hs, Recording.fileOf_eq, Path.indexPath_join hne, hx]
  unfold Path.indexPath SegmentPath.path indexName
  rw [hp]

theorem frame (h : Follows c dir directory d takes r) (he : Disk.Extends d d')
    (hk : ∀ k i, k < takes.length → d.node? (indexPlace c directory k) = some (.file i) →
      d'.node? (indexPlace c directory k) = some (.file i) ∧ d'.content i = d.content i) :
    Follows c dir directory d' takes r := by
  refine ⟨h.listed, h.extension, h.home, h.lists, fun k s t hs ht => ?_⟩
  obtain ⟨i, hi⟩ := h.indexed k s t hs ht
  obtain ⟨hn, hc⟩ := hk k i (List.getElem?_eq_some_iff.mp ht).1 hi.node
  exact ⟨i, hi.frame he hn hc⟩

theorem frame_changesOnly (h : Follows c dir directory d takes r) (hc : d.ChangesOnly i d')
    (hk : ∀ k j, k < takes.length → d.node? (indexPlace c directory k) = some (.file j) →
      d'.content j = d.content j) : Follows c dir directory d' takes r := by
  refine h.frame hc.extends_ fun k j hlt hj => ⟨?_, hk k j hlt hj⟩
  rw [Disk.node?_congr hc.nodes]
  exact hj

theorem set (h : Follows c dir directory d takes r) (hk : k < r.segments.length)
    (hs : r.segments[k].SameButReader s)
    (hi : ∀ t, takes[k]? = some t → ∃ i, s.Indexed d (indexPlace c directory k) i t.entries) :
    Follows c dir directory d takes { r with segments := r.segments.set k s } := by
  have hitems : (r.segments.set k s).map Segment.item = r.segments.map Segment.item :=
    Recording.map_set (List.getElem?_eq_getElem hk) (by rw [hs]; rfl)
  have hmem := List.getElem_mem hk
  refine ⟨⟨h.listed.extension, ?_, fun u hu => ?_, fun u hu => ?_⟩, h.extension, h.home, ?_,
    fun j u t hu ht => ?_⟩
  · rw [Recording.manifest_items, hitems]
    exact h.listed.inOrder
  · rcases List.mem_or_eq_of_mem_set hu with hu | rfl
    · exact h.listed.file u hu
    · rw [hs.samePlace.file, hs.samePlace.path]
      exact h.listed.file _ hmem
  · rcases List.mem_or_eq_of_mem_set hu with hu | rfl
    · exact h.listed.index u hu
    · rw [hs.samePlace.index, hs.samePlace.file]
      exact h.listed.index _ hmem
  · rw [Recording.manifest_items, hitems]
    exact h.lists
  · by_cases hj : k = j
    · subst hj
      simp only [List.getElem?_set_self hk, Option.some.injEq] at hu
      exact hu ▸ hi t ht
    · simp only [List.getElem?_set_ne hj] at hu
      exact h.indexed j u t hu ht

/-! ## A sample of the last take -/

/-- The last segment and its take may be exchanged together. -/
theorem replaceLast (h : Follows c dir directory d (before ++ [t]) r)
    (hr : r.segments = init ++ [s]) (he : Disk.Extends d d')
    (hk : ∀ k j, k < before.length → d.node? (indexPlace c directory k) = some (.file j) →
      d'.node? (indexPlace c directory k) = some (.file j) ∧ d'.content j = d.content j)
    (hp : s.SamePlace s') (hspan : s'.start ≤ s'.stop) {t' : Take} (ht : t'.start = t.start)
    (hstop : t'.entries = [] → s'.stop = t'.start)
    (hi : s'.Indexed d' (indexPlace c directory before.length) i t'.entries) :
    Follows c dir directory d' (before ++ [t']) { r with segments := init ++ [s'] } := by
  have hlen : init.length = before.length := by
    have := h.length_eq
    rw [hr] at this
    simpa using this
  have hl := h.lists
  rw [Recording.manifest_items, hr, List.map_append, List.map_singleton] at hl
  refine ⟨h.listed.setLast hr hp hspan, h.extension, h.home, ?_, forall_concat
    (P := fun k u v => ∃ i, u.Indexed d' (indexPlace c directory k) i v.entries) hlen
    (fun k u v hu hv => ?_) ⟨i, hi⟩⟩
  · rw [Recording.manifest_items, List.map_append, List.map_singleton]
    obtain ⟨h₁, h₂, h₃, _⟩ := Lists.concat_iff.mp hl
    refine Lists.concat h₁ ?_ ?_ hstop
    · rw [← h₂]; exact congrArg SegmentPath.text hp.path
    · rw [ht, ← h₃]; exact hp.start
  · have hk' := (List.getElem?_eq_some_iff.mp hv).1
    rw [← List.getElem?_append_left (hlen ▸ hk' : k < init.length), ← hr] at hu
    rw [← List.getElem?_append_left hk'] at hv
    obtain ⟨j, hj⟩ := h.indexed k u v hu hv
    obtain ⟨hn, hc⟩ := hk k j hk' hj.node
    exact ⟨j, hj.frame he hn hc⟩

theorem grow (h : Follows c dir directory d (before ++ [t]) r) (hd : d.Sound)
    (hr : r.segments = init ++ [s])
    (hn : d.node? (indexPlace c directory before.length) = some (.file i))
    (hc : d.ChangesOnly i d') (hp : s.SamePlace s') (hspan : s'.start ≤ s'.stop)
    (hi : s'.Indexed d' (indexPlace c directory before.length) i (t.add e).entries) :
    Follows c dir directory d' (before ++ [t.add e]) { r with segments := init ++ [s'] } := by
  refine h.replaceLast hr hc.extends_ (fun k j hk hj => ?_) hp hspan rfl
    (fun he => absurd he (List.concat_ne_nil _ _)) hi
  have hne : j ≠ i := fun e =>
    Nat.ne_of_lt hk (indexPlace_injective (hd.one_name (e ▸ hj) hn))
  rw [Disk.node?_congr hc.nodes]
  exact ⟨hj, hc.content j hne⟩

theorem last (h : Follows c dir directory d takes r) (hr : r.segments = init ++ [s]) :
    ∃ before t i, takes = before ++ [t] ∧ init.length = before.length ∧
      s.Indexed d (indexPlace c directory before.length) i t.entries := by
  have hlen := h.length_eq
  rcases List.eq_nil_or_concat takes with rfl | ⟨before, t, rfl⟩
  · rw [hr] at hlen
    simp at hlen
  · rw [List.concat_eq_append] at h hlen ⊢
    have hlen' : init.length = before.length := by
      rw [hr] at hlen
      simpa using hlen
    obtain ⟨i, hi⟩ := h.indexed before.length s t
      (by rw [hr, ← hlen', List.getElem?_concat_length]) List.getElem?_concat_length
    exact ⟨before, t, i, rfl, hlen', hi⟩

theorem grow_idle (h : Follows c dir directory d (before ++ [t]) r) (hd : d.Sound)
    (hr : ∀ s ∈ r.segments, s.writer = none)
    (hn : d.node? (indexPlace c directory before.length) = some (.file i))
    (hc : d.ChangesOnly i d') (hcontent : d'.content i = Entry.encodeAll (t.add e).entries)
    (ho : Index.IsOrdered (t.add e).entries) :
    Follows c dir directory d' (before ++ [t.add e]) r := by
  rcases List.eq_nil_or_concat r.segments with hnil | ⟨init, s, hs⟩
  · have := h.length_eq
    rw [hnil] at this
    simp at this
  · rw [List.concat_eq_append] at hs
    obtain ⟨before', t', j, heq, _, hj⟩ := h.last hs
    obtain ⟨rfl, ht⟩ := List.append_inj' heq rfl
    cases ht
    have hji : j = i := by
      have := hj.node
      rw [hn] at this
      cases this
      rfl
    subst hji
    have hmem : s ∈ r.segments := by rw [hs]; simp
    have hspan : s.start ≤ s.stop := h.listed.span hmem
    have hi : s.Indexed d' (indexPlace c directory before.length) j (t.add e).entries :=
      ⟨hj.place.mono hc.extends_, by rw [Disk.node?_congr hc.nodes]; exact hn, hcontent, ho,
        fun x hx => (by rw [hr s hmem] at hx; cases hx), hj.reader⟩
    have := h.grow hd hs hn hc ⟨rfl, rfl, rfl, rfl⟩ hspan hi
    rwa [← hs] at this

theorem record_ok (h : Follows c dir directory w.disk takes r) (hd : w.disk.Sound)
    (hm : w.disk.FaithfulAt (WritesAt c directory)) (hr : r.record e w = (.ok r', w')) :
    ∃ before t i, takes = before ++ [t] ∧
      w.disk.node? (indexPlace c directory before.length) = some (.file i) ∧
      w.disk.ChangesOnly i w'.disk ∧
      w'.disk.content i = Entry.encodeAll (t.add e).entries ∧
      Index.IsOrdered (t.add e).entries ∧
      Follows c dir directory w'.disk (before ++ [t.add e]) r' := by
  obtain ⟨init, s, x, x', hs, hx, hwrite, rfl⟩ := Recording.record_eq_ok hr
  obtain ⟨before, t, i, rfl, _, hi⟩ := h.last hs
  obtain ⟨ha, htracks, hc, hcontent⟩ :=
    Index.write_ok (hi.writer x hx) hi.content (hm _ i (.inl ⟨_, rfl⟩) hi.node).exact hwrite
  have ho : Index.IsOrdered (t.add e).entries := Index.isOrdered_concat.mpr ⟨hi.ordered, ha⟩
  refine ⟨before, t, i, rfl, hi.node, hc, hcontent, ho, ?_⟩
  have hspan : s.start ≤ s.stop := h.listed.span (by rw [hs]; simp)
  refine h.grow hd hs hi.node hc ⟨rfl, rfl, rfl, rfl⟩
    (UInt64.le_trans hspan (left_le_max _ _)) ⟨hi.place.mono hc.extends_, ?_, hcontent, ho,
      fun y hy => ?_, hi.reader⟩
  · rw [Disk.node?_congr hc.nodes]
    exact hi.node
  · cases hy
    exact htracks

theorem record_error {err : Error} (h : Follows c dir directory w.disk takes r)
    (hm : w.disk.FaithfulAt (WritesAt c directory)) (hr : r.record e w = (.error err, w')) :
    ∃ i, w.disk.ChangesOnly i w'.disk ∧ w'.disk.content i = w.disk.content i := by
  rcases Recording.record_eq_error hr with rfl | ⟨init, s, x, hs, hx, hw⟩
  · exact ⟨0, .refl 0 _, rfl⟩
  · obtain ⟨before, t, i, rfl, _, hi⟩ := h.last hs
    obtain ⟨hc, hcontent⟩ :=
      Index.write_error (hi.writer x hx) hi.content (hm _ i (.inl ⟨_, rfl⟩) hi.node).exact hw
    exact ⟨i, hc, hcontent.trans hi.content.symm⟩

end Follows

end

end Timeshift.Recorder
