import Timeshift.Proofs.Recorder.Takes
import Timeshift.Proofs.Recording.Flat

/-!
# What becomes of the samples

A new recording that is fed segments and samples keeps each accepted sample in the index of its
segment, as long as a write that failed can be undone. A lookup looks only at the last segment that
starts at or before the time; so it finds a sample of the very time if and only if that segment has
one.
-/

namespace Timeshift.Recording

open Recorder (note note_concat forall_concat forall_split)

/-- Segments and samples fed to `r₀` brought it to `r`, and those that were accepted are `takes`. In
between the storage may begin or cease to fail. -/
inductive Fed (r₀ : Recording) (w₀ : World) : List Take → Recording → World → Prop
  | start : Fed r₀ w₀ [] r₀ w₀
  | appended {takes : List Take} {r r' : Recording} {w w' : World} {path : SegmentPath}
      {start : UInt64} : Fed r₀ w₀ takes r w → r.append path start w = (.ok r', w') →
      Fed r₀ w₀ (takes ++ [⟨start, []⟩]) r' w'
  | notAppended {takes : List Take} {r : Recording} {w w' : World} {path : SegmentPath}
      {start : UInt64} {err : Error} : Fed r₀ w₀ takes r w →
      r.append path start w = (.error err, w') → Fed r₀ w₀ takes r w'
  | recorded {takes : List Take} {r r' : Recording} {w w' : World} {e : Entry} :
      Fed r₀ w₀ takes r w → r.record e w = (.ok r', w') → Fed r₀ w₀ (note e takes) r' w'
  | notRecorded {takes : List Take} {r : Recording} {w w' : World} {e : Entry} {err : Error} :
      Fed r₀ w₀ takes r w → r.record e w = (.error err, w') → Fed r₀ w₀ takes r w'
  | storage {takes : List Take} {r : Recording} {w w' : World} : Fed r₀ w₀ takes r w →
      w.disk.ChangesMedia Medium.Exact w'.disk → Fed r₀ w₀ takes r w'

def Reaches (r : Recording) (d : Disk) (time : UInt64) : Prop :=
  ∃ s e, (r.lookUp time d).1 = .ok (s, e.offset) ∧ Entry.latest? (row d s) time = some e ∧
    e.timestamp = time

def Apart (d : Disk) (paths : List Path) : Prop :=
  paths.Pairwise fun p q => ∀ i, d.lookUp p = .ok (.file i) → d.lookUp q ≠ .ok (.file i)

def indexes (r : Recording) : List Path := r.segments.map (·.index)

structure Adds (n : Name) (i : FileId) (d d' : Disk) : Prop where
  here : d'.here = d.here
  vacant : d.node? n = none
  node? : ∀ m, d'.node? m = if m = n then some (.file i) else d.node? m
  content : d'.content i = []
  medium : d'.medium i = .regular
  other : ∀ j, j ≠ i → d'.content j = d.content j ∧ d'.medium j = d.medium j

structure InStep (takes : List Take) (r : Recording) (d : Disk) : Prop where
  starts : r.segments.map (·.start) = takes.map (·.start)
  indexed : ∀ (k : Nat) (s : Segment) (t : Take), r.segments[k]? = some s → takes[k]? = some t →
    ∃ n i, s.Indexed d n i t.entries ∧ (d.medium i).Exact

structure Feeds (d₀ : Disk) (takes : List Take) (r : Recording) (d : Disk) : Prop
    extends InStep takes r d where
  made : ∀ n i, d.node? n = some (.file i) →
    d₀.node? n = some (.file i) ∨ ∃ s ∈ r.segments, d.LeadsTo s.index n
  directories : Disk.Extends d d₀

section
variable {r₀ r r' : Recording} {w₀ w w' : World} {takes before : List Take} {t : Take}
  {s : Segment} {d d' d₀ : Disk} {path : SegmentPath} {start time : UInt64} {e : Entry} {k : Nat}
  {init : List Segment}

theorem Fed.came (h : Fed r₀ w₀ takes r w) : Came r₀ r := by
  induction h with
  | start => exact .start
  | @appended _ r _ w _ path start _ ha ih =>
    have := ih.performed (.append path start) w
    simpa only [perform, ha, kept] using this
  | notAppended _ _ ih => exact ih
  | @recorded _ r _ w _ e _ hr ih =>
    have := ih.performed (.record e) w
    simpa only [perform, hr, kept] using this
  | notRecorded _ _ ih => exact ih
  | storage _ _ ih => exact ih

/-! ## Segments and takes in step -/

namespace InStep

theorem length_eq (h : InStep takes r d) : r.segments.length = takes.length := by
  have := congrArg List.length h.starts
  simpa using this

theorem get (h : InStep takes r d) (hs : r.segments[k]? = some s) :
    ∃ t, takes[k]? = some t ∧ s.start = t.start ∧
      ∃ n i, s.Indexed d n i t.entries ∧ (d.medium i).Exact := by
  have hk := (List.getElem?_eq_some_iff.mp hs).1
  rw [h.length_eq] at hk
  have ht := List.getElem?_eq_getElem hk
  refine ⟨_, ht, ?_, h.indexed k s _ hs ht⟩
  have := congrArg (·[k]?) h.starts
  simpa [hs, ht] using this

theorem frame (h : InStep takes r d) (he : Disk.Extends d d')
    (hk : ∀ s ∈ r.segments, ∀ n i es, s.Indexed d n i es → d'.node? n = some (.file i) ∧
      d'.content i = d.content i ∧ ((d.medium i).Exact → (d'.medium i).Exact)) :
    InStep takes r d' := by
  refine ⟨h.starts, ?_⟩
  intro k s t hs ht
  obtain ⟨n, i, hi, hm⟩ := h.indexed k s t hs ht
  obtain ⟨hn, hc, hm'⟩ := hk s (List.mem_of_getElem? hs) n i t.entries hi
  exact ⟨n, i, hi.frame he hn hc, hm' hm⟩

theorem split (h : InStep takes r d) (hr : r.segments = init ++ [s]) :
    ∃ before t, takes = before ++ [t] ∧ init.length = before.length ∧ InStep before
      { r with segments := init } d ∧ s.start = t.start ∧
      ∃ n i, s.Indexed d n i t.entries ∧ (d.medium i).Exact := by
  have hlen := h.length_eq
  have hindexed := h.indexed
  have hstarts := h.starts
  rw [hr] at hlen hindexed hstarts
  obtain ⟨before, t, rfl, hlen', hbefore, hlast⟩ := forall_split hlen hindexed
  rw [List.map_append, List.map_append] at hstarts
  obtain ⟨hinit, hstart⟩ := List.append_inj hstarts (by simpa using hlen')
  exact ⟨before, t, rfl, hlen', ⟨hinit, hbefore⟩, List.head_eq_of_cons_eq hstart, hlast⟩

theorem concat {init : List Segment} (h : InStep before { r with segments := init } d)
    (hstart : s.start = t.start) {n : Name} {i : FileId} (hi : s.Indexed d n i t.entries)
    (hm : (d.medium i).Exact) :
    InStep (before ++ [t]) { r with segments := init ++ [s] } d := by
  refine ⟨?_, ?_⟩
  · have := h.starts
    simp only [List.map_append, List.map_singleton, hstart]
    rw [this]
  · exact forall_concat (P := fun _ u v => ∃ n i, Segment.Indexed u d n i v.entries ∧
      (d.medium i).Exact) h.length_eq h.indexed ⟨n, i, hi, hm⟩

theorem finishLast (h : InStep takes r w.disk) : InStep takes (r.finishLast w).1 w.disk := by
  rcases finishLast_cases r w with ⟨_, hf⟩ | ⟨init, s, hr, hf⟩
  · rw [hf]
    exact h
  · rw [hf]
    obtain ⟨before, t, rfl, _, hinit, hstart, n, i, hi, hm⟩ := h.split hr
    exact hinit.concat ((s.finish_samePlace w).start.trans hstart) hi.finish.2.2 hm

end InStep

/-! ## What each step keeps -/

theorem Apart.back {ps qs : List Path} (h : Apart d' qs) (hk : d.KeepsFiles d')
    (hs : ps.Sublist qs) : Apart d ps := by
  refine (h.sublist hs).imp ?_
  intro p q hpq i hp hq
  exact hpq i (hk p i hp) (hk q i hq)

theorem Apart.concat_ne {ps : List Path} {p q : Path} {i : FileId} (h : Apart d (ps ++ [q]))
    (hp : p ∈ ps) (hi : d.lookUp p = .ok (.file i)) : d.lookUp q ≠ .ok (.file i) :=
  (List.pairwise_append.mp h).2.2 p hp q (List.mem_singleton_self q) i hi

theorem mem_indexes (hs : s ∈ r.segments) : s.index ∈ r.indexes := List.mem_map_of_mem hs

theorem indexes_record (h : r.record e w = (.ok r', w')) : r'.indexes = r.indexes :=
  map_record (fun h => h.index) h

namespace Adds

variable {n : Name} {i : FileId}

theorem extends_ (h : Adds n i d d') : Disk.Extends d d' := by
  refine ⟨h.here, ?_⟩
  intro m hm
  rw [h.node?]
  split
  · rename_i hmn
    rw [hmn, h.vacant] at hm
    cases hm
  · exact hm

theorem extends_back (h : Adds n i d d') : Disk.Extends d' d := by
  refine ⟨h.here.symm, ?_⟩
  intro m hm
  rw [h.node?] at hm
  split at hm
  · cases hm
  · exact hm

theorem node?_of_file (h : Adds n i d d') {m : Name} {j : FileId}
    (hm : d.node? m = some (.file j)) : d'.node? m = some (.file j) := by
  rw [h.node?]
  split
  · rename_i hmn
    rw [hmn, h.vacant] at hm
    cases hm
  · exact hm

end Adds

theorem adds_of_new {p : Path} {x : Index} {w₁ : World} (h : Feeds d₀ takes r w.disk)
    (hopen : Index.openRecord p w = (.ok x, w₁)) (hnew : d₀.exists? p = false)
    (hown : Apart w₁.disk (r.indexes ++ [p])) :
    ∃ n i, w.disk.LeadsTo p n ∧ x = Index.recorderOf p i [] ∧ Adds n i w.disk w₁.disk ∧
      w₁.disk.lookUp p = .ok (.file i) := by
  have hkeeps := Index.keepsFiles_openRecord p w
  rw [hopen] at hkeeps
  obtain ⟨i, d, hcreate, rfl, _, hchange, hcontent⟩ := Index.openRecord_ok hopen
  obtain ⟨n, hp, hat, hnodes, hmade⟩ := Disk.changesAt_of_openCreate hcreate
  have hl : w₁.disk.lookUp p = .ok (.file i) := by
    rw [hchange.lookUp_eq]
    exact Disk.lookUp_openCreate hcreate
  have hplace : w.disk.node? n = none ∧ d.medium i = .regular := by
    rcases hat.place with ⟨hi, _⟩ | ⟨hnone, _, _, hmedium⟩
    · -- a file that is there is no new one, so it would be the index of another segment
      rcases h.made n i hi with hold | ⟨s, hs, hleads⟩
      · have hfound := Disk.lookUp_eq_file.mpr ⟨n, hp.mono h.directories, hold⟩
        unfold Disk.exists? at hnew
        rw [hfound] at hnew
        cases hnew
      · have hs' := hkeeps s.index i (Disk.lookUp_eq_file.mpr ⟨n, hleads, hi⟩)
        exact absurd hl (hown.concat_ne (mem_indexes hs) hs')
    · exact ⟨hnone, hmedium⟩
  rw [if_pos hplace.1] at hmade
  refine ⟨n, i, hp, by rw [hmade], ⟨hchange.here.trans hat.here, hplace.1, ?_, ?_,
    (hchange.medium i).trans hplace.2, ?_⟩, hl⟩
  · intro m
    rw [Disk.node?_congr hchange.nodes]
    exact hnodes m
  · rw [hcontent, hmade]
    rfl
  · intro j hj
    exact ⟨(hchange.content j hj).trans (hat.content j hj),
      (hchange.medium j).trans (hat.medium j hj)⟩

theorem Feeds.made_of_adds {n : Name} {i : FileId} {p : Path} (h : Feeds d₀ takes r d)
    (hadds : Adds n i d d') (hp : d.LeadsTo p n) (hx : r'.indexes = r.indexes ++ [p]) :
    (∀ m j, d'.node? m = some (.file j) →
      d₀.node? m = some (.file j) ∨ ∃ s ∈ r'.segments, d'.LeadsTo s.index m) ∧
    Disk.Extends d' d₀ := by
  have hsegment : ∀ q ∈ r.indexes ++ [p], ∃ s ∈ r'.segments, s.index = q := by
    intro q hq
    rw [← hx] at hq
    exact List.mem_map.mp hq
  refine ⟨?_, hadds.extends_back.trans h.directories⟩
  intro m j hj
  rw [hadds.node?] at hj
  split at hj
  · rename_i hmn
    obtain ⟨u, hu, hup⟩ := hsegment p List.mem_concat_self
    refine .inr ⟨u, hu, ?_⟩
    rw [hup, hmn]
    exact hp.mono hadds.extends_
  · refine (h.made m j hj).imp id ?_
    rintro ⟨s, hs, hleads⟩
    obtain ⟨u, hu, hus⟩ := hsegment s.index (List.mem_append_left _ (mem_indexes hs))
    refine ⟨u, hu, ?_⟩
    rw [hus]
    exact hleads.mono hadds.extends_

theorem indexes_append (h : r.append path start w = (.ok r', w')) :
    r'.indexes = r.indexes ++ [(r.fileOf path).indexPath r.extension] := by
  obtain ⟨_, hx⟩ := map_append (fun h => h.index) h
  exact hx

theorem Feeds.append (h : Feeds d₀ takes r w.disk) (ha : r.append path start w = (.ok r', w'))
    (hnew : ∀ p ∈ r'.indexes, d₀.exists? p = false) (hown : Apart w'.disk r'.indexes) :
    Feeds d₀ (takes ++ [⟨start, []⟩]) r' w'.disk := by
  have hindexes := indexes_append ha
  obtain ⟨_, x, w₁, hopen, rfl, rfl⟩ := append_eq_ok.mp ha
  rw [disk_finishLast] at hown ⊢
  rw [hindexes] at hnew hown
  obtain ⟨n, i, hp, rfl, hadds, hl⟩ := adds_of_new h hopen (hnew _ (by simp)) hown
  have hstep : InStep takes r w₁.disk := by
    refine h.frame hadds.extends_ ?_
    intro s hs m j es hi
    have hnode := hadds.node?_of_file hi.node
    have hj : j ≠ i := by
      -- the new file is no other segment's
      rintro rfl
      have hs' := Disk.lookUp_eq_file.mpr ⟨m, hi.place.mono hadds.extends_, hnode⟩
      exact hown.concat_ne (mem_indexes hs) hs' hl
    obtain ⟨hcontent, hmedium⟩ := hadds.other j hj
    exact ⟨hnode, hcontent, fun hm => hmedium ▸ hm⟩
  obtain ⟨hmade, hdirectories⟩ := h.made_of_adds hadds hp hindexes
  refine ⟨InStep.concat (n := n) (i := i) hstep.finishLast rfl
    ⟨hp.mono hadds.extends_, ?_, ?_, Index.isOrdered_nil, ?_, nofun⟩
    (hadds.medium ▸ Medium.faithful_regular.exact), hmade, hdirectories⟩
  · rw [hadds.node?, if_pos rfl]
  · rw [hadds.content]
    rfl
  · intro y hy
    cases hy
    exact Index.tracks_recorderOf _ i []

/-- A change of one file makes no file and no directory. -/
theorem Feeds.made_of_changes {i : FileId} (h : Feeds d₀ takes r d) (hc : d.ChangesOnly i d')
    (hx : r'.indexes = r.indexes) : (∀ n j, d'.node? n = some (.file j) →
      d₀.node? n = some (.file j) ∨ ∃ s ∈ r'.segments, d'.LeadsTo s.index n) ∧
    Disk.Extends d' d₀ := by
  constructor
  · intro n j hj
    rw [Disk.node?_congr hc.nodes] at hj
    refine (h.made n j hj).imp id ?_
    rintro ⟨s, hs, hleads⟩
    obtain ⟨u, hu, hus⟩ := List.mem_map.mp (hx ▸ mem_indexes hs)
    refine ⟨u, hu, ?_⟩
    rw [hus]
    exact hleads.mono hc.extends_
  · have hback : Disk.Extends d' d := .of_nodes hc.here.symm hc.nodes.symm
    exact hback.trans h.directories

theorem Feeds.frame {i : FileId} (h : Feeds d₀ takes r d) (hc : d.ChangesOnly i d')
    (hsame : ∀ s ∈ r.segments, ∀ n j es, s.Indexed d n j es → d'.content j = d.content j) :
    Feeds d₀ takes r d' := by
  obtain ⟨hmade, hdirectories⟩ := h.made_of_changes hc rfl
  refine ⟨h.toInStep.frame hc.extends_ ?_, hmade, hdirectories⟩
  intro s hs n j es hj
  rw [Disk.node?_congr hc.nodes]
  exact ⟨hj.node, hsame s hs n j es hj, fun hm => hc.medium j ▸ hm⟩

theorem Feeds.append_error {err : Error} (h : Feeds d₀ takes r w.disk)
    (ha : r.append path start w = (.error err, w')) : Feeds d₀ takes r w'.disk := by
  rcases append_eq_error ha with rfl | hopen
  · exact h
  rcases Index.openRecord_error hopen with hd | ⟨i, _, hc, hcut⟩
  · rw [hd]
    exact h
  · apply h.frame hc
    intro s _ n j es hj
    by_cases hji : j = i
    · rw [hji, hcut, ← hji, hj.content, Entry.readAll_encodeAll]
    · exact hc.content j hji

theorem Feeds.record (h : Feeds d₀ takes r w.disk) (hr : r.record e w = (.ok r', w'))
    (hown : Apart w'.disk r'.indexes) : Feeds d₀ (note e takes) r' w'.disk := by
  have hkeeps := keepsFiles_record r e w
  rw [hr] at hkeeps
  have hindexes := indexes_record hr
  obtain ⟨init, s, x, x', hs, hx, hwrite, rfl⟩ := record_eq_ok hr
  obtain ⟨before, t, rfl, _, hinit, hstart, n, i, hi, hm⟩ := h.toInStep.split hs
  obtain ⟨ha, htracks, hc, hcontent⟩ := Index.write_ok (hi.writer x hx) hi.content hm hwrite
  have hnode := Disk.node?_congr hc.nodes
  have hlast : w'.disk.lookUp s.index = .ok (.file i) := hkeeps _ _ hi.lookUp
  have hown' : Apart w'.disk (indexes { r with segments := init } ++ [s.index]) := by
    simpa [indexes] using hown
  obtain ⟨hmade, hdirectories⟩ := h.made_of_changes hc hindexes
  rw [note_concat]
  refine ⟨InStep.concat (n := n) (i := i) (hinit.frame hc.extends_ ?_) hstart
    ⟨hi.place.mono hc.extends_, ?_, hcontent, Index.isOrdered_concat.mpr ⟨hi.ordered, ha⟩, ?_,
      hi.reader⟩ (hc.medium i ▸ hm), hmade, hdirectories⟩
  · intro u hu m j es hj
    rw [hnode]
    refine ⟨hj.node, hc.content j ?_, fun hm => hc.medium j ▸ hm⟩
    -- the file that is written is no other segment's
    rintro rfl
    exact hown'.concat_ne (mem_indexes hu) (hkeeps _ _ hj.lookUp) hlast
  · rw [hnode]
    exact hi.node
  · intro y hy
    cases hy
    exact htracks

theorem Feeds.record_error {err : Error} (h : Feeds d₀ takes r w.disk)
    (hr : r.record e w = (.error err, w')) : Feeds d₀ takes r w'.disk := by
  rcases record_eq_error hr with rfl | ⟨init, s, x, hs, hx, hw⟩
  · exact h
  · obtain ⟨before, t, rfl, _, _, _, n, i, hi, hm⟩ := h.toInStep.split hs
    obtain ⟨hc, hcontent⟩ := Index.write_error (hi.writer x hx) hi.content hm hw
    apply h.frame hc
    intro _ _ _ j _ _
    exact hc.unchanged (hcontent.trans hi.content.symm) j

theorem Feeds.storage (h : Feeds d₀ takes r d) (hd : d.ChangesMedia Medium.Exact d') :
    Feeds d₀ takes r d' := by
  have hnode := Disk.node?_congr hd.nodes
  have hback : Disk.Extends d' d := .of_nodes hd.here.symm hd.nodes.symm
  refine ⟨h.toInStep.frame hd.extends_ ?_, ?_, hback.trans h.directories⟩
  · intro s _ n i es hi
    exact ⟨hnode ▸ hi.node, hd.content i, hd.medium i⟩
  · intro n i hi
    refine (h.made n i (hnode ▸ hi)).imp id ?_
    rintro ⟨s, hs, hleads⟩
    exact ⟨s, hs, hleads.mono hd.extends_⟩

/-- What is asked of the last state holds of the states before it too. -/
theorem Fed.feeds {extension : String} {base : Option Path}
    (hf : Fed (empty extension base) w₀ takes r w)
    (hnew : ∀ p ∈ r.indexes, w₀.disk.exists? p = false) (hown : Apart w.disk r.indexes) :
    Feeds w₀.disk takes r w.disk := by
  induction hf with
  | start =>
    exact ⟨⟨rfl, fun _ _ _ hs => nomatch hs⟩, fun _ _ hi => .inl hi, .refl _⟩
  | @appended takes r r' w w' path start _ ha ih =>
    have hkeeps := keepsFiles_append r path start w
    rw [ha] at hkeeps
    have hsub : r.indexes.Sublist r'.indexes := by
      rw [indexes_append ha]
      exact List.sublist_append_left _ _
    refine Feeds.append (ih ?_ (hown.back hkeeps hsub)) ha hnew hown
    exact fun p hp => hnew p (hsub.subset hp)
  | @notAppended takes r w w' path start err _ ha ih =>
    have hkeeps := keepsFiles_append r path start w
    rw [ha] at hkeeps
    exact (ih hnew (hown.back hkeeps (.refl _))).append_error ha
  | @recorded takes r r' w w' e _ hr ih =>
    have hkeeps := keepsFiles_record r e w
    rw [hr] at hkeeps
    have hindexes := indexes_record hr
    rw [hindexes] at hnew
    have hback : Apart w.disk r.indexes := hown.back hkeeps (hindexes ▸ .refl _)
    exact (ih hnew hback).record hr hown
  | @notRecorded takes r w w' e err _ hr ih =>
    have hkeeps := keepsFiles_record r e w
    rw [hr] at hkeeps
    exact (ih hnew (hown.back hkeeps (.refl _))).record_error hr
  | storage _ hd ih => exact (ih hnew (hown.back hd.keepsFiles (.refl _))).storage hd

/-! ## Looking for a sample -/

theorem InStep.attached (h : InStep takes r d) : r.Attached d ∧ r.HasRows d := by
  constructor
  · intro s hs
    obtain ⟨k, hk⟩ := List.mem_iff_getElem?.mp hs
    obtain ⟨t, _, _, n, i, hi, _⟩ := h.get hk
    exact hi.attached
  · intro s hs
    obtain ⟨k, hk⟩ := List.mem_iff_getElem?.mp hs
    obtain ⟨t, _, _, n, i, hi, _⟩ := h.get hk
    rw [row_of_indexed hi, Disk.openRead_eq_ok.mpr hi.lookUp]
    exact ⟨rfl, hi.ordered⟩

theorem take_cons_drop {α : Type} {l : List α} {a : α} (h : l[k]? = some a) :
    l.take k ++ a :: l.drop (k + 1) = l := by
  obtain ⟨hk, rfl⟩ := List.getElem?_eq_some_iff.mp h
  rw [← List.drop_eq_getElem_cons hk, List.take_append_drop]

/-- The last segment that starts at or before a time is that of the last such take. -/
theorem InStep.last_take {a b : List Segment} (h : InStep takes r d)
    (hab : r.segments = a ++ s :: b) (hle : s.start ≤ time) (hlate : ∀ u ∈ b, time < u.start) :
    ∃ t, (takes.filter (·.start ≤ time)).getLast? = some t ∧ row d s = t.entries := by
  obtain ⟨t, ht, hstart, n, i, hi, _⟩ := h.get (k := a.length) (s := s) (by simp [hab])
  refine ⟨t, ?_, row_of_indexed hi⟩
  rw [← take_cons_drop ht]
  refine getLast?_filter_start (hstart ▸ hle) ?_
  intro v hv
  have hdrop : v.start ∈ (r.segments.map (·.start)).drop (a.length + 1) := by
    rw [h.starts, ← List.map_drop]
    exact List.mem_map_of_mem hv
  rw [hab, ← List.map_drop] at hdrop
  obtain ⟨x, hx, hxv⟩ := List.mem_map.mp hdrop
  rw [← hxv]
  apply hlate x
  simpa using hx

theorem InStep.reaches_iff (h : InStep takes r d)
    (ho : r.segments.Pairwise fun s t => s.start ≤ t.start) (time : UInt64) :
    r.Reaches d time ↔ ∃ t, (takes.filter (·.start ≤ time)).getLast? = some t ∧
      ∃ e ∈ t.entries, e.timestamp = time := by
  obtain ⟨hattached, hrows⟩ := h.attached
  rcases hattached.lookUp hrows ho time with
    ⟨hlate, what, hl⟩ | ⟨a, s, b, u, answer, hab, hle, hlate, hsu, hanswer, hl⟩
  · constructor
    · rintro ⟨s, e, hok, _⟩
      rw [hl] at hok
      cases hok
    · rintro ⟨t, ht, _⟩
      obtain ⟨hmem, hle⟩ := List.mem_filter.mp (List.mem_of_getLast? ht)
      have hstart : t.start ∈ r.segments.map (·.start) := h.starts ▸ List.mem_map_of_mem hmem
      obtain ⟨s, hs, hst⟩ := List.mem_map.mp hstart
      exact absurd (hst ▸ of_decide_eq_true hle) (UInt64.not_le.mpr (hlate s hs))
  · obtain ⟨t, hlast, hrow⟩ := h.last_take hab hle hlate
    have hrow' : row d u = t.entries := by
      have hindex := hsu.samePlace.index
      rw [← hrow]
      unfold row
      rw [hindex]
    rw [hrow] at hanswer
    have hreaches : r.Reaches d time ↔ ∃ e, answer = .ok e.offset ∧
        Entry.latest? t.entries time = some e ∧ e.timestamp = time := by
      unfold Reaches
      rw [hl]
      constructor
      · rintro ⟨v, e, hok, he, het⟩
        cases answer with
        | error err => cases hok
        | ok offset =>
          simp only [Except.map, Except.ok.injEq, Prod.mk.injEq] at hok
          rw [← hok.1, hrow'] at he
          exact ⟨e, by rw [hok.2], he, het⟩
      · rintro ⟨e, rfl, he, het⟩
        exact ⟨u, e, rfl, hrow'.symm ▸ he, het⟩
    rw [hreaches, hanswer.exact_iff, hlast]
    simp only [Option.some.injEq, exists_eq_left']

/-- A sample that was accepted is found again at its time if the last segment that starts no later
has a sample of this time. So it is, unless it is before the start of its own segment or not before
the start of a later one. The storage may fail at any time, as long as what is left of a failed
write can be cut off again (`Medium.Exact`). -/
theorem sample_reached {extension : String} {base : Option Path}
    (hf : Fed (empty extension base) w₀ takes r w)
    (hnew : ∀ s ∈ r.segments, w₀.disk.exists? s.index = false)
    (hown : r.segments.Pairwise fun s t => w.disk.lookUp s.index ≠ w.disk.lookUp t.index)
    (ht : takes[k]? = some t) (he : e ∈ t.entries) :
    (r.Reaches w.disk e.timestamp ↔
      ∃ u, (takes.filter (·.start ≤ e.timestamp)).getLast? = some u ∧
        ∃ y ∈ u.entries, y.timestamp = e.timestamp) ∧
    (t.start ≤ e.timestamp →
      (∀ j u, k < j → takes[j]? = some u → e.timestamp < u.start) →
      r.Reaches w.disk e.timestamp) := by
  have hapart : Apart w.disk r.indexes := by
    apply List.pairwise_map.mpr
    refine hown.imp ?_
    intro s u hne i hs hu
    exact hne (hs.trans hu.symm)
  have hfeeds := hf.feeds (List.forall_mem_map.mpr hnew) hapart
  have ho := ((represented_empty extension base).came hf.came).starts
  have hiff := hfeeds.toInStep.reaches_iff ho e.timestamp
  refine ⟨hiff, ?_⟩
  intro hle hlate
  apply hiff.mpr
  refine ⟨t, ?_, e, he, rfl⟩
  rw [← take_cons_drop ht]
  refine getLast?_filter_start hle ?_
  intro u hu
  obtain ⟨j, hj⟩ := List.mem_iff_getElem?.mp hu
  rw [List.getElem?_drop] at hj
  exact hlate _ u (by omega) hj

theorem own_files (h : (r.segments.map fun s => (d.openRead s.index).toOption).Pairwise (· ≠ ·)) :
    r.segments.Pairwise fun s t => d.lookUp s.index ≠ d.lookUp t.index := by
  refine (List.pairwise_map.mp h).imp ?_
  intro s t hne heq
  apply hne
  unfold Disk.openRead
  rw [heq]

theorem append_perform (h : (r.append path start w).1.isOk = true) : r.append path start w =
    (.ok (r.perform w (.append path start)).1, (r.perform w (.append path start)).2) := by
  obtain ⟨r', hr⟩ := exists_of_isOk h
  simp only [perform]
  cases ha : r.append path start w with
  | mk result w' =>
    rw [ha] at hr
    simp only at hr
    rw [hr]
    rfl

theorem record_perform (h : (r.record e w).1.isOk = true) : r.record e w =
    (.ok (r.perform w (.record e)).1, (r.perform w (.record e)).2) := by
  obtain ⟨r', hr⟩ := exists_of_isOk h
  simp only [perform]
  cases ha : r.record e w with
  | mk result w' =>
    rw [ha] at hr
    simp only at hr
    rw [hr]
    rfl

end

def early : Recording × World := begun.1.perform begun.2 (.record ⟨5, 0⟩)

theorem fed_begun : Fed (empty "idx" none) plainWorld [⟨10, []⟩] begun.1 begun.2 :=
  Fed.start.appended (append_perform (by decide +kernel))

/-- The first word of a record finds room, and is cut off again. -/
def scarceMedium : Medium := { keeps := some 8, writeError := some .noSpace }

def turnedAway : Except Error Recording × World :=
  begun.1.record ⟨12, 7⟩ (stored scarceMedium begun.2)

def retried : Recording × World :=
  begun.1.perform (stored .regular turnedAway.2) (.record ⟨12, 7⟩)

def followed : Recording × World := retried.1.perform retried.2 (.append secondName 20)

theorem fed_followed : turnedAway.1.isOk = false ∧
    Fed (empty "idx" none) plainWorld [⟨10, [⟨12, 7⟩]⟩, ⟨20, []⟩] followed.1 followed.2 := by
  have hlost : turnedAway.1.isOk = false := by decide +kernel
  refine ⟨hlost, ?_⟩
  have hscarce : Fed _ _ _ begun.1 (stored scarceMedium begun.2) :=
    fed_begun.storage (Disk.changesMedia_setMedium ⟨nofun, .inl rfl⟩ _ 2)
  cases herr : turnedAway.1 with
  | ok r =>
    rw [herr] at hlost
    cases hlost
  | error err =>
    have hturned : Fed _ _ _ begun.1 turnedAway.2 := hscarce.notRecorded (Prod.ext herr rfl)
    have hroom : Fed _ _ _ begun.1 (stored .regular turnedAway.2) :=
      hturned.storage (Disk.changesMedia_setMedium Medium.faithful_regular.exact _ 2)
    have hretried := hroom.recorded (record_perform (e := ⟨12, 7⟩) (by decide +kernel))
    exact hretried.appended (append_perform (by decide +kernel))

/-- A sample that found no room is accepted when there is some, and found again after the next
segment has begun. -/
theorem sample_reached_followed : turnedAway.1.isOk = false ∧
    followed.1.Reaches followed.2.disk 12 := by
  obtain ⟨hlost, hfed⟩ := fed_followed
  refine ⟨hlost, (sample_reached (k := 0) (t := ⟨10, [⟨12, 7⟩]⟩) (e := ⟨12, 7⟩) hfed
    (by decide +kernel) (own_files (by decide +kernel)) rfl (List.mem_singleton_self _)).2
    (by decide) ?_⟩
  intro j u hj hu
  match j with
  | 1 =>
    cases hu
    decide
  | j + 2 => cases hu

/-- A sample from before the start of its segment is accepted, and no lookup of its time finds it. -/
theorem early_sample_lost : ∃ takes r w, Fed (empty "idx" none) plainWorld takes r w ∧
    (∀ s ∈ r.segments, plainWorld.disk.exists? s.index = false) ∧
    (r.segments.Pairwise fun s t => w.disk.lookUp s.index ≠ w.disk.lookUp t.index) ∧
    ∃ (k : Nat) (t : Take) (e : Entry), takes[k]? = some t ∧ e ∈ t.entries ∧
      ¬ r.Reaches w.disk e.timestamp := by
  have hfed := fed_begun.recorded (record_perform (e := ⟨5, 0⟩) (by decide +kernel))
  refine ⟨_, _, _, hfed, by decide +kernel, own_files (by decide +kernel), 0, ⟨10, [⟨5, 0⟩]⟩,
    ⟨5, 0⟩, rfl, List.mem_singleton_self _, ?_⟩
  rintro ⟨s, e, hl, _⟩
  have hlost : (early.1.lookUp 5 early.2.disk).1.isOk = false := by decide +kernel
  have hl' : (early.1.lookUp 5 early.2.disk).1 = .ok (s, e.offset) := hl
  rw [hl'] at hlost
  cases hlost

end Timeshift.Recording
