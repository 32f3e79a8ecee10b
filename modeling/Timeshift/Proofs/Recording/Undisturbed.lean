import Timeshift.Proofs.Manifest.Atomic
import Timeshift.Proofs.Recording.Flat

/-!
# A recording that is left alone

As long as nobody else touches the index files of a recording they only get longer, in order. What
is done to the recording puts records behind those that are there, or none; it never changes one,
and never opens another file in the place of one.
-/

namespace Timeshift

namespace Disk

/-- The file that `p` leads to stays there and keeps its records, on storage that is no worse. At
most a torn end is cut off. -/
def KeepsRecords (d d' : Disk) (p : Path) : Prop :=
  ∀ i, d.lookUp p = .ok (.file i) → d'.lookUp p = .ok (.file i) ∧
    ((d.medium i).Exact → (d'.medium i).Exact) ∧
    (d'.content i = d.content i ∨ d'.content i = Entry.encodeAll (Entry.readAll (d.content i)))

def Lengthens (d d' : Disk) (p : Path) : Prop :=
  ∀ i, d.lookUp p = .ok (.file i) → d'.lookUp p = .ok (.file i) ∧
    ∃ more, Entry.readAll (d'.content i) = Entry.readAll (d.content i) ++ more ∧
      (Index.IsOrdered (Entry.readAll (d.content i)) →
        Index.IsOrdered (Entry.readAll (d'.content i)))

section
variable {d d' : Disk} {p q : Path} {i : FileId} {w : World}

theorem KeepsRecords.refl (d : Disk) (p : Path) : KeepsRecords d d p :=
  fun _ hi => ⟨hi, id, .inl rfl⟩

theorem KeepsRecords.records (h : KeepsRecords d d' p) (hi : d.lookUp p = .ok (.file i)) :
    Entry.readAll (d'.content i) = Entry.readAll (d.content i) := by
  obtain ⟨_, _, hc | hc⟩ := h i hi
  · rw [hc]
  · rw [hc, Entry.readAll_encodeAll]

theorem KeepsRecords.lengthens (h : KeepsRecords d d' p) : Lengthens d d' p := by
  intro i hi
  have hsame := h.records hi
  refine ⟨(h i hi).1, [], ?_, ?_⟩
  · rw [hsame, List.append_nil]
  · rw [hsame]
    exact id

theorem Lengthens.refl (d : Disk) (p : Path) : Lengthens d d p := (KeepsRecords.refl d p).lengthens

theorem Lengthens.trans {d₁ d₂ d₃ : Disk} (h₁ : Lengthens d₁ d₂ p) (h₂ : Lengthens d₂ d₃ p) :
    Lengthens d₁ d₃ p := by
  intro i hi
  obtain ⟨hi₂, more₁, hmore₁, ho₁⟩ := h₁ i hi
  obtain ⟨hi₃, more₂, hmore₂, ho₂⟩ := h₂ i hi₂
  refine ⟨hi₃, more₁ ++ more₂, ?_, fun ho => ho₂ (ho₁ ho)⟩
  rw [hmore₂, hmore₁, List.append_assoc]

theorem ChangesOnly.keepsRecords (h : ChangesOnly i d d')
    (hc : d'.content i = d.content i ∨ d'.content i = Entry.encodeAll (Entry.readAll (d.content i)))
    (p : Path) : KeepsRecords d d' p := by
  intro j hj
  refine ⟨h.keepsFiles p j hj, by rw [h.medium j]; exact id, ?_⟩
  by_cases hji : j = i
  · rw [hji]
    exact hc
  · exact .inl (h.content j hji)

theorem ChangesMedia.keepsRecords (h : ChangesMedia Medium.Exact d d') (p : Path) :
    KeepsRecords d d' p :=
  fun i hi => ⟨h.keepsFiles p i hi, h.medium i, .inl (h.content i)⟩

theorem ChangesOnly.keepsRecords_elsewhere (h : ChangesOnly i d d')
    (hp : d.lookUp p ≠ .ok (.file i)) : KeepsRecords d d' p := by
  intro j hj
  have hji : j ≠ i := by
    intro heq
    rw [heq] at hj
    exact hp hj
  refine ⟨h.keepsFiles p j hj, ?_, .inl (h.content j hji)⟩
  rw [h.medium j]
  exact id

theorem openCreate_other {j : FileId} (hs : d.Sound) (h : d.openCreate q = .ok (i, d'))
    (hj : d.lookUp p = .ok (.file j)) :
    d'.content j = d.content j ∧ d'.medium j = d.medium j := by
  obtain ⟨n, _, hat, _, hmade⟩ := changesAt_of_openCreate h
  obtain ⟨m, _, hm⟩ := lookUp_eq_file.mp hj
  by_cases hmn : m = n
  · subst hmn
    rcases hat.place with ⟨hi, _, hmedium⟩ | ⟨hnone, _⟩
    · rw [hm, Option.some.injEq, Node.file.injEq] at hi
      subst hi
      rw [hm, if_neg nofun] at hmade
      exact ⟨hmade, hmedium⟩
    · rw [hm] at hnone
      cases hnone
  · exact hat.other hs hm hmn

theorem Spares.keepsRecords {places : Name → Prop} (h : Spares places d d')
    (hp : ∀ n, d.LeadsTo p n → ¬places n) : KeepsRecords d d' p := by
  intro i hi
  have hfile := h.file_eq hp hi
  refine ⟨(h.lookUp hp).mpr hi, ?_, .inl (congrArg File.content hfile)⟩
  unfold medium
  rw [hfile]
  exact id

end

end Disk

namespace Index

section
variable {w : World} {path : Path}

theorem sound_openRecord (hs : w.disk.Sound) (path : Path) : (openRecord path w).2.disk.Sound := by
  cases h : openRecord path w with
  | mk result w' =>
    cases result with
    | ok x =>
      obtain ⟨i, d, hcreate, _, _, hchange, _⟩ := openRecord_ok h
      exact hchange.sound (hs.openCreate hcreate)
    | error err =>
      rcases openRecord_error h with hd | ⟨i, _, hchange, _⟩
      · rw [hd]
        exact hs
      · exact hchange.sound hs

theorem keepsRecords_openRecord (hs : w.disk.Sound) (path p : Path) :
    w.disk.KeepsRecords (openRecord path w).2.disk p := by
  have hkeeps := keepsFiles_openRecord path w
  cases h : openRecord path w with
  | mk result w' =>
    rw [h] at hkeeps
    cases result with
    | error err =>
      rcases openRecord_error h with hd | ⟨i, _, hchange, hcontent⟩
      · rw [hd]
        exact .refl _ p
      · exact hchange.keepsRecords (.inr hcontent) p
    | ok x =>
      obtain ⟨i, d, hcreate, _, _, hchange, hcontent⟩ := openRecord_ok h
      intro j hj
      have hold := Disk.openCreate_other hs hcreate hj
      refine ⟨hkeeps p j hj, by rw [hchange.medium j, hold.2]; exact id, ?_⟩
      by_cases hji : j = i
      · rw [hji] at hold ⊢
        rw [hcontent, hold.1]
        exact .inr rfl
      · exact .inl ((hchange.content j hji).trans hold.1)

end

end Index

namespace Segment

/-- What the segment has open is the file of its index, whose records are in order. Its writer knows
all of them, and writes to storage that does not lose any. -/
structure Steady (s : Segment) (d : Disk) : Prop where
  reader : ∀ x, s.reader = some x → ∃ i, x.file = some i ∧ d.lookUp s.index = .ok (.file i) ∧
    Index.IsOrdered (Entry.readAll (d.content i))
  writer : ∀ x, s.writer = some x → ∃ i es, x.Tracks i es ∧ d.lookUp s.index = .ok (.file i) ∧
    Index.IsOrdered es ∧ d.content i = Entry.encodeAll es ∧ (d.medium i).Exact

section
variable {s t : Segment} {d d' : Disk} {w : World} {time offset : UInt64}

theorem Steady.keeps (h : s.Steady d) (hk : d.KeepsRecords d' s.index) : s.Steady d' := by
  refine ⟨fun x hx => ?_, fun x hx => ?_⟩
  · obtain ⟨i, hfile, hi, ho⟩ := h.reader x hx
    refine ⟨i, hfile, (hk i hi).1, ?_⟩
    rw [hk.records hi]
    exact ho
  · obtain ⟨i, es, htracks, hi, ho, hcontent, hmedium⟩ := h.writer x hx
    obtain ⟨hi', hm, hc⟩ := hk i hi
    rw [hcontent, Entry.readAll_encodeAll, or_self] at hc
    exact ⟨i, es, htracks, hi', ho, hc, hm hmedium⟩

theorem Steady.reads (h : s.Steady d) (hl : d.Lengthens d' s.index) :
    ∀ x, s.reader = some x → ∃ i, x.file = some i ∧ d'.lookUp s.index = .ok (.file i) ∧
      Index.IsOrdered (Entry.readAll (d'.content i)) := by
  intro x hx
  obtain ⟨i, hfile, hi, ho⟩ := h.reader x hx
  obtain ⟨hi', _, _, ho'⟩ := hl i hi
  exact ⟨i, hfile, hi', ho' ho⟩

theorem Steady.lengthens (h : s.Steady d) (hl : d.Lengthens d' s.index) (hw : s.writer = none) :
    s.Steady d' := by
  refine ⟨h.reads hl, fun x hx => ?_⟩
  rw [hw] at hx
  cases hx

theorem Steady.attached (h : s.Steady d) : s.Attached d := by
  rintro x (hx | hx)
  · obtain ⟨i, _, htracks, hi, _⟩ := h.writer x hx
    exact ⟨i, htracks.file, hi⟩
  · obtain ⟨i, hfile, hi, _⟩ := h.reader x hx
    exact ⟨i, hfile, hi⟩

theorem Steady.query (h : s.Steady d) (ask : Index → Except Error α) :
    (s.query ask d).2.Steady d := by
  rcases s.query_snd ask d with hs | ⟨x, hw, _, hopen, hs⟩
  · rw [hs]
    exact h
  · obtain ⟨i, hi, ho, rfl⟩ := Index.openPlayback_eq_ok.mp hopen
    rw [hs]
    refine ⟨fun y hy => ?_, fun y hy => ?_⟩
    · cases hy
      exact ⟨i, rfl, hi, ho⟩
    · rw [hw] at hy
      cases hy

theorem Steady.finish (h : s.Steady w.disk) : (s.finish w).1.Steady w.disk := by
  cases hx : s.writer with
  | some x =>
    rw [finish_writer hx]
    exact ⟨h.reader, nofun⟩
  | none =>
    obtain ⟨t, _, ht, hf⟩ := finish_reader hx w
    have hquery := h.query (·.last? w.disk)
    rw [← ht] at hquery
    rw [hf]
    exact ⟨hquery.reader, hquery.writer⟩

theorem Steady.found (h : s.Steady d) (hl : (s.query (·.lookUp time d) d).1 = .ok offset) :
    ∃ i, d.lookUp s.index = .ok (.file i) ∧ Index.IsOrdered (Entry.readAll (d.content i)) := by
  rw [query_fst] at hl
  obtain ⟨x, hx, _⟩ := bind_eq_ok.mp hl
  rcases handle_eq_ok hx with hw | hr | hopen
  · obtain ⟨i, es, _, hi, ho, hcontent, _⟩ := h.writer x hw
    refine ⟨i, hi, ?_⟩
    rw [hcontent, Entry.readAll_encodeAll]
    exact ho
  · obtain ⟨i, _, hi, ho⟩ := h.reader x hr
    exact ⟨i, hi, ho⟩
  · obtain ⟨i, hi, ho, _⟩ := Index.openPlayback_eq_ok.mp hopen
    exact ⟨i, hi, ho⟩

structure Mark where
  path : SegmentPath
  file : Path
  index : Path
  start : UInt64

def mark (s : Segment) : Mark := ⟨s.path, s.file, s.index, s.start⟩

theorem mark_eq : t.mark = s.mark ↔ s.SamePlace t := by
  constructor
  · intro h
    exact ⟨congrArg Mark.path h, congrArg Mark.file h, congrArg Mark.index h, congrArg Mark.start h⟩
  · intro h
    unfold Segment.mark
    rw [h.path, h.file, h.index, h.start]

end

end Segment

namespace Recording

/-- An index that the operation finds is on exact storage, and nothing is stored over one. -/
def Suits (r : Recording) (d : Disk) : Operation → Prop
  | .append path _ => ∀ i, d.lookUp ((r.fileOf path).indexPath r.extension) = .ok (.file i) →
      (d.medium i).Exact
  | .store path => ∀ s ∈ r.segments, ∀ i, d.lookUp s.index = .ok (.file i) →
      d.lookUp path ≠ .ok (.file i) ∧ d.lookUp (path.withExtension "tmp") ≠ .ok (.file i)
  | _ => True

/-- The index files that are there stay there, with all that they hold. Writing to them may come to
fail, or to go well again. -/
def LeavesIndexes (r : Recording) (d d' : Disk) : Prop :=
  ∀ s ∈ r.segments, ∀ i, d.lookUp s.index = .ok (.file i) →
    d'.lookUp s.index = .ok (.file i) ∧ d'.content i = d.content i ∧
      ((d.medium i).Exact → (d'.medium i).Exact)

/-- The operations `os` brought `r₀` and the world `w₀` to `r` and `w`, and meanwhile nobody else
touched the index files, which were on exact storage. -/
inductive Undisturbed (r₀ : Recording) (w₀ : World) : List Operation → Recording → World → Prop
  | start : Undisturbed r₀ w₀ [] r₀ w₀
  | based {os : List Operation} {r : Recording} {w : World} (directory : Path) :
      Undisturbed r₀ w₀ os r w → Undisturbed r₀ w₀ os (r.withBase directory) w
  | performed {os : List Operation} {r : Recording} {w : World} (o : Operation) :
      Undisturbed r₀ w₀ os r w → r.Suits w.disk o →
      Undisturbed r₀ w₀ (os ++ [o]) (r.perform w o).1 (r.perform w o).2
  | elsewhere {os : List Operation} {r : Recording} {w : World} (w' : World) :
      Undisturbed r₀ w₀ os r w → w'.disk.Sound → r.LeavesIndexes w.disk w'.disk →
      Undisturbed r₀ w₀ os r w'

structure Steady (r : Recording) (d : Disk) : Prop where
  sound : d.Sound
  segment : ∀ s ∈ r.segments, s.Steady d
  idle : ∀ s ∈ r.segments.dropLast, s.writer = none

/-- From `r` on `d` to `r'` on `d'` the segments stayed where they were, those that came were
appended, and the index files got at most longer. -/
structure Continues (r : Recording) (d : Disk) (os : List Operation) (r' : Recording) (d' : Disk) :
    Prop where
  marks : ∃ more, r'.segments.map Segment.mark = r.segments.map Segment.mark ++ more ∧
    ∀ m ∈ more, Operation.append m.path m.start ∈ os
  indexes : ∀ s ∈ r.segments, d.Lengthens d' s.index

section
variable {r r' : Recording} {d d' : Disk} {w w' : World} {os : List Operation} {s : Segment}
  {init : List Segment} {path : SegmentPath} {start : UInt64} {e : Entry}

theorem Continues.of_marks (hm : r'.segments.map Segment.mark = r.segments.map Segment.mark)
    (hl : ∀ s ∈ r.segments, d.Lengthens d' s.index) (os : List Operation) :
    Continues r d os r' d' :=
  ⟨⟨[], by rw [hm, List.append_nil], nofun⟩, hl⟩

theorem Continues.trans {r'' : Recording} {d'' : Disk} {os' : List Operation}
    (h : Continues r d os r' d') (h' : Continues r' d' os' r'' d'') :
    Continues r d (os ++ os') r'' d'' := by
  obtain ⟨more, hmore, hos⟩ := h.marks
  obtain ⟨more', hmore', hos'⟩ := h'.marks
  refine ⟨⟨more ++ more', ?_, fun m hm => ?_⟩, fun s hs => ?_⟩
  · rw [hmore', hmore, List.append_assoc]
  · rcases List.mem_append.mp hm with hm | hm
    · exact List.mem_append_left _ (hos m hm)
    · exact List.mem_append_right _ (hos' m hm)
  · have hmark : s.mark ∈ r'.segments.map Segment.mark := by
      rw [hmore]
      exact List.mem_append_left _ (List.mem_map_of_mem hs)
    obtain ⟨s', hs', hmark'⟩ := List.mem_map.mp hmark
    have hlast := h'.indexes s' hs'
    rw [(Segment.mark_eq.mp hmark').index] at hlast
    exact (h.indexes s hs).trans hlast

theorem Steady.keeps (h : r.Steady d) (hs : d'.Sound)
    (hk : ∀ s ∈ r.segments, d.KeepsRecords d' s.index) : r.Steady d' :=
  ⟨hs, fun s hm => (h.segment s hm).keeps (hk s hm), h.idle⟩

theorem Steady.finishLast (h : r.Steady w.disk) : (∀ s ∈ (r.finishLast w).1.segments,
      s.Steady w.disk ∧ s.writer = none) ∧
    (r.finishLast w).1.segments.map Segment.mark = r.segments.map Segment.mark := by
  rcases finishLast_cases r w with ⟨hnil, hf⟩ | ⟨init, s, hr, hf⟩
  · rw [hf]
    refine ⟨fun s hs => ?_, rfl⟩
    rw [hnil] at hs
    cases hs
  · rw [hf]
    have hidle := h.idle
    rw [hr, List.dropLast_concat] at hidle
    refine ⟨fun u hu => ?_, ?_⟩
    · rcases List.mem_append.mp hu with hu | hu
      · exact ⟨h.segment u (by rw [hr]; exact List.mem_append_left _ hu), hidle u hu⟩
      · rw [List.mem_singleton.mp hu]
        exact ⟨(h.segment s (by rw [hr]; exact List.mem_concat_self)).finish,
          s.finish_inactive w⟩
    · rw [hr, List.map_append, List.map_append, List.map_singleton, List.map_singleton,
        Segment.mark_eq.mpr (s.finish_samePlace w)]

/-! ## What each operation keeps -/

theorem steady_opened {x : Index} (hm : r.Suits w.disk (.append path start))
    (ho : Index.openRecord ((r.fileOf path).indexPath r.extension) w = (.ok x, w')) :
    (r.opened path start x).Steady w'.disk := by
  obtain ⟨i, d, hcreate, rfl, hord, hchange, hcontent⟩ := Index.openRecord_ok ho
  obtain ⟨n, hn, hat, _, _⟩ := Disk.changesAt_of_openCreate hcreate
  have hmedium : (w'.disk.medium i).Exact := by
    rw [hchange.medium]
    rcases hat.place with ⟨hi, _, hsame⟩ | ⟨_, _, _, hregular⟩
    · rw [hsame]
      exact hm i (Disk.lookUp_eq_file.mpr ⟨n, hn, hi⟩)
    · rw [hregular]
      exact Medium.exact_named.1
  refine ⟨nofun, fun y hy => ?_⟩
  cases hy
  refine ⟨i, _, Index.tracks_recorderOf _ i _, ?_, hord, hcontent, hmedium⟩
  rw [hchange.lookUp_eq]
  exact Disk.lookUp_openCreate hcreate

theorem Steady.append (h : r.Steady w.disk) (hm : r.Suits w.disk (.append path start))
    (ha : r.append path start w = (.ok r', w')) :
    r'.Steady w'.disk ∧ Continues r w.disk [.append path start] r' w'.disk := by
  obtain ⟨_, x, w₁, ho, rfl, rfl⟩ := append_eq_ok.mp ha
  have hsound := Index.sound_openRecord h.sound ((r.fileOf path).indexPath r.extension)
  have hkeeps := Index.keepsRecords_openRecord h.sound ((r.fileOf path).indexPath r.extension)
  rw [ho] at hsound hkeeps
  obtain ⟨hlast, hmarks⟩ := (h.keeps hsound fun s _ => hkeeps s.index).finishLast
  rw [disk_finishLast]
  constructor
  · refine ⟨hsound, fun s hs => ?_, fun s hs => ?_⟩
    · rcases List.mem_append.mp hs with hs | hs
      · exact (hlast s hs).1
      · rw [List.mem_singleton.mp hs]
        exact steady_opened hm ho
    · rw [List.dropLast_concat] at hs
      exact (hlast s hs).2
  · refine ⟨⟨[(r.opened path start x).mark], ?_, fun m hm => ?_⟩, fun s _ => ?_⟩
    · rw [List.map_append, hmarks, List.map_singleton]
    · rw [List.mem_singleton.mp hm]
      exact List.mem_singleton_self _
    · exact (hkeeps s.index).lengthens

theorem Steady.append_error {err : Error} (h : r.Steady w.disk)
    (ha : r.append path start w = (.error err, w')) (os : List Operation) :
    r.Steady w'.disk ∧ Continues r w.disk os r w'.disk := by
  rcases append_eq_error ha with rfl | ho
  · exact ⟨h, .of_marks rfl (fun s _ => .refl _ s.index) os⟩
  · have hsound := Index.sound_openRecord h.sound ((r.fileOf path).indexPath r.extension)
    have hkeeps := Index.keepsRecords_openRecord h.sound ((r.fileOf path).indexPath r.extension)
    rw [ho] at hsound hkeeps
    exact ⟨h.keeps hsound fun s _ => hkeeps s.index,
      .of_marks rfl (fun s _ => (hkeeps s.index).lengthens) os⟩

theorem lengthens_of_written {i : FileId} {es : List Entry} (hc : d.ChangesOnly i d')
    (hold : d.content i = Entry.encodeAll es) (hnew : d'.content i = Entry.encodeAll (es ++ [e]))
    (ho : Index.IsOrdered (es ++ [e])) (p : Path) : d.Lengthens d' p := by
  intro j hj
  refine ⟨hc.keepsFiles p j hj, ?_⟩
  by_cases hji : j = i
  · rw [hji, hold, hnew, Entry.readAll_encodeAll, Entry.readAll_encodeAll]
    exact ⟨[e], rfl, fun _ => ho⟩
  · rw [hc.content j hji]
    exact ⟨[], (List.append_nil _).symm, id⟩

theorem Steady.record (h : r.Steady w.disk) (hr : r.record e w = (.ok r', w'))
    (os : List Operation) : r'.Steady w'.disk ∧ Continues r w.disk os r' w'.disk := by
  obtain ⟨init, s, x, x', hs, hx, hwrite, rfl⟩ := record_eq_ok hr
  have hidle := h.idle
  rw [hs, List.dropLast_concat] at hidle
  have hlast := h.segment s (hs ▸ List.mem_concat_self)
  obtain ⟨i, es, htracks, hi, ho, hcontent, hmedium⟩ := hlast.writer x hx
  obtain ⟨hadmits, htracks', hchange, hcontent'⟩ :=
    Index.write_ok htracks hcontent hmedium hwrite
  have ho' := Index.isOrdered_concat.mpr ⟨ho, hadmits⟩
  have hlengthens := lengthens_of_written hchange hcontent hcontent' ho'
  -- a segment without a writer stays as it should be even if its index is the file that is written
  have hother : ∀ u ∈ r.segments, u.writer = none → u.Steady w'.disk := fun u hu hw =>
    (h.segment u hu).lengthens (hlengthens u.index) hw
  constructor
  · refine ⟨hchange.sound h.sound, fun u hu => ?_, fun u hu => ?_⟩
    · rcases List.mem_append.mp hu with hu | hu
      · exact hother u (hs ▸ List.mem_append_left _ hu) (hidle u hu)
      · rw [List.mem_singleton.mp hu]
        refine ⟨hlast.reads (hlengthens s.index), fun y hy => ?_⟩
        cases hy
        refine ⟨i, es ++ [e], htracks', hchange.keepsFiles _ i hi, ho', hcontent', ?_⟩
        rw [hchange.medium]
        exact hmedium
    · rw [List.dropLast_concat] at hu
      exact hidle u hu
  · refine .of_marks ?_ (fun u _ => hlengthens u.index) os
    rw [hs, List.map_append, List.map_append]
    rfl

theorem Steady.record_error {err : Error} (h : r.Steady w.disk)
    (hr : r.record e w = (.error err, w')) (os : List Operation) :
    r.Steady w'.disk ∧ Continues r w.disk os r w'.disk := by
  rcases record_eq_error hr with rfl | ⟨init, s, x, hs, hx, hwrite⟩
  · exact ⟨h, .of_marks rfl (fun s _ => .refl _ s.index) os⟩
  · obtain ⟨i, es, htracks, _, _, hcontent, hmedium⟩ :=
      (h.segment s (hs ▸ List.mem_concat_self)).writer x hx
    obtain ⟨hchange, hcontent'⟩ := Index.write_error htracks hcontent hmedium hwrite
    have hkeeps := hchange.keepsRecords (.inl (hcontent'.trans hcontent.symm))
    exact ⟨h.keeps (hchange.sound h.sound) fun s _ => hkeeps s.index,
      .of_marks rfl (fun s _ => (hkeeps s.index).lengthens) os⟩

theorem Steady.finish (h : r.Steady w.disk) (os : List Operation) :
    (r.finish w).1.Steady (r.finish w).2.disk ∧
      Continues r w.disk os (r.finish w).1 (r.finish w).2.disk := by
  cases hf : r.finished with
  | true =>
    unfold Recording.finish
    rw [hf]
    exact ⟨h, .of_marks rfl (fun s _ => .refl _ s.index) os⟩
  | false =>
    obtain ⟨hlast, hmarks⟩ := h.finishLast
    rw [finish_unfinished hf, disk_finishLast]
    refine ⟨⟨h.sound, fun s hs => (hlast s hs).1, fun s hs => ?_⟩,
      .of_marks ?_ (fun s _ => .refl _ s.index) os⟩
    · exact (hlast s (List.dropLast_subset _ hs)).2
    · exact hmarks

theorem keepsRecords_store (hd : d.Sound) {path : Path} (hm : r.Suits d (.store path))
    (h : r.manifest.Stops path d d') (hs : s ∈ r.segments) : d.KeepsRecords d' s.index := by
  intro i hi
  obtain ⟨hpath, htemporary⟩ := hm s hs i hi
  refine (h.spares hd).keepsRecords ?_ i hi
  intro n hn htouched
  have hsame : ∀ q, d.LeadsTo q n → d.lookUp q = .ok (.file i) := by
    intro q hq
    rw [Disk.lookUp_of_leadsTo hq, ← Disk.lookUp_of_leadsTo hn, hi]
  rcases htouched with htouched | htouched
  · exact htemporary (hsame _ htouched)
  · exact hpath (hsame _ htouched)

theorem disk_store (r : Recording) (path : Path) (w : World) :
    (r.store path w).2.disk = (r.manifest.store path w.disk).2 := by
  unfold store
  cases r.manifest.store path w.disk with
  | mk result d => rfl

theorem Steady.store (h : r.Steady w.disk) {path : Path} (hm : r.Suits w.disk (.store path))
    (os : List Operation) : r.Steady (r.store path w).2.disk ∧
      Continues r w.disk os r (r.store path w).2.disk := by
  have hstops := Manifest.stops_store r.manifest path w.disk
  rw [disk_store]
  generalize (r.manifest.store path w.disk).2 = d at hstops ⊢
  have hkeeps := fun s (hs : s ∈ r.segments) => keepsRecords_store h.sound hm hstops hs
  exact ⟨h.keeps ((hstops.outcome h.sound).sound h.sound) hkeeps,
    .of_marks rfl (fun s hs => (hkeeps s hs).lengthens) os⟩

theorem Steady.asked (h : r.Steady d) {k : Nat} (hs : r.segments[k]? = some s)
    (ask : Index → Except Error α) (os : List Operation) :
    Steady { r with segments := r.segments.set k (s.query ask d).2 } d ∧
      Continues r d os { r with segments := r.segments.set k (s.query ask d).2 } d := by
  have hquery := s.query_sameButReader ask d
  refine ⟨⟨h.sound, fun u hu => ?_, fun u hu => ?_⟩,
    .of_marks (map_set hs (Segment.mark_eq.mpr hquery.samePlace)) (fun u _ => .refl _ u.index) os⟩
  · rcases List.mem_or_eq_of_mem_set hu with hu | rfl
    · exact h.segment u hu
    · exact (h.segment s (List.mem_of_getElem? hs)).query ask
  · have hwriter : u.writer ∈ ((r.segments.set k (s.query ask d).2).map (·.writer)).dropLast := by
      rw [← List.map_dropLast]
      exact List.mem_map_of_mem hu
    rw [map_set hs (by rw [hquery]), ← List.map_dropLast] at hwriter
    obtain ⟨v, hv, hvu⟩ := List.mem_map.mp hwriter
    rw [← hvu]
    exact h.idle v hv

/-- Whatever is done to a recording that is left alone, it stays so. -/
theorem Steady.turn (h : r.Steady w.disk) {o : Operation} (hm : r.Suits w.disk o)
    (ht : Turn r w o r' w') : r'.Steady w'.disk ∧ Continues r w.disk [o] r' w'.disk := by
  cases ht with
  | appended ha => exact h.append hm ha
  | notAppended ha => exact h.append_error ha _
  | recorded hr => exact h.record hr _
  | notRecorded hr => exact h.record_error hr _
  | finished => exact h.finish _
  | stored path => exact h.store hm _
  | asked ask hs => exact h.asked hs ask _
  | unanswered => exact ⟨h, .of_marks rfl (fun s _ => .refl _ s.index) _⟩

/-! ## What a run keeps -/

theorem Begins.steady (h : r.Begins) (hd : d.Sound) : r.Steady d := by
  rcases h with ⟨extension, rfl⟩ | ⟨path, d₀, hload⟩
  · exact ⟨hd, nofun, nofun⟩
  · obtain ⟨m, _, rfl⟩ := load_eq_ok.mp hload
    have hidle := idle_ofManifest (baseOf path) m
    refine ⟨hd, fun s hs => ⟨fun x hx => ?_, fun x hx => ?_⟩, fun s hs => ?_⟩
    · obtain ⟨_, _, rfl⟩ := List.mem_map.mp hs
      cases hx
    · rw [hidle s hs] at hx
      cases hx
    · exact hidle s (List.dropLast_subset _ hs)

theorem LeavesIndexes.keepsRecords (h : r.LeavesIndexes d d') (hs : s ∈ r.segments) :
    d.KeepsRecords d' s.index := by
  intro i hi
  obtain ⟨hi', hcontent, hmedium⟩ := h s hs i hi
  exact ⟨hi', hmedium, .inl hcontent⟩

theorem Undisturbed.steady {r₀ : Recording} {w₀ : World} (h : Undisturbed r₀ w₀ os r w)
    (h₀ : r₀.Steady w₀.disk) : r.Steady w.disk ∧ Continues r₀ w₀.disk os r w.disk := by
  induction h with
  | start => exact ⟨h₀, .of_marks rfl (fun s _ => .refl _ s.index) _⟩
  | based directory _ ih =>
    obtain ⟨hsteady, hcontinues⟩ := ih
    exact ⟨⟨hsteady.sound, hsteady.segment, hsteady.idle⟩, ⟨hcontinues.marks, hcontinues.indexes⟩⟩
  | performed o _ hm ih =>
    obtain ⟨hsteady, hcontinues⟩ := ih
    obtain ⟨hsteady', hstep⟩ := hsteady.turn hm (turn_perform _ _ o)
    exact ⟨hsteady', hcontinues.trans hstep⟩
  | @elsewhere os r w w' _ hsound hleaves ih =>
    obtain ⟨hsteady, hcontinues⟩ := ih
    have hkeeps := fun s (hs : s ∈ r.segments) => hleaves.keepsRecords hs
    have hstep : Continues r w.disk [] r w'.disk :=
      .of_marks rfl (fun s hs => (hkeeps s hs).lengthens) []
    refine ⟨hsteady.keeps hsound hkeeps, ?_⟩
    have := hcontinues.trans hstep
    rwa [List.append_nil] at this

end

end Recording

end Timeshift
