import Timeshift.Proofs.Recording.Confined
import Timeshift.Proofs.Recording.Undisturbed

/-!
# Readers that stay open

A segment opens its index on the first question and keeps it open. Meanwhile the index files may be
made, cut and written through recording handles. As these only put records behind those that are
there, in order, the segment goes on answering what it would if its index were opened anew.
-/

namespace Timeshift

namespace Index

def Knows (x : Index) (d : Disk) : Prop :=
  ∃ i es, x.Tracks i es ∧ d.lookUp x.path = .ok (.file i) ∧ d.content i = Entry.encodeAll es ∧
    IsOrdered es

/-- Recording handles in use at the same time, at most one for a file. -/
structure InHand (xs : List Index) (d : Disk) : Prop where
  knows : ∀ x ∈ xs, x.Knows d
  apart : (xs.map (·.file)).Nodup

section
variable {x x' : Index} {xs before after : List Index} {d d' : Disk} {w w' : World} {path : Path}
  {e : Entry} {err : Error}

theorem Knows.keeps (h : x.Knows d) (hk : d.KeepsRecords d' x.path) : x.Knows d' := by
  obtain ⟨i, es, htracks, hl, hc, ho⟩ := h
  obtain ⟨hl', _, hc'⟩ := hk i hl
  rw [hc, Entry.readAll_encodeAll, or_self] at hc'
  exact ⟨i, es, htracks, hl', hc', ho⟩

theorem InHand.keeps (h : InHand xs d) (hk : ∀ x ∈ xs, d.KeepsRecords d' x.path) :
    InHand xs d' :=
  ⟨fun x hx => (h.knows x hx).keeps (hk x hx), h.apart⟩

theorem knows_openRecord (hopen : openRecord path w = (.ok x, w')) : x.Knows w'.disk := by
  obtain ⟨i, d, hcreate, rfl, ho, hchange, hcontent⟩ := openRecord_ok hopen
  refine ⟨i, _, tracks_recorderOf path i _, ?_, hcontent, ho⟩
  apply hchange.keepsFiles
  exact Disk.lookUp_openCreate hcreate

theorem InHand.opened (h : InHand xs w.disk) (hs : w.disk.Sound)
    (hopen : openRecord path w = (.ok x, w')) (hnew : ∀ y ∈ xs, y.file ≠ x.file) :
    InHand (x :: xs) w'.disk := by
  have hkeeps := keepsRecords_openRecord hs path
  rw [hopen] at hkeeps
  have hold := h.keeps fun y _ => hkeeps y.path
  constructor
  · intro y hy
    rcases List.mem_cons.mp hy with rfl | hy
    · exact knows_openRecord hopen
    · exact hold.knows y hy
  · rw [List.map_cons, List.nodup_cons]
    refine ⟨?_, h.apart⟩
    intro hmem
    obtain ⟨y, hy, hxy⟩ := List.mem_map.mp hmem
    exact hnew y hy hxy

theorem InHand.perm {ys : List Index} (h : InHand xs d) (hp : xs.Perm ys) : InHand ys d :=
  ⟨fun x hx => h.knows x (hp.mem_iff.mpr hx), (hp.map _).nodup_iff.mp h.apart⟩

theorem InHand.wrote (h : InHand (x :: xs) w.disk)
    (hm : ∀ i, x.file = some i → (w.disk.medium i).Honest) (hw : x.write e w = (.ok x', w')) :
    InHand (x' :: xs) w'.disk ∧ (∃ i, w.disk.ChangesOnly i w'.disk) ∧
      ∀ p, w.disk.Lengthens w'.disk p := by
  obtain ⟨i, es, htracks, hl, hc, ho⟩ := h.knows x List.mem_cons_self
  obtain ⟨ha, htracks', hchange, hcontent⟩ := write_honest htracks hc (hm i htracks.file) hw
  have ho' := isOrdered_concat.mpr ⟨ho, ha⟩
  have hapart := h.apart
  rw [List.map_cons, List.nodup_cons] at hapart
  refine ⟨⟨?_, ?_⟩, ⟨i, hchange⟩, Recording.lengthens_of_written hchange hc hcontent ho'⟩
  · intro y hy
    rcases List.mem_cons.mp hy with rfl | hy
    · refine ⟨i, _, htracks', ?_, hcontent, ho'⟩
      rw [write_eq_ok hw]
      exact hchange.keepsFiles _ _ hl
    · have hknows := h.knows y (List.mem_cons_of_mem x hy)
      apply hknows.keeps
      apply hchange.keepsRecords_elsewhere
      -- the other handles are on other files
      intro hli
      obtain ⟨j, _, htracksy, hlj, _⟩ := hknows
      rw [hli] at hlj
      cases hlj
      apply hapart.1
      rw [htracks.file, ← htracksy.file]
      exact List.mem_map_of_mem hy
  · rw [List.map_cons, List.nodup_cons, htracks'.file, ← htracks.file]
    exact hapart

theorem InHand.notWrote (h : InHand (x :: xs) w.disk)
    (hm : ∀ i, x.file = some i → (w.disk.medium i).Exact) (hw : x.write e w = (.error err, w')) :
    InHand (x :: xs) w'.disk ∧ (∃ i, w.disk.ChangesOnly i w'.disk) ∧
      ∀ p, w.disk.KeepsRecords w'.disk p := by
  obtain ⟨i, es, htracks, _, hc, _⟩ := h.knows x List.mem_cons_self
  obtain ⟨hchange, hcontent⟩ := write_error htracks hc (hm i htracks.file) hw
  have hkeeps := hchange.keepsRecords (.inl (hcontent.trans hc.symm))
  exact ⟨h.keeps fun y _ => hkeeps y.path, ⟨i, hchange⟩, hkeeps⟩

theorem InHand.closed (h : InHand (x :: xs) w.disk) : InHand xs (x.release w).disk := by
  have hapart := h.apart
  rw [List.map_cons, List.nodup_cons] at hapart
  rw [disk_release]
  exact ⟨fun y hy => h.knows y (List.mem_cons_of_mem x hy), hapart.2⟩

end

end Index

namespace Segment

section
variable {s : Segment} {d : Disk}

/-- A reader that was opened earlier answers as one that is opened now: the checks on opening would
pass again, and all else is read from the file. -/
theorem query_eq_opened (hw : s.writer = none) (hsteady : s.Steady d)
    (hpath : ∀ x, s.reader = some x → x.path = s.index) (f : Path → Bytes → Except Error α) :
    (s.query (fun x => x.bytes d >>= f x.path) d).1 =
      (Index.openPlayback s.index d >>= fun x => x.bytes d >>= f x.path) := by
  rw [query_fst]
  cases hh : s.handle d with
  | error e =>
    rw [(handle_eq_error hh).2.2]
  | ok x =>
    rcases handle_eq_ok hh with hx | hr | hopen
    · rw [hw] at hx
      cases hx
    · obtain ⟨i, hi, hl, ho⟩ := hsteady.reader x hr
      rw [Index.openPlayback_eq_ok.mpr ⟨i, hl, ho, rfl⟩]
      simp only [ok_bind, hpath x hr, Index.bytes, hi]
    · rw [hopen]

theorem query_path (hpath : ∀ x, s.reader = some x → x.path = s.index)
    (ask : Index → Except Error α) :
    ∀ x, (s.query ask d).2.reader = some x → x.path = (s.query ask d).2.index := by
  rcases s.query_snd ask d with hs | ⟨y, _, _, hopen, hs⟩
  · rw [hs]
    exact hpath
  · rw [hs]
    intro x hx
    cases hx
    obtain ⟨i, _, _, rfl⟩ := Index.openPlayback_eq_ok.mp hopen
    rfl

end

end Segment

namespace Recording

def Operation.Asks : Operation → Prop
  | .lookUp _ | .lookUpIn _ _ | .entriesOf _ | .firstOf _ => True
  | _ => False

def shut (r : Recording) : Recording := { r with segments := r.segments.map Segment.shut }

def Leaves (paths : List Path) (d d' : Disk) : Prop :=
  ∀ p ∈ paths, ∀ i, d.lookUp p = .ok (.file i) →
    d'.lookUp p = .ok (.file i) ∧ d'.content i = d.content i ∧
      ((d.medium i).Exact → (d'.medium i).Exact)

/-- Questions brought `r₀` to `r`, and recording handles, of which `xs₀` were there and `xs` are now,
changed the index files meanwhile. -/
inductive Watched (r₀ : Recording) (xs₀ : List Index) (w₀ : World) :
    Recording → List Index → World → Prop
  | start : Watched r₀ xs₀ w₀ r₀ xs₀ w₀
  | asked {r : Recording} {xs : List Index} {w : World} (o : Operation) :
      Watched r₀ xs₀ w₀ r xs w → o.Asks → Watched r₀ xs₀ w₀ (r.perform w o).1 xs w
  | opened {r : Recording} {xs : List Index} {w w' : World} {path : Path} {x : Index} :
      Watched r₀ xs₀ w₀ r xs w → Index.openRecord path w = (.ok x, w') →
      (∀ y ∈ xs, y.file ≠ x.file) → Watched r₀ xs₀ w₀ r (x :: xs) w'
  | notOpened {r : Recording} {xs : List Index} {w w' : World} {path : Path} {err : Error} :
      Watched r₀ xs₀ w₀ r xs w → Index.openRecord path w = (.error err, w') →
      Watched r₀ xs₀ w₀ r xs w'
  | wrote {r : Recording} {xs : List Index} {w w' : World} {x x' : Index} {e : Entry} :
      Watched r₀ xs₀ w₀ r (x :: xs) w →
      (∀ i, x.file = some i → (w.disk.medium i).Honest) →
      x.write e w = (.ok x', w') → Watched r₀ xs₀ w₀ r (x' :: xs) w'
  | notWrote {r : Recording} {xs : List Index} {w w' : World} {x : Index} {e : Entry}
      {err : Error} : Watched r₀ xs₀ w₀ r (x :: xs) w →
      (∀ i, x.file = some i → (w.disk.medium i).Exact) →
      x.write e w = (.error err, w') → Watched r₀ xs₀ w₀ r (x :: xs) w'
  | closed {r : Recording} {xs : List Index} {w : World} {x : Index} :
      Watched r₀ xs₀ w₀ r (x :: xs) w → Watched r₀ xs₀ w₀ r xs (x.release w)
  | reordered {r : Recording} {xs ys : List Index} {w : World} :
      Watched r₀ xs₀ w₀ r xs w → xs.Perm ys → Watched r₀ xs₀ w₀ r ys w
  | elsewhere {r : Recording} {xs : List Index} {w : World} (w' : World) :
      Watched r₀ xs₀ w₀ r xs w → w'.disk.Sound →
      Leaves (r.segments.map (·.index) ++ xs.map (·.path)) w.disk w'.disk →
      Watched r₀ xs₀ w₀ r xs w'

structure AnswersAs (r fresh : Recording) (d : Disk) : Prop where
  lookUp : ∀ time, r.answer time d = fresh.answer time d
  lookUpIn : ∀ k time, (r.query k (·.lookUp time d)).1 = (fresh.query k (·.lookUp time d)).1
  entriesOf : ∀ k, (r.query k (·.entries d)).1 = (fresh.query k (·.entries d)).1
  firstOf : ∀ k, (r.query k (·.first? d)).1 = (fresh.query k (·.first? d)).1

/-- The recording is `r₀` but for what it has open, and that is the index files, in order. -/
structure Reads (r₀ r : Recording) (d : Disk) : Prop where
  same : r.shut = r₀
  idle : r.Idle
  steady : r.Steady d
  path : ∀ s ∈ r.segments, ∀ x, s.reader = some x → x.path = s.index

section
variable {r₀ r : Recording} {xs₀ xs : List Index} {w₀ w w' : World} {d d' : Disk} {s : Segment}
  {k : Nat} {o : Operation} {manifest : Path}

/-! ## What each step keeps -/

theorem reads_load (h : load manifest d = .ok r₀) (hs : d'.Sound) : Reads r₀ r₀ d' := by
  have hsteady := Begins.steady (.inr ⟨manifest, d, h⟩) hs
  obtain ⟨m, _, rfl⟩ := load_eq_ok.mp h
  refine ⟨?_, idle_ofManifest _ m, hsteady, ?_⟩
  · unfold shut ofManifest
    simp only [List.map_map]
    rfl
  · intro s hs x hx
    obtain ⟨_, _, rfl⟩ := List.mem_map.mp hs
    cases hx

theorem Reads.lengthens (h : Reads r₀ r d) (hs : d'.Sound)
    (hl : ∀ s ∈ r.segments, d.Lengthens d' s.index) : Reads r₀ r d' := by
  refine ⟨h.same, h.idle, ⟨hs, ?_, h.steady.idle⟩, h.path⟩
  intro s hm
  exact (h.steady.segment s hm).lengthens (hl s hm) (h.idle s hm)

theorem Reads.asked (h : Reads r₀ r d) (hs : r.segments[k]? = some s)
    (ask : Index → Except Error α) :
    Reads r₀ { r with segments := r.segments.set k (s.query ask d).2 } d := by
  have hmem := List.mem_of_getElem? hs
  have hsame := s.query_sameButReader ask d
  refine ⟨?_, ?_, (h.steady.asked hs ask []).1, ?_⟩
  · rw [← h.same]
    unfold shut
    rw [map_set hs hsame.shut_eq]
  · intro u hu
    rcases List.mem_or_eq_of_mem_set hu with hu | rfl
    · exact h.idle u hu
    · rw [hsame]
      exact h.idle s hmem
  · intro u hu
    rcases List.mem_or_eq_of_mem_set hu with hu | rfl
    · exact h.path u hu
    · exact Segment.query_path (h.path s hmem) ask

theorem Reads.perform (h : Reads r₀ r w.disk) (ho : o.Asks) :
    Reads r₀ (r.perform w o).1 w.disk := by
  have hturn := turn_perform r w o
  generalize hr : (r.perform w o).1 = r' at hturn
  generalize (r.perform w o).2 = w' at hturn
  cases hturn with
  | asked ask hs => exact h.asked hs ask
  | unanswered => exact h
  | _ => exact ho.elim

theorem Reads.openRecord (h : Reads r₀ r w.disk) (path : Path) :
    Reads r₀ r (Index.openRecord path w).2.disk := by
  apply h.lengthens (Index.sound_openRecord h.steady.sound path)
  intro s _
  exact (Index.keepsRecords_openRecord h.steady.sound path s.index).lengthens

/-! ## What a run keeps -/

theorem Leaves.keepsRecords {paths : List Path} {p : Path} (h : Leaves paths d d')
    (hp : p ∈ paths) : d.KeepsRecords d' p := by
  intro i hi
  obtain ⟨hi', hc, hm⟩ := h p hp i hi
  exact ⟨hi', hm, .inl hc⟩

theorem Watched.reads (h : Watched r₀ xs₀ w₀ r xs w) (h₀ : Reads r₀ r₀ w₀.disk)
    (hx : Index.InHand xs₀ w₀.disk) : Reads r₀ r w.disk ∧ Index.InHand xs w.disk := by
  induction h with
  | start => exact ⟨h₀, hx⟩
  | asked o _ ho ih => exact ⟨ih.1.perform ho, ih.2⟩
  | @opened r xs w w' path x _ hopen hnew ih =>
    have hreads := ih.1.openRecord path
    rw [hopen] at hreads
    exact ⟨hreads, ih.2.opened ih.1.steady.sound hopen hnew⟩
  | @notOpened r xs w w' path err _ hopen ih =>
    -- a torn end may have been cut off before the opening failed
    have hreads := ih.1.openRecord path
    have hkeeps := Index.keepsRecords_openRecord ih.1.steady.sound path
    rw [hopen] at hreads hkeeps
    exact ⟨hreads, ih.2.keeps fun x _ => hkeeps x.path⟩
  | wrote _ hm hw ih =>
    obtain ⟨hhand, ⟨i, hchange⟩, hlengthens⟩ := ih.2.wrote hm hw
    exact ⟨ih.1.lengthens (hchange.sound ih.1.steady.sound) fun s _ => hlengthens s.index, hhand⟩
  | notWrote _ hm hw ih =>
    obtain ⟨hhand, ⟨i, hchange⟩, hkeeps⟩ := ih.2.notWrote hm hw
    refine ⟨ih.1.lengthens (hchange.sound ih.1.steady.sound) ?_, hhand⟩
    exact fun s _ => (hkeeps s.index).lengthens
  | closed _ ih =>
    have hhand := ih.2.closed
    rw [Index.disk_release] at hhand ⊢
    exact ⟨ih.1, hhand⟩
  | reordered _ hp ih => exact ⟨ih.1, ih.2.perm hp⟩
  | elsewhere w' _ hsound hleaves ih =>
    refine ⟨ih.1.lengthens hsound ?_, ih.2.keeps ?_⟩
    · intro s hs
      apply Disk.KeepsRecords.lengthens
      apply hleaves.keepsRecords
      exact List.mem_append_left _ (List.mem_map_of_mem hs)
    · intro x hx
      apply hleaves.keepsRecords
      exact List.mem_append_right _ (List.mem_map_of_mem hx)

/-! ## Answers -/

theorem Reads.getElem? (h : Reads r₀ r d) (k : Nat) :
    r₀.segments[k]? = r.segments[k]?.map Segment.shut := by
  rw [← h.same]
  exact List.getElem?_map

/-- The segment answers as it would with nothing open. -/
theorem Reads.query_shut (h : Reads r₀ r d) (hs : s ∈ r.segments)
    (f : Path → Bytes → Except Error α) :
    (s.query (fun x => x.bytes d >>= f x.path) d).1 =
      (s.shut.query (fun x => x.bytes d >>= f x.path) d).1 := by
  have hshut : s.shut.Settled d := ⟨h.idle s hs, nofun⟩
  rw [s.shut.query_fst, hshut.handle]
  exact Segment.query_eq_opened (h.idle s hs) (h.steady.segment s hs) (h.path s hs) f

theorem Reads.query (h : Reads r₀ r d) (f : Path → Bytes → Except Error α) (k : Nat) :
    (r.query k (·.query (fun x => x.bytes d >>= f x.path) d)).1 =
      (r₀.query k (·.query (fun x => x.bytes d >>= f x.path) d)).1 := by
  unfold Recording.query
  rw [h.getElem?]
  cases hs : r.segments[k]? with
  | none => rfl
  | some s => exact h.query_shut (List.mem_of_getElem? hs) f

theorem Reads.answer (h : Reads r₀ r d) (time : UInt64) :
    r.answer time d = r₀.answer time d := by
  apply answer_congr
  · rw [← h.same]
    unfold shut
    rw [List.map_map]
    rfl
  · intro k s₀ s hs₀ hs
    rw [h.getElem?, hs] at hs₀
    cases hs₀
    exact h.query_shut (List.mem_of_getElem? hs)
      fun path bs => return (← Index.search path bs time).offset

theorem Reads.answersAs (h : Reads r₀ r d) : AnswersAs r r₀ d where
  lookUp := h.answer
  lookUpIn k time := h.query (fun path bs => return (← Index.search path bs time).offset) k
  entriesOf k := h.query (fun _ bs => return Entry.readAll bs) k
  firstOf k := h.query (fun _ bs => return Entry.readAt? bs 0) k

/-- At every moment a recording that was loaded answers as it would with nothing open, whatever was
asked before and with whatever outcome, and no question changes that. So it answers as one does that
is loaded now, if the manifest is still the same. -/
theorem readers_invisible (hload : load manifest w₀.disk = .ok r₀) (hs : w₀.disk.Sound)
    (hx : Index.InHand xs₀ w₀.disk) (h : Watched r₀ xs₀ w₀ r xs w) :
    AnswersAs r r₀ w.disk ∧
      (∀ o : Operation, o.Asks → AnswersAs (r.perform w o).1 r₀ w.disk) ∧
      (w.disk.read manifest = w₀.disk.read manifest → load manifest w.disk = .ok r₀) := by
  have hreads := (h.reads (reads_load hload hs) hx).1
  refine ⟨hreads.answersAs, ?_, fun hread => (load_congr hread).trans hload⟩
  intro o ho
  exact (hreads.perform ho).answersAs

end

/-! ## An index that comes late -/

def lateIndex : Path := ⟨"late.ts.idx"⟩

def lateStart : World := ⟨damaged wholeDisk, []⟩

def lateMissed : Recording := (pair.perform lateStart (.lookUpIn 1 25)).1

def lateWriter (tail : Option Entry) (written : Nat) : Index :=
  ⟨lateIndex, .record, some 3, tail, written, 0⟩

def lateMade : World := (Index.openRecord lateIndex lateStart).2

def lateFirst : World := ((lateWriter none 0).write ⟨22, 9⟩ lateMade).2

def lateFound : Recording := (lateMissed.perform lateFirst (.lookUpIn 1 25)).1

def lateSecond : World := ((lateWriter (some ⟨22, 9⟩) 1).write ⟨24, 11⟩ lateFirst).2

theorem sound_lateStart : lateStart.disk.Sound := by
  have hnodes : lateStart.disk.nodes =
    [(["rec.json".toList], .file 0), (["early.ts.idx".toList], .file 1)] := by decide +kernel
  apply Disk.sound_of_nodes
  · rfl
  · intro e he
    rw [hnodes] at he
    simp only [List.mem_cons, List.not_mem_nil, or_false] at he
    rcases he with rfl | rfl
    · rfl
    · rfl
  · intro e he i hi
    rw [hnodes] at he ⊢
    simp only [List.mem_cons, List.not_mem_nil, or_false] at he
    rcases he with rfl | rfl
    · cases hi
      decide +kernel
    · cases hi
      decide +kernel

theorem watched_late :
    Watched pair [] lateStart lateFound [lateWriter (some ⟨24, 11⟩) 2] lateSecond := by
  have hmade : Index.openRecord lateIndex lateStart = (.ok (lateWriter none 0), lateMade) :=
    Prod.ext (by decide +kernel) rfl
  have hfirst : (lateWriter none 0).write ⟨22, 9⟩ lateMade =
      (.ok (lateWriter (some ⟨22, 9⟩) 1), lateFirst) := Prod.ext (by decide +kernel) rfl
  have hsecond : (lateWriter (some ⟨22, 9⟩) 1).write ⟨24, 11⟩ lateFirst =
      (.ok (lateWriter (some ⟨24, 11⟩) 2), lateSecond) := Prod.ext (by decide +kernel) rfl
  have hregular : lateMade.disk.medium 3 = .regular ∧ lateFirst.disk.medium 3 = .regular := by
    decide +kernel
  have hmissed : Watched pair [] lateStart lateMissed [] lateStart := .asked _ .start trivial
  have hopened := (hmissed.opened hmade nofun).wrote ?_ hfirst
  · refine (hopened.asked (.lookUpIn 1 25) trivial).wrote ?_ hsecond
    intro i hi
    cases hi
    rw [hregular.2]
    exact Medium.faithful_regular.honest
  · intro i hi
    cases hi
    rw [hregular.1]
    exact Medium.faithful_regular.honest

/-- The first answer is an error. The reader that is opened for the second finds the record that
comes after it. -/
theorem readers_invisible_late :
    (pair.query 1 (·.lookUp 25 lateStart.disk)).1 = .error (.notFound "late.ts.idx") ∧
      (lateFound.query 1 (·.lookUp 25 lateSecond.disk)).1 = .ok 11 ∧
      ∃ fresh, load pairPath lateSecond.disk = .ok fresh ∧
        AnswersAs lateFound fresh lateSecond.disk := by
  have hsame : lateStart.disk.read pairPath = wholeDisk.read pairPath := by
    unfold lateStart wholeDisk
    rw [(read_pairDisk _).1, (read_pairDisk _).2]
  have hload := (load_congr hsame).trans load_pair
  have hnone : Index.InHand [] lateStart.disk :=
    ⟨fun _ hx => absurd hx List.not_mem_nil, List.nodup_nil⟩
  have hread : lateSecond.disk.read pairPath = lateStart.disk.read pairPath := rfl
  obtain ⟨hanswers, _, hfresh⟩ := readers_invisible hload sound_lateStart hnone watched_late
  refine ⟨?_, ?_, pair, hfresh hread, hanswers⟩
  · decide +kernel
  · decide +kernel

end Recording

end Timeshift
