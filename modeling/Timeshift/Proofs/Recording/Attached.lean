import Timeshift.Proofs.Index.Searching
import Timeshift.Proofs.Recording.Representation

/-!
# What a recording has open

As long as the names of its index files are left alone, whatever a recording has open is the file
that the index path leads to, and so it answers from what stands in that file.
-/

namespace Timeshift

namespace Disk

def KeepsFiles (d d' : Disk) : Prop :=
  ∀ p i, d.lookUp p = .ok (.file i) → d'.lookUp p = .ok (.file i)

section
variable {d d' : Disk} {p : Path} {i : FileId}

theorem KeepsFiles.refl (d : Disk) : KeepsFiles d d := fun _ _ h => h

theorem KeepsFiles.trans {d₁ d₂ d₃ : Disk} (h₁ : KeepsFiles d₁ d₂) (h₂ : KeepsFiles d₂ d₃) :
    KeepsFiles d₁ d₃ := by
  intro p i h
  exact h₂ p i (h₁ p i h)

theorem ChangesOnly.keepsFiles (h : ChangesOnly i d d') : KeepsFiles d d' := by
  intro p j hj
  rw [h.lookUp_eq]
  exact hj

theorem ChangesMedia.keepsFiles {P : Medium → Prop} (h : ChangesMedia P d d') :
    KeepsFiles d d' := by
  intro p j hj
  rw [h.lookUp_eq]
  exact hj

theorem keepsFiles_openCreate (h : d.openCreate p = .ok (i, d')) : KeepsFiles d d' := by
  intro q j hj
  obtain ⟨m, hm, hnode⟩ := lookUp_eq_file.mp hj
  obtain ⟨n, hn, _, hnodes, _⟩ := changesAt_of_openCreate h
  refine lookUp_eq_file.mpr ⟨m, hm.mono (openCreate_extends h), ?_⟩
  rw [hnodes]
  split
  · -- a place where there is a file already gets no other
    rename_i hmn
    subst hmn
    rw [openCreate_of_leadsTo hn, hnode] at h
    cases h
    rfl
  · exact hnode

end

end Disk

namespace Index

section
variable {x : Index} {e : Entry} {w : World} {path : Path}

theorem keepsFiles_write (x : Index) (e : Entry) (w : World) :
    Disk.KeepsFiles w.disk (x.write e w).2.disk := by
  rcases x.write_touches e w with hd | ⟨i, _, hchange⟩
  · rw [hd]
    exact .refl _
  · exact hchange.keepsFiles

theorem keepsFiles_openRecord (path : Path) (w : World) :
    Disk.KeepsFiles w.disk (openRecord path w).2.disk := by
  cases h : openRecord path w with
  | mk result w' =>
    cases result with
    | ok x =>
      obtain ⟨i, d, hopen, _, _, hchange, _⟩ := openRecord_ok h
      exact (Disk.keepsFiles_openCreate hopen).trans hchange.keepsFiles
    | error err =>
      rcases openRecord_error h with hd | ⟨i, _, hchange, _⟩
      · rw [hd]
        exact .refl _
      · exact hchange.keepsFiles

inductive Answers (es : List Entry) (time : UInt64) : Except Error UInt64 → Prop
  | found {e : Entry} : e ∈ es → e.timestamp ≤ time → Entry.latest? es time = some e →
      Answers es time (.ok e.offset)
  | notFound {what : String} : (∀ e ∈ es, time < e.timestamp) →
      Answers es time (.error (.notFound what))

theorem answers_lookUp {d : Disk} {i : FileId} (hx : x.file = some i)
    (ho : IsOrdered (Entry.readAll (d.content i))) (time : UInt64) :
    Answers (Entry.readAll (d.content i)) time (x.lookUp time d) := by
  rw [lookUp_of_file hx]
  rcases search_cases x.path ho time with ⟨e, he, hle, hlatest, hs⟩ | ⟨hlate, what, hs⟩
  · rw [hs]
    exact .found he hle hlatest
  · rw [hs]
    exact .notFound hlate

/-- The answer is a record of exactly the time if there is one. -/
theorem Answers.exact_iff {es : List Entry} {time : UInt64} {answer : Except Error UInt64}
    (h : Answers es time answer) : (∃ e, answer = .ok e.offset ∧
      Entry.latest? es time = some e ∧ e.timestamp = time) ↔ ∃ e ∈ es, e.timestamp = time := by
  cases h with
  | @found e he het hlatest =>
    constructor
    · rintro ⟨y, _, hy, hyt⟩
      rw [hlatest] at hy
      cases hy
      exact ⟨e, he, hyt⟩
    · rintro ⟨y, hy, hyt⟩
      refine ⟨e, rfl, hlatest, UInt64.le_antisymm het ?_⟩
      rw [← latestBy?_timestamp, latestBy?_eq_some] at hlatest
      rw [← hyt]
      exact hlatest.2.1 y hy (hyt ▸ UInt64.le_refl _)
  | notFound hnone =>
    constructor
    · rintro ⟨y, hok, _⟩
      cases hok
    · rintro ⟨y, hy, hyt⟩
      exact absurd (hnone y hy) (UInt64.not_lt.mpr (hyt ▸ UInt64.le_refl _))

end

end Index

namespace Segment

section
variable {s t : Segment} {d d' : Disk} {w : World} {i : FileId}

theorem disk_finish (s : Segment) (w : World) : (s.finish w).2.disk = w.disk := by
  cases hx : s.writer with
  | some x =>
    rw [finish_writer hx]
    exact Index.disk_release x w
  | none =>
    obtain ⟨t, _, _, hf⟩ := finish_reader hx w
    rw [hf]

/-- What the segment has open is the file that its index path leads to. -/
def Attached (s : Segment) (d : Disk) : Prop :=
  ∀ x, s.writer = some x ∨ s.reader = some x →
    ∃ i, x.file = some i ∧ d.lookUp s.index = .ok (.file i)

theorem Attached.frame (h : s.Attached d)
    (hk : ∀ i, d.lookUp s.index = .ok (.file i) → d'.lookUp s.index = .ok (.file i)) :
    s.Attached d' := by
  intro x hx
  obtain ⟨i, hi, hl⟩ := h x hx
  exact ⟨i, hi, hk i hl⟩

theorem Attached.query (h : s.Attached d) (ask : Index → Except Error α) :
    (s.query ask d).2.Attached d := by
  rcases s.query_snd ask d with hs | ⟨x, hw, _, hopen, hs⟩
  · rw [hs]
    exact h
  · obtain ⟨i, hl, _, rfl⟩ := Index.openPlayback_eq_ok.mp hopen
    rw [hs]
    intro y hy
    rcases hy with hy | hy
    · rw [hw] at hy
      cases hy
    · cases hy
      exact ⟨i, rfl, hl⟩

theorem Attached.finish (h : s.Attached w.disk) : (s.finish w).1.Attached w.disk := by
  cases hx : s.writer with
  | some x =>
    rw [finish_writer hx]
    intro y hy
    exact h y (.inr (hy.resolve_left nofun))
  | none =>
    obtain ⟨t, _, ht, hf⟩ := finish_reader hx w
    rw [hf]
    exact ht ▸ h.query (·.last? w.disk)

theorem Indexed.attached {n : Name} {es : List Entry} (h : s.Indexed d n i es) :
    s.Attached d := by
  intro x hx
  refine ⟨i, ?_, h.lookUp⟩
  rcases hx with hx | hx
  · exact (h.writer x hx).file
  · exact h.reader x hx

theorem Attached.handle_file (h : s.Attached d) (hl : d.lookUp s.index = .ok (.file i))
    {x : Index} (hh : s.handle d = .ok x) : x.file = some i := by
  have hfile : ∃ j, x.file = some j ∧ d.lookUp s.index = .ok (.file j) := by
    rcases handle_eq_ok hh with hw | hr | hopen
    · exact h x (.inl hw)
    · exact h x (.inr hr)
    · obtain ⟨j, hj, _, rfl⟩ := Index.openPlayback_eq_ok.mp hopen
      exact ⟨j, rfl, hj⟩
  obtain ⟨j, hj, hlj⟩ := hfile
  rw [hl] at hlj
  cases hlj
  exact hj

/-- A segment answers from the row in its index file. -/
theorem Attached.lookUp (h : s.Attached d) (hl : d.lookUp s.index = .ok (.file i))
    (ho : Index.IsOrdered (Entry.readAll (d.content i))) (time : UInt64) :
    Index.Answers (Entry.readAll (d.content i)) time (s.query (·.lookUp time d) d).1 := by
  rw [query_fst]
  cases hh : s.handle d with
  | error e =>
    have hopen := Index.openPlayback_eq_ok.mpr ⟨i, hl, ho, rfl⟩
    rw [(handle_eq_error hh).2.2] at hopen
    cases hopen
  | ok x => exact Index.answers_lookUp (h.handle_file hl hh) ho time

end

end Segment

namespace Recording

def Attached (r : Recording) (d : Disk) : Prop := ∀ s ∈ r.segments, s.Attached d

section
variable {r r' : Recording} {s t : Segment} {k : Nat} {d d' : Disk} {w w' : World}
  {path : SegmentPath} {start time : UInt64} {e : Entry} {init : List Segment} {i : FileId}

theorem Attached.frame (h : r.Attached d) (hk : d.KeepsFiles d') : r.Attached d' := by
  intro s hs
  exact (h s hs).frame (hk s.index)

theorem disk_finishLast (r : Recording) (w : World) : (r.finishLast w).2.disk = w.disk := by
  rcases finishLast_cases r w with ⟨_, hf⟩ | ⟨init, s, _, hf⟩
  · rw [hf]
  · rw [hf]
    exact s.disk_finish w

theorem Attached.finishLast (h : r.Attached w.disk) : (r.finishLast w).1.Attached w.disk := by
  rcases finishLast_cases r w with ⟨_, hf⟩ | ⟨init, s, hr, hf⟩
  · rw [hf]
    exact h
  · rw [hf]
    intro u hu
    rcases List.mem_append.mp hu with hu | hu
    · exact h u (by rw [hr]; exact List.mem_append_left _ hu)
    · rw [List.mem_singleton.mp hu]
      exact (h s (by rw [hr]; simp)).finish

theorem keepsFiles_append (r : Recording) (path : SegmentPath) (start : UInt64) (w : World) :
    w.disk.KeepsFiles (r.append path start w).2.disk := by
  unfold append
  split
  · exact .refl _
  · have := Index.keepsFiles_openRecord ((r.fileOf path).indexPath r.extension) w
    simp only
    split
    · rename_i hopen
      rwa [hopen] at this
    · rename_i hopen
      rw [hopen] at this
      simp only [disk_finishLast]
      exact this

theorem Attached.append (h : r.Attached w.disk) (ha : r.append path start w = (.ok r', w')) :
    r'.Attached w'.disk := by
  have hkeeps := keepsFiles_append r path start w
  rw [ha] at hkeeps
  obtain ⟨_, x, w₁, hopen, rfl, rfl⟩ := append_eq_ok.mp ha
  rw [disk_finishLast] at hkeeps ⊢
  have hlast := (h.frame hkeeps).finishLast
  intro s hs
  rcases List.mem_append.mp hs with hs | hs
  · exact hlast s hs
  · rw [List.mem_singleton.mp hs]
    obtain ⟨i, d, hcreate, rfl, _, hchange, _⟩ := Index.openRecord_ok hopen
    intro y hy
    obtain rfl : y = _ := (Option.some.inj (hy.resolve_right nofun)).symm
    exact ⟨i, rfl, hchange.keepsFiles _ _ (Disk.lookUp_openCreate hcreate)⟩

theorem Attached.finish (h : r.Attached w.disk) : (r.finish w).1.Attached (r.finish w).2.disk := by
  unfold Recording.finish
  by_cases hf : r.finished = true
  · rw [if_pos hf]
    exact h
  · rw [if_neg hf, disk_finishLast]
    exact h.finishLast

theorem keepsFiles_record (r : Recording) (e : Entry) (w : World) :
    w.disk.KeepsFiles (r.record e w).2.disk := by
  unfold record
  split
  · exact .refl _
  · split
    · exact .refl _
    · rename_i x _
      have := Index.keepsFiles_write x e w
      split
      · rename_i hw
        rwa [hw] at this
      · rename_i hw
        rwa [hw] at this

theorem Attached.record (h : r.Attached w.disk) (hr : r.record e w = (.ok r', w')) :
    r'.Attached w'.disk := by
  have hkeeps := keepsFiles_record r e w
  rw [hr] at hkeeps
  obtain ⟨init, s, x, x', hs, hx, hwrite, rfl⟩ := record_eq_ok hr
  have hframe := h.frame hkeeps
  intro u hu
  rcases List.mem_append.mp hu with hu | hu
  · exact hframe u (by rw [hs]; exact List.mem_append_left _ hu)
  · rw [List.mem_singleton.mp hu]
    have hold := hframe s (by rw [hs]; simp)
    intro y hy
    rcases hy with hy | hy
    · cases hy
      rw [Index.write_eq_ok hwrite]
      exact hold x (.inl hx)
    · exact hold y (.inr hy)

def row (d : Disk) (s : Segment) : List Entry :=
  match d.openRead s.index with
  | .ok i => Entry.readAll (d.content i)
  | .error _ => []

theorem row_of_file (h : d.lookUp s.index = .ok (.file i)) :
    row d s = Entry.readAll (d.content i) := by
  unfold row
  rw [Disk.openRead_eq_ok.mpr h]

theorem row_of_indexed {n : Name} {es : List Entry} (h : s.Indexed d n i es) : row d s = es := by
  rw [row_of_file h.lookUp, h.content, Entry.readAll_encodeAll]

def HasRows (r : Recording) (d : Disk) : Prop :=
  ∀ s ∈ r.segments, (d.openRead s.index).isOk = true ∧ Index.IsOrdered (row d s)

/-- A time is looked up in the row of the last segment that starts at or before it. -/
theorem Attached.lookUp (h : r.Attached d) (hrows : r.HasRows d)
    (ho : r.segments.Pairwise fun s t => s.start ≤ t.start) (time : UInt64) :
    (∀ s ∈ r.segments, time < s.start) ∧
        (∃ what, (r.lookUp time d).1 = .error (.notFound what)) ∨
      ∃ a s b t answer, r.segments = a ++ s :: b ∧ s.start ≤ time ∧ (∀ u ∈ b, time < u.start) ∧
        s.SameButReader t ∧ Index.Answers (row d s) time answer ∧
        (r.lookUp time d).1 = answer.map (t, ·) := by
  rcases place?_cases ho time with ⟨hp, hlate⟩ | ⟨a, s, b, hab, hp, hle, hlate⟩
  · left
    obtain ⟨what, hwhat⟩ := r.beforeStart_eq time
    exact ⟨hlate, what, by rw [lookUp_none hp, hwhat]⟩
  · right
    have hs : r.segments[a.length]? = some s := by simp [hab]
    have hmem := List.mem_of_getElem? hs
    obtain ⟨hok, hord⟩ := hrows s hmem
    obtain ⟨i, hi⟩ := exists_of_isOk hok
    have hfile := Disk.openRead_eq_ok.mp hi
    rw [lookUp_some hp hs]
    refine ⟨a, s, b, _, _, hab, hle, hlate, s.query_sameButReader (·.lookUp time d) d, ?_, rfl⟩
    rw [row_of_file hfile] at hord ⊢
    exact (h s hmem).lookUp hfile hord time

end

end Recording

end Timeshift
