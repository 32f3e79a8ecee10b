import Timeshift.Manifest
import Timeshift.Proofs.Index.Handle
import Timeshift.Segment

/-!
# One segment

Asking a segment may open its index and changes nothing else of it. Ending its recording fixes where
it stops and lets the writer go. `Indexed` ties a segment to the file that its index is and to the
row of records in it; whatever handle the segment answers through, it answers from that row.
-/

namespace Timeshift

/-! ## The later of two times -/

theorem word_max (a b : UInt64) : max a b = if a ≤ b then b else a := rfl

theorem left_le_max (a b : UInt64) : a ≤ max a b := by
  rw [word_max]
  split
  · assumption
  · exact UInt64.le_refl a

theorem right_le_max (a b : UInt64) : b ≤ max a b := by
  rw [word_max]
  split
  · exact UInt64.le_refl b
  · rename_i h; exact UInt64.le_of_lt (UInt64.not_le.mp h)

theorem word_max_comm (a b : UInt64) : max a b = max b a := by
  rw [word_max, word_max]
  by_cases hab : a ≤ b
  · by_cases hba : b ≤ a
    · rw [if_pos hab, if_pos hba, UInt64.le_antisymm hab hba]
    · rw [if_pos hab, if_neg hba]
  · rw [if_neg hab, if_pos (UInt64.le_of_lt (UInt64.not_le.mp hab))]

theorem word_max_later {a c : UInt64} (h : a ≤ c) (b : UInt64) : max (max a b) c = max c b := by
  rw [word_max a b]
  by_cases hab : a ≤ b
  · rw [if_pos hab, word_max_comm]
  · have hbc := UInt64.le_trans (UInt64.le_of_lt (UInt64.not_le.mp hab)) h
    rw [if_neg hab, word_max a c, if_pos h, word_max_comm, word_max, if_pos hbc]

namespace Segment

def item (s : Segment) : Manifest.Item := ⟨s.path, s.start, s.stop⟩

def SameButReader (s t : Segment) : Prop := t = { s with reader := t.reader }

def handle (s : Segment) (d : Disk) : Except Error Index :=
  match s.writer, s.reader with
  | some x, _ | none, some x => .ok x
  | none, none => Index.openPlayback s.index d

/-- The same segment at another point of its recording. -/
structure SamePlace (s t : Segment) : Prop where
  path : t.path = s.path
  file : t.file = s.file
  index : t.index = s.index
  start : t.start = s.start

section
variable {s t : Segment} {d : Disk} {w : World} {x : Index} {i : FileId}

theorem SameButReader.samePlace (h : SameButReader s t) : SamePlace s t := by
  rw [h]
  exact ⟨rfl, rfl, rfl, rfl⟩

/-! ## Asking -/

theorem query_fst (s : Segment) (ask : Index → Except Error α) (d : Disk) :
    (s.query ask d).1 = s.handle d >>= ask := by
  cases hw : s.writer with
  | some x => simp only [Segment.query, handle, hw, ok_bind]
  | none =>
    cases hr : s.reader with
    | some x => simp only [Segment.query, handle, hw, hr, ok_bind]
    | none =>
      simp only [Segment.query, handle, hw, hr]
      cases Index.openPlayback s.index d with
      | ok x => rfl
      | error e => rfl

/-- A question opens the index of a segment that has nothing open, if it can be opened. -/
theorem query_snd (s : Segment) (ask : Index → Except Error α) (d : Disk) :
    (s.query ask d).2 = s ∨ ∃ x, s.writer = none ∧ s.reader = none ∧
      Index.openPlayback s.index d = .ok x ∧ (s.query ask d).2 = { s with reader := some x } := by
  unfold query
  split
  · exact .inl rfl
  · exact .inl rfl
  · rename_i hw hr
    split
    · rename_i x hopen
      exact .inr ⟨x, hw, hr, hopen, rfl⟩
    · exact .inl rfl

theorem query_sameButReader (s : Segment) (ask : Index → Except Error α) (d : Disk) :
    SameButReader s (s.query ask d).2 := by
  rcases s.query_snd ask d with h | ⟨x, _, _, _, h⟩
  · rw [h]
    rfl
  · rw [h]
    rfl

theorem handle_query (s : Segment) (ask : Index → Except Error α) (d : Disk) :
    (s.query ask d).2.handle d = s.handle d := by
  rcases s.query_snd ask d with h | ⟨x, hw, hr, hopen, h⟩
  · rw [h]
  · unfold handle
    rw [h, hw, hr, hopen]

theorem handle_eq_ok (h : s.handle d = .ok x) :
    s.writer = some x ∨ s.reader = some x ∨ Index.openPlayback s.index d = .ok x := by
  unfold handle at h
  split at h
  · rename_i hw
    exact .inl (hw.trans (congrArg some (Except.ok.inj h)))
  · rename_i hr
    exact .inr (.inl (hr.trans (congrArg some (Except.ok.inj h))))
  · exact .inr (.inr h)

theorem handle_eq_error {e : Error} (h : s.handle d = .error e) :
    s.writer = none ∧ s.reader = none ∧ Index.openPlayback s.index d = .error e := by
  unfold handle at h
  split at h
  · cases h
  · cases h
  · rename_i hw hr
    exact ⟨hw, hr, h⟩

theorem entries_query {α : Type} (s : Segment) (ask : Index → Except Error α) (d : Disk) :
    ((s.query ask d).2.entries d).1 = (s.entries d).1 := by
  unfold Segment.entries
  rw [query_fst, query_fst, handle_query]

theorem entries_of_handle (h : s.handle d = .ok x) (hx : x.file = some i) :
    (s.entries d).1 = .ok (Entry.readAll (d.content i)) := by
  unfold Segment.entries
  rw [query_fst, h, ok_bind, (Index.describes_of_file hx d).entries]

/-! ## Ending a recording -/

theorem start_le_stopAfter (h : s.start ≤ s.stop) (last : Option Entry) :
    s.start ≤ s.stopAfter last := by
  cases last with
  | none => exact h
  | some e => exact right_le_max _ _

theorem finish_writer {x : Index} (h : s.writer = some x) (w : World) :
    s.finish w = ({ s with writer := none, stop := s.stopAfter x.tail }, x.release w) := by
  unfold finish
  rw [h]

theorem finish_reader (h : s.writer = none) (w : World) :
    ∃ t, SameButReader s t ∧ t = (s.query (·.last? w.disk) w.disk).2 ∧
      s.finish w = ({ t with
        stop := t.stopAfter (s.query (·.last? w.disk) w.disk).1.toOption.join }, w) := by
  refine ⟨_, query_sameButReader s (·.last? w.disk) w.disk, rfl, ?_⟩
  unfold finish
  rw [h]

theorem finish_samePlace (s : Segment) (w : World) : SamePlace s (s.finish w).1 := by
  cases hx : s.writer with
  | some x => rw [finish_writer hx]; exact ⟨rfl, rfl, rfl, rfl⟩
  | none =>
    obtain ⟨t, ht, _, hf⟩ := finish_reader hx w
    have := ht.samePlace
    rw [hf]
    exact ⟨this.path, this.file, this.index, this.start⟩

theorem finish_inactive (s : Segment) (w : World) : (s.finish w).1.writer = none := by
  cases hx : s.writer with
  | some x => rw [finish_writer hx]
  | none =>
    obtain ⟨t, ht, _, hf⟩ := finish_reader hx w
    rw [hf, ht]
    exact hx

theorem finish_span (h : s.start ≤ s.stop) (w : World) :
    (s.finish w).1.start ≤ (s.finish w).1.stop := by
  cases hx : s.writer with
  | some x => rw [finish_writer hx]; exact start_le_stopAfter h _
  | none =>
    obtain ⟨t, ht, _, hf⟩ := finish_reader hx w
    rw [hf]
    refine start_le_stopAfter (s := t) ?_ _
    rw [ht]
    exact h

end

/-! ## A segment and its index file -/

/-- The index of the segment is the file `i` at the place `n`, and holds the row `es`. What the
segment has open is on this file, and its writer knows the row. -/
structure Indexed (s : Segment) (d : Disk) (n : Name) (i : FileId) (es : List Entry) : Prop where
  place : d.LeadsTo s.index n
  node : d.node? n = some (.file i)
  content : d.content i = Entry.encodeAll es
  ordered : Index.IsOrdered es
  writer : ∀ x, s.writer = some x → x.Tracks i es
  reader : ∀ x, s.reader = some x → x.file = some i

section
variable {s t : Segment} {d d' : Disk} {n : Name} {i : FileId} {es : List Entry} {w : World}

theorem Indexed.frame (h : s.Indexed d n i es) (he : Disk.Extends d d')
    (hn : d'.node? n = some (.file i)) (hc : d'.content i = d.content i) : s.Indexed d' n i es :=
  ⟨h.place.mono he, hn, hc.trans h.content, h.ordered, h.writer, h.reader⟩

theorem Indexed.lookUp (h : s.Indexed d n i es) : d.lookUp s.index = .ok (.file i) :=
  Disk.lookUp_eq_file.mpr ⟨n, h.place, h.node⟩

theorem Indexed.handle (h : s.Indexed d n i es) : ∃ x, s.handle d = .ok x ∧ x.file = some i := by
  cases hh : s.handle d with
  | ok x =>
    refine ⟨x, rfl, ?_⟩
    rcases handle_eq_ok hh with hw | hr | hopen
    · exact (h.writer x hw).file
    · exact h.reader x hr
    · obtain ⟨j, hl, _, rfl⟩ := Index.openPlayback_eq_ok.mp hopen
      rw [h.lookUp] at hl
      cases hl
      rfl
  | error e =>
    have hrow : Entry.readAll (d.content i) = es := by rw [h.content, Entry.readAll_encodeAll]
    have hopen := Index.openPlayback_eq_ok.mpr ⟨i, h.lookUp, hrow ▸ h.ordered, rfl⟩
    rw [(handle_eq_error hh).2.2] at hopen
    cases hopen

/-- The segment answers through some handle on the file, and what it opens is on the file too. -/
theorem Indexed.query {α : Type} (h : s.Indexed d n i es) (ask : Index → Except Error α) :
    (∃ x, x.file = some i ∧ (s.query ask d).1 = ask x) ∧
      (s.query ask d).2.Indexed d n i es := by
  constructor
  · obtain ⟨x, hx, hi⟩ := h.handle
    exact ⟨x, hi, by rw [query_fst, hx, ok_bind]⟩
  · rcases s.query_snd ask d with hs | ⟨x, _, _, hopen, hs⟩
    · rw [hs]
      exact h
    · obtain ⟨j, hl, _, rfl⟩ := Index.openPlayback_eq_ok.mp hopen
      rw [h.lookUp] at hl
      cases hl
      rw [hs]
      exact ⟨h.place, h.node, h.content, h.ordered, h.writer, fun y hy => by cases hy; rfl⟩

theorem Indexed.last? (h : s.Indexed d n i es) :
    (s.query (·.last? d) d).1 = .ok es.getLast? := by
  obtain ⟨x, hx, hq⟩ := (h.query (·.last? d)).1
  rw [hq, (Index.describes_of_file hx d).last, h.content, Entry.readAll_encodeAll]

theorem Indexed.finish (h : s.Indexed w.disk n i es) : (s.finish w).2.disk = w.disk ∧
    (s.finish w).1.stop = s.stopAfter es.getLast? ∧ (s.finish w).1.Indexed w.disk n i es := by
  cases hx : s.writer with
  | some x =>
    rw [finish_writer hx, (h.writer x hx).tail]
    exact ⟨Index.disk_release x w, rfl, h.place, h.node, h.content, h.ordered, nofun, h.reader⟩
  | none =>
    obtain ⟨t, ht, hq, hf⟩ := finish_reader hx w
    have hi := (h.query (·.last? w.disk)).2
    rw [← hq] at hi
    rw [hf, h.last?]
    refine ⟨rfl, ?_, hi.place, hi.node, hi.content, hi.ordered, hi.writer, hi.reader⟩
    rw [ht]
    rfl

end

end Segment

end Timeshift
