import Timeshift.Player
import Timeshift.Proofs.Recording.Representation

/-!
# What a segment answers through

A segment answers through its writer, else through the reader it has open, else through its index
opened now, and asking it does not change which. So a player that asks the same segment twice asks
one handle. Whatever was done to a recording, a handle that it has is open on some file.
-/

namespace Timeshift

namespace Segment

def startThrough (s : Segment) (handle : Except Error Index) (d : Disk) : Except Error Position :=
  (handle >>= (·.first? d)).map (Player.positionOf s)

def positionThrough (s : Segment) (handle : Except Error Index) (clamp : Bool) (time : UInt64)
    (d : Disk) : Except Error Position :=
  match handle >>= (·.lookUp time d) with
  | .ok offset => .ok ⟨s.file, offset, false⟩
  | .error e => if e.isNotFound && clamp then s.startThrough handle d else .error e

def ReaderOpen (s : Segment) : Prop := ∀ x, s.reader = some x → ∃ i, x.file = some i

section
variable {s t : Segment} {d : Disk} {x : Index}

theorem SameButReader.startThrough (h : s.SameButReader t) (handle : Except Error Index)
    (d : Disk) : t.startThrough handle d = s.startThrough handle d := by
  rw [h]
  rfl

theorem openPlayback_file (h : Index.openPlayback s.index d = .ok x) : ∃ i, x.file = some i := by
  obtain ⟨i, _, _, rfl⟩ := Index.openPlayback_eq_ok.mp h
  exact ⟨i, rfl⟩

theorem ReaderOpen.query (h : s.ReaderOpen) (ask : Index → Except Error α) (d : Disk) :
    (s.query ask d).2.ReaderOpen := by
  rcases s.query_snd ask d with hs | ⟨x, _, _, hopen, hs⟩
  · rw [hs]
    exact h
  · rw [hs]
    intro y hy
    cases hy
    exact openPlayback_file hopen

theorem ReaderOpen.finish (h : s.ReaderOpen) (w : World) : (s.finish w).1.ReaderOpen := by
  cases hx : s.writer with
  | some x =>
    rw [finish_writer hx]
    exact h
  | none =>
    obtain ⟨t, _, ht, hf⟩ := finish_reader hx w
    rw [hf]
    exact ht ▸ h.query (·.last? w.disk) w.disk

end

end Segment

namespace Recording

section
variable {r₀ r r' : Recording} {s : Segment} {w w' : World} {d : Disk} {x : Index} {o : Operation}

/-! ## Handles are open -/

theorem readersOpen_finishLast (h : ∀ s ∈ r.segments, s.ReaderOpen) (w : World) :
    ∀ s ∈ (r.finishLast w).1.segments, s.ReaderOpen := by
  rcases finishLast_cases r w with ⟨_, hf⟩ | ⟨init, t, hr, hf⟩
  · rw [hf]
    exact h
  · rw [hf]
    intro s hs
    rcases List.mem_append.mp hs with hs | hs
    · exact h s (by rw [hr]; exact List.mem_append_left _ hs)
    · rw [List.mem_singleton.mp hs]
      exact (h t (by rw [hr]; simp)).finish w

theorem readersOpen_turn (h : ∀ s ∈ r.segments, s.ReaderOpen) (ht : Turn r w o r' w') :
    ∀ s ∈ r'.segments, s.ReaderOpen := by
  cases ht with
  | appended ha =>
    obtain ⟨_, x, w₁, _, rfl, _⟩ := append_eq_ok.mp ha
    intro s hs
    rcases List.mem_append.mp hs with hs | hs
    · exact readersOpen_finishLast h w₁ s hs
    · rw [List.mem_singleton.mp hs]
      exact nofun
  | notAppended _ => exact h
  | recorded hr =>
    obtain ⟨init, t, _, _, hinit, _, _, rfl⟩ := record_eq_ok hr
    intro s hs
    rcases List.mem_append.mp hs with hs | hs
    · exact h s (by rw [hinit]; exact List.mem_append_left _ hs)
    · rw [List.mem_singleton.mp hs]
      exact h t (by rw [hinit]; simp)
  | notRecorded _ => exact h
  | finished =>
    rcases r.finish_cases w with hf | ⟨_, hf⟩
    · rw [hf]
      exact h
    · rw [hf]
      exact readersOpen_finishLast h w
  | stored path => exact h
  | @asked _ α ask k s hs =>
    intro u hu
    rcases List.mem_or_eq_of_mem_set hu with hu | rfl
    · exact h u hu
    · exact (h s (List.mem_of_getElem? hs)).query ask w.disk
  | unanswered => exact h

theorem readersOpen_begins (h : r.Begins) : ∀ s ∈ r.segments, s.ReaderOpen := by
  rcases h with ⟨extension, rfl⟩ | ⟨path, d, hload⟩
  · exact fun _ hs => nomatch hs
  · obtain ⟨m, _, rfl⟩ := load_eq_ok.mp hload
    intro s hs
    obtain ⟨_, _, rfl⟩ := List.mem_map.mp hs
    exact nofun

theorem Came.readersOpen (hb : r₀.Begins) (hr : Came r₀ r) : ∀ s ∈ r.segments, s.ReaderOpen := by
  induction hr with
  | start => exact readersOpen_begins hb
  | based directory _ _ ih => exact ih
  | performed o w _ ih => exact readersOpen_turn ih (turn_perform _ w o)

/-- Whatever a segment answers through is open on some file. -/
theorem Came.handle_file (hb : r₀.Begins) (hr : Came r₀ r) (hs : s ∈ r.segments)
    (h : s.handle d = .ok x) : ∃ i, x.file = some i := by
  rcases Segment.handle_eq_ok h with hw | hread | hopen
  · obtain ⟨k, hk⟩ := List.mem_iff_getElem?.mp hs
    obtain ⟨_, _, _, _, hclosed⟩ := ((hb.representation.came hr).segment k s hk).writer x hw
    cases hfile : x.file with
    | none =>
      unfold Index.isClosed at hclosed
      rw [hfile] at hclosed
      cases hclosed
    | some i => exact ⟨i, rfl⟩
  · exact hr.readersOpen hb s hs x hread
  · exact Segment.openPlayback_file hopen

end

end Recording

namespace Player

section
variable {p : Player} {s : Segment} {k : Nat} {d : Disk} {time : UInt64}

/-! ## What a seek asks -/

theorem seek_none (hp : p.recording.place? time = none) :
    (p.seek time d).1 = match p.recording.segments.head? with
      | some s => if p.clamp then s.startThrough (s.handle d) d
        else .error (p.recording.beforeStart time)
      | none => .error (p.recording.beforeStart time) := by
  obtain ⟨what, hwhat⟩ := p.recording.beforeStart_eq time
  unfold seek nearest?
  rw [Recording.lookUp_none hp]
  simp only [hp, hwhat, Error.isNotFound, Bool.true_and]
  cases hs : p.recording.segments with
  | nil => simp
  | cons s rest =>
    cases p.clamp with
    | false => rfl
    | true =>
      have hsame := s.query_sameButReader (·.first? d) d
      simp only [List.isEmpty_cons, Recording.query, hs, List.getElem?_cons_zero, List.head?_cons,
        if_true, if_false, Bool.false_eq_true, Segment.first?, s.query_fst]
      exact hsame.startThrough (s.handle d) d

theorem seek_some (hp : p.recording.place? time = some k)
    (hs : p.recording.segments[k]? = some s) :
    (p.seek time d).1 = s.positionThrough (s.handle d) p.clamp time d := by
  have hasked := s.query_fst (·.lookUp time d) d
  have hhandle := s.handle_query (·.lookUp time d) d
  have hsame := s.query_sameButReader (·.lookUp time d) d
  have hk := Recording.lt_of_place? hp
  unfold seek Segment.positionThrough
  rw [Recording.lookUp_some hp hs]
  simp only [hasked]
  generalize (s.query (·.lookUp time d) d).2 = t at hhandle hsame
  cases s.handle d >>= (·.lookUp time d) with
  | ok offset =>
    simp only [Except.map]
    rw [hsame]
  | error e =>
    simp only [Except.map]
    by_cases hc : (e.isNotFound && p.clamp) = true
    · -- the segment is asked again, through the same handle
      have hplace : Recording.place? { p.recording with
          segments := p.recording.segments.set k t } time = some k :=
        (Recording.place?_congr (Recording.map_set hs hsame.samePlace.start) time).trans hp
      simp only [hc, if_true, nearest?, hplace, Recording.query, List.getElem?_set_self hk]
      have hagain := t.query_sameButReader (·.first? d) d
      rw [← hsame.startThrough, ← hhandle, ← hagain.startThrough]
      simp only [Segment.startThrough, ← t.query_fst]
      rfl
    · simp only [hc]
      rfl

end

end Player

end Timeshift
