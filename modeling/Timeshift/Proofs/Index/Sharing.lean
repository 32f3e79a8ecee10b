import Timeshift.Proofs.Index.Handle

/-!
# One writer and many readers

An index file in use by at most one open recording handle and any number of playback handles, in any
order of opening, writing and closing. The recording handle decides from what it remembers and the
others read the file; `single_writer_many_readers` says that all of them speak of one row of
records, which is the row of the beginning followed by the accepted writes.
-/

namespace Timeshift.Index

/-- The path leads to a file on working storage that holds the row `es`, in order, and no more. -/
def HoldsRow (path : Path) (d : Disk) (es : List Entry) : Prop :=
  ∃ i, d.lookUp path = .ok (.file i) ∧ d.medium i = .regular ∧ d.content i = Entry.encodeAll es ∧
    IsOrdered es

structure Sharing where
  world : World
  /-- The recording handle that was opened last, open or closed. -/
  writer : Option Index
  readers : List Index
  /-- The writes that were accepted, oldest first. -/
  accepted : List Entry

namespace Sharing

inductive Action
  | openRecord
  | write (e : Entry)
  | closeRecord
  | openPlayback
  | closePlayback (k : Nat)

def start (w : World) : Sharing := ⟨w, none, [], []⟩

/-- Reading changes nothing, so it is no action. While the recording handle is open no other one is
opened. -/
def step (path : Path) (s : Sharing) : Action → Sharing
  | .openRecord =>
    if s.writer.any (!·.isClosed) then s
    else
      match openRecord path s.world with
      | (.ok x, w) => { s with world := w, writer := some x }
      | (.error _, w) => { s with world := w }
  | .write e =>
    match s.writer with
    | none => s
    | some x =>
      match x.write e s.world with
      | (.ok x, w) => { s with world := w, writer := some x, accepted := s.accepted ++ [e] }
      | (.error _, w) => { s with world := w }
  | .closeRecord => { s with writer := s.writer.map fun x => (x.close s.world.disk).2 }
  | .openPlayback =>
    match openPlayback path s.world.disk with
    | .ok x => { s with readers := s.readers ++ [x] }
    | .error _ => s
  | .closePlayback k => { s with readers := s.readers.modify k fun x => (x.close s.world.disk).2 }

def run (path : Path) (s : Sharing) (actions : List Action) : Sharing :=
  actions.foldl (step path) s

/-- Whoever has the file open answers from the row `es`, and whoever opens it next will. -/
structure Agrees (path : Path) (s : Sharing) (es : List Entry) : Prop where
  file : HoldsRow path s.world.disk es
  writer : ∀ x, s.writer = some x → x.isClosed = false →
    x.tail = es.getLast? ∧ ∀ e, (x.write e s.world).1.isOk ↔ Admits es e.timestamp
  reads : ∀ x, s.writer = some x ∨ x ∈ s.readers → x.isClosed = false →
    x.Describes s.world.disk es
  opens : (openRecord path s.world).1.isOk ∧ (openPlayback path s.world.disk).isOk

/-! ## The invariant -/

structure Inv (path : Path) (s : Sharing) (i : FileId) (es : List Entry) : Prop where
  lookUp : s.world.disk.lookUp path = .ok (.file i)
  medium : s.world.disk.medium i = .regular
  content : s.world.disk.content i = Entry.encodeAll es
  ordered : IsOrdered es
  writer : ∀ x, s.writer = some x → x.isClosed = false → x.Tracks i es
  readers : ∀ x ∈ s.readers, x.isClosed = false → x.file = some i

/-- The disk is still `d`, without a file, and nobody has opened or written anything. -/
structure Absent (path : Path) (d : Disk) (s : Sharing) : Prop where
  disk : s.world.disk = d
  missing : d.exists? path = false
  writer : s.writer = none
  readers : s.readers = []
  accepted : s.accepted = []

section
variable {path : Path} {d : Disk} {s : Sharing} {i : FileId} {es : List Entry}

theorem isClosed_close (x : Index) (d : Disk) : (x.close d).2.isClosed = true := by
  unfold close
  split
  · rfl
  · rfl

theorem write_closed {x : Index} (h : x.isClosed = true) (e : Entry) (w : World) :
    ∃ err, x.write e w = (.error err, w) := by
  have hf : x.file = none := Option.isNone_iff_eq_none.mp h
  unfold write
  rw [hf]
  cases x.mode with
  | playback => exact ⟨_, rfl⟩
  | record => exact ⟨_, rfl⟩

theorem file_of_inv (h : Inv path s i es) {x : Index} (hx : s.writer = some x ∨ x ∈ s.readers)
    (ho : x.isClosed = false) : x.file = some i := by
  rcases hx with hx | hx
  · exact (h.writer x hx ho).file
  · exact h.readers x hx ho

theorem agrees_of_inv (h : Inv path s i es) : Agrees path s es := by
  have hread : Entry.readAll (s.world.disk.content i) = es := by
    rw [h.content, Entry.readAll_encodeAll]
  refine ⟨⟨i, h.lookUp, h.medium, h.content, h.ordered⟩, fun x hx ho => ?_, fun x hx ho => ?_, ?_⟩
  · have ht := h.writer x hx ho
    exact ⟨ht.tail, fun e => write_isOk_iff ht h.medium⟩
  · have := describes_of_file (file_of_inv h hx ho) s.world.disk
    rwa [hread] at this
  · rw [openRecord_of_file h.lookUp h.content h.ordered,
      openPlayback_eq_ok.mpr ⟨i, h.lookUp, hread.symm ▸ h.ordered, rfl⟩]
    exact ⟨rfl, rfl⟩

/-! ## What a step preserves -/

theorem step_write_ok {x x' : Index} {e : Entry} {w : World} (hs : s.writer = some x)
    (hx : x.write e s.world = (.ok x', w)) : step path s (.write e) =
      { s with world := w, writer := some x', accepted := s.accepted ++ [e] } := by
  simp only [step, hs, hx]

theorem step_write_error {x : Index} {e : Entry} {err : Error} {w : World}
    (hs : s.writer = some x) (hx : x.write e s.world = (.error err, w)) :
    step path s (.write e) = { s with world := w } := by
  simp only [step, hs, hx]

theorem inv_openRecord (h : Inv path s i es) : Inv path (step path s .openRecord) i es := by
  unfold step
  simp only
  split
  · exact h
  · rw [openRecord_of_file h.lookUp h.content h.ordered]
    refine ⟨h.lookUp, h.medium, h.content, h.ordered, fun x hx _ => ?_, h.readers⟩
    cases hx
    exact ⟨rfl, rfl, rfl, rfl⟩

theorem inv_write (h : Inv path s i es) (e : Entry) :
    ∃ added, (step path s (.write e)).accepted = s.accepted ++ added ∧
      Inv path (step path s (.write e)) i (es ++ added) := by
  have hsame : ∃ added, s.accepted = s.accepted ++ added ∧ Inv path s i (es ++ added) :=
    ⟨[], (List.append_nil _).symm, by rwa [List.append_nil]⟩
  cases hw : s.writer with
  | none =>
    have : step path s (.write e) = s := by simp only [step, hw]
    rw [this]
    exact hsame
  | some x =>
    cases hc : x.isClosed with
    | true =>
      obtain ⟨err, he⟩ := write_closed hc e s.world
      rw [step_write_error hw he]
      exact hsame
    | false =>
      have ht := h.writer x hw hc
      by_cases ha : Admits es e.timestamp
      · have hok := (write_isOk_iff (w := s.world) ht h.medium).mpr ha
        cases hr : x.write e s.world with
        | mk result w =>
          rw [hr] at hok
          cases result with
          | error err => cases hok
          | ok x' =>
            obtain ⟨_, ht', hd, hcont⟩ :=
              write_ok ht h.content (h.medium ▸ Medium.faithful_regular.exact) hr
            rw [step_write_ok hw hr]
            refine ⟨[e], rfl, (hd.lookUp_eq _).trans h.lookUp, (hd.medium i).trans h.medium, hcont,
              isOrdered_concat.mpr ⟨h.ordered, ha⟩, fun y hy _ => ?_, h.readers⟩
            cases hy
            exact ht'
      · obtain ⟨last, hl⟩ := write_refused (w := s.world) ht ha
        rw [step_write_error hw hl]
        exact hsame

theorem inv_close (h : Inv path s i es) {a : Action}
    (ha : a = .closeRecord ∨ ∃ k, a = .closePlayback k) : Inv path (step path s a) i es := by
  rcases ha with rfl | ⟨k, rfl⟩
  · refine ⟨h.lookUp, h.medium, h.content, h.ordered, fun x hx ho => ?_, h.readers⟩
    obtain ⟨y, _, rfl⟩ := Option.map_eq_some_iff.mp hx
    rw [isClosed_close] at ho
    cases ho
  · refine ⟨h.lookUp, h.medium, h.content, h.ordered, h.writer, fun x hx ho => ?_⟩
    obtain ⟨j, hj⟩ := List.mem_iff_getElem?.mp hx
    have hj' : (s.readers.modify k fun x => (x.close s.world.disk).2)[j]? = some x := hj
    rw [List.getElem?_modify] at hj'
    obtain ⟨y, hy, hx⟩ := Option.map_eq_some_iff.mp hj'
    split at hx
    · rw [← hx, isClosed_close] at ho
      cases ho
    · exact h.readers x (hx ▸ List.mem_of_getElem? hy) ho

theorem inv_openPlayback (h : Inv path s i es) : Inv path (step path s .openPlayback) i es := by
  unfold step
  simp only
  split
  · rename_i x hx
    obtain ⟨j, hl, _, rfl⟩ := openPlayback_eq_ok.mp hx
    rw [h.lookUp] at hl
    cases hl
    refine ⟨h.lookUp, h.medium, h.content, h.ordered, h.writer, fun y hy ho => ?_⟩
    rcases List.mem_append.mp hy with hy | hy
    · exact h.readers y hy ho
    · rw [List.mem_singleton.mp hy]
  · exact h

/-- A step keeps the row, but for a write that is accepted, which adds to it. -/
theorem inv_step (h : Inv path s i es) (a : Action) :
    ∃ added, (step path s a).accepted = s.accepted ++ added ∧
      Inv path (step path s a) i (es ++ added) := by
  have hsame : ∀ {t : Sharing}, t.accepted = s.accepted → Inv path t i es →
      ∃ added, t.accepted = s.accepted ++ added ∧ Inv path t i (es ++ added) := fun ht hi =>
    ⟨[], by rw [ht, List.append_nil], by rwa [List.append_nil]⟩
  cases a with
  | openRecord =>
    refine hsame ?_ (inv_openRecord h)
    unfold step
    simp only
    split
    · rfl
    · split <;> rfl
  | write e => exact inv_write h e
  | closeRecord => exact hsame rfl (inv_close h (.inl rfl))
  | openPlayback =>
    refine hsame ?_ (inv_openPlayback h)
    unfold step
    simp only
    split <;> rfl
  | closePlayback k => exact hsame rfl (inv_close h (.inr ⟨k, rfl⟩))

theorem not_file_of_missing (h : d.exists? path = false) : d.lookUp path ≠ .ok (.file i) := by
  intro hl
  unfold Disk.exists? at h
  rw [hl] at h
  cases h

theorem node?_of_missing {n : Name} (h : d.exists? path = false) (hp : d.LeadsTo path n) :
    d.node? n = none := by
  unfold Disk.exists? at h
  rw [Disk.lookUp_of_leadsTo hp] at h
  cases hn : d.node? n with
  | none => rfl
  | some node =>
    rw [hn] at h
    cases h

/-- The first opening for recording makes the file, if its path leads to a place for one. -/
theorem absent_openRecord (h : Absent path d s) :
    (Absent path d (step path s .openRecord) ∧ ∀ n, ¬ d.LeadsTo path n) ∨
      ∃ i, Inv path (step path s .openRecord) i [] ∧
        (step path s .openRecord).accepted = [] := by
  obtain ⟨rfl, hmissing, hwriter, hreaders, haccepted⟩ := h
  have hfree : ¬ s.writer.any (!·.isClosed) = true := by rw [hwriter]; exact Bool.false_ne_true
  by_cases hleads : ∃ n, s.world.disk.LeadsTo path n
  · obtain ⟨n, hp⟩ := hleads
    obtain ⟨d, hopen, hl, hm, hc⟩ := openRecord_new hp (node?_of_missing hmissing hp)
    have hs : step path s .openRecord = { s with
        world := { s.world with disk := d }
        writer := some (recorderOf path s.world.disk.next []) } := by
      simp only [step, if_neg hfree, hopen]
    right
    rw [hs]
    refine ⟨_, ⟨hl, hm, hc, isOrdered_nil, fun y hy _ => ?_, fun y hy => ?_⟩, haccepted⟩
    · cases hy
      exact tracks_recorderOf path _ []
    · rw [show _ = ([] : List Index) from hreaders] at hy
      cases hy
  · left
    have hnowhere : ∀ n, ¬ s.world.disk.LeadsTo path n := not_exists.mp hleads
    refine ⟨?_, hnowhere⟩
    cases hcreate : s.world.disk.openCreate path with
    | ok made =>
      obtain ⟨n, hp, _⟩ := Disk.openCreate_ok hcreate
      exact absurd hp (hnowhere n)
    | error cause =>
      have hopen : openRecord path s.world = (.error (.ofOpening path cause), s.world) := by
        unfold openRecord
        rw [hcreate]
      have hs : step path s .openRecord = s := by simp only [step, if_neg hfree, hopen]
      rw [hs]
      exact ⟨rfl, hmissing, hwriter, hreaders, haccepted⟩

theorem absent_step (h : Absent path d s) (a : Action) :
    (Absent path d (step path s a) ∧ (a = .openRecord → ∀ n, ¬ d.LeadsTo path n)) ∨
      ∃ i, Inv path (step path s a) i [] ∧ (step path s a).accepted = [] := by
  cases a with
  | openRecord => exact (absent_openRecord h).imp_left fun ⟨ha, hn⟩ => ⟨ha, fun _ => hn⟩
  | write e =>
    have hs : step path s (.write e) = s := by simp only [step, h.writer]
    exact .inl ⟨hs.symm ▸ h, nofun⟩
  | closeRecord =>
    exact .inl ⟨⟨h.disk, h.missing, by simp only [step, h.writer, Option.map_none], h.readers,
      h.accepted⟩, nofun⟩
  | openPlayback =>
    cases hr : openPlayback path s.world.disk with
    | ok x =>
      obtain ⟨i, hl, _⟩ := openPlayback_eq_ok.mp hr
      rw [h.disk] at hl
      exact absurd hl (not_file_of_missing h.missing)
    | error err =>
      have hs : step path s .openPlayback = s := by simp only [step, hr]
      exact .inl ⟨hs.symm ▸ h, nofun⟩
  | closePlayback k =>
    exact .inl ⟨⟨h.disk, h.missing, h.writer, by simp only [step, h.readers, List.modify_nil],
      h.accepted⟩, nofun⟩

/-! ## What a run preserves -/

theorem inv_run {initial : List Entry} : ∀ (actions : List Action) {s : Sharing},
    Inv path s i (initial ++ s.accepted) →
      Inv path (run path s actions) i (initial ++ (run path s actions).accepted)
  | [], _, h => h
  | a :: actions, s, h => by
    obtain ⟨added, hacc, hinv⟩ := inv_step h a
    rw [List.append_assoc, ← hacc] at hinv
    exact inv_run actions hinv

theorem absent_run : ∀ (actions : List Action) {s : Sharing}, Absent path d s →
    (Absent path d (run path s actions) ∧ (.openRecord ∈ actions → ∀ n, ¬ d.LeadsTo path n)) ∨
      ∃ i, Inv path (run path s actions) i (run path s actions).accepted
  | [], _, h => .inl ⟨h, nofun⟩
  | a :: actions, s, h => by
    rcases absent_step h a with ⟨h, ha⟩ | ⟨i, hinv, hacc⟩
    · refine (absent_run actions h).imp_left fun ⟨h, hrest⟩ => ⟨h, fun hopen => ?_⟩
      rcases List.mem_cons.mp hopen with hopen | hopen
      · exact ha hopen.symm
      · exact hrest hopen
    · have : Inv path (step path s a) i ([] ++ (step path s a).accepted) := by rwa [hacc]
      exact .inr ⟨i, inv_run actions this⟩

theorem inv_start {initial : List Entry} {w : World} (h : HoldsRow path w.disk initial) :
    ∃ i, Inv path (start w) i (initial ++ (start w).accepted) := by
  obtain ⟨i, hl, hm, hc, ho⟩ := h
  rw [show initial ++ (start w).accepted = initial from List.append_nil _]
  exact ⟨i, hl, hm, hc, ho, fun x hx => (by cases hx), fun x hx => (by cases hx)⟩

end

/-- However one recording handle at a time and any number of playback handles are opened, written to
and closed, an index that was missing or in order holds the row of the beginning followed by the
accepted writes, and every open handle speaks of that row. It stays missing only if it was never
opened for recording, or if its path leads to no place where a file could be made. -/
theorem single_writer_many_readers (path : Path) (w : World) (initial : List Entry)
    (h : (w.disk.exists? path = false ∧ initial = []) ∨ HoldsRow path w.disk initial)
    (actions : List Action) :
    let s := run path (start w) actions
    (s.world.disk.exists? path = false ∧ s.writer = none ∧ s.readers = [] ∧
        initial ++ s.accepted = [] ∧ (.openRecord ∈ actions → ∀ n, ¬ w.disk.LeadsTo path n)) ∨
      Agrees path s (initial ++ s.accepted) := by
  intro s
  rcases h with ⟨hmissing, rfl⟩ | hrow
  · rcases absent_run actions (s := start w) ⟨rfl, hmissing, rfl, rfl, rfl⟩ with
      ⟨ha, hopen⟩ | ⟨i, hinv⟩
    · exact .inl ⟨ha.disk ▸ ha.missing, ha.writer, ha.readers, ha.accepted, hopen⟩
    · exact .inr (agrees_of_inv hinv)
  · obtain ⟨i, hinv⟩ := inv_start hrow
    exact .inr (agrees_of_inv (inv_run actions hinv))

def liveIndex : Path := ⟨"live.idx"⟩

def liveDisk : Disk :=
  ⟨[], [(["live.idx".toList], .file 0)], [(0, { content := Entry.encodeAll [⟨5, 0⟩] })], 1⟩

def emptyDisk : Disk := ⟨[], [], [], 0⟩

def liveActions : List Action :=
  [.openPlayback, .openRecord, .write ⟨5, 188⟩, .write ⟨3, 376⟩, .closeRecord, .openPlayback,
    .openRecord, .write ⟨9, 564⟩]

/-- A tie is accepted, an earlier time is not, and reopening goes on from the last record. Where
there was no file the first player finds none and the second one follows the writes. -/
theorem single_writer_many_readers_live :
    HoldsRow liveIndex liveDisk [⟨5, 0⟩] ∧
      Agrees liveIndex (run liveIndex (start ⟨liveDisk, []⟩) liveActions)
        [⟨5, 0⟩, ⟨5, 188⟩, ⟨9, 564⟩] ∧
      emptyDisk.exists? liveIndex = false ∧
      Agrees liveIndex (run liveIndex (start ⟨emptyDisk, []⟩) (liveActions ++ [.write ⟨2, 0⟩]))
        [⟨5, 188⟩, ⟨9, 564⟩] ∧
      (run liveIndex (start ⟨emptyDisk, []⟩) liveActions).readers.length = 1 := by
  have hrow : HoldsRow liveIndex liveDisk [⟨5, 0⟩] :=
    ⟨0, rfl, rfl, rfl, List.pairwise_singleton _ _⟩
  have hplace : emptyDisk.LeadsTo liveIndex ["live.idx".toList] :=
    ⟨[], "live.idx".toList, rfl, rfl, rfl⟩
  refine ⟨hrow, ?_, rfl, ?_, ?_⟩
  · rcases single_writer_many_readers liveIndex ⟨liveDisk, []⟩ [⟨5, 0⟩] (.inr hrow) liveActions with
      ⟨_, _, _, hnone, _⟩ | h
    · cases hnone
    · exact h
  · rcases single_writer_many_readers liveIndex ⟨emptyDisk, []⟩ [] (.inl ⟨rfl, rfl⟩)
      (liveActions ++ [.write ⟨2, 0⟩]) with ⟨_, _, _, _, hnowhere⟩ | h
    · exact absurd hplace (hnowhere (by simp [liveActions]) _)
    · exact h
  · decide +kernel

end Sharing

end Timeshift.Index
