import Timeshift.Proofs.Index.Handle

/-!
# Writing while storage fails

What a failed write has kept of its record is cut off again. If that fails too it stays in the file,
and the handle goes on as if it were not there: the next record that is accepted lands behind it.
`readsBack_iff_harmless` says of a whole run, whatever storage does in it, whether the file reads as the
accepted records at every write that is done.
-/

namespace Timeshift.Index

/-! ## A record behind bytes that were left -/

/-- Less than a record is in front, and goes on as `e` begins. -/
def Harmless (left : Bytes) (e : Entry) : Prop :=
  left.length < Entry.size ∧ e.encode <+: left ++ e.encode

instance (left : Bytes) (e : Entry) : Decidable (Harmless left e) :=
  inferInstanceAs (Decidable (_ ∧ _))

theorem harmless_nil (e : Entry) : Harmless [] e := ⟨by decide, List.prefix_rfl⟩

/-- What a harmless rest has in front of the record is then behind it. -/
theorem Harmless.append_eq {left : Bytes} {e : Entry} (h : Harmless left e) :
    left ++ e.encode = e.encode ++ (left ++ e.encode).drop Entry.size ∧
      ((left ++ e.encode).drop Entry.size).length < Entry.size := by
  obtain ⟨rest, hrest⟩ := h.2
  constructor
  · rw [← hrest, List.drop_left' e.length_encode]
  · rw [List.length_drop, List.length_append, Entry.length_encode, Nat.add_sub_cancel]
    exact h.1

theorem readAll_left_iff {es : List Entry} {left : Bytes} {e : Entry} :
    Entry.readAll (Entry.encodeAll es ++ (left ++ e.encode)) = es ++ [e] ↔ Harmless left e := by
  constructor
  · intro h
    have hlen := congrArg List.length h
    have hfront := Entry.encodeAll_readAll (Entry.encodeAll es ++ (left ++ e.encode))
    rw [h, Entry.encodeAll_concat] at hfront
    constructor
    · simp only [Entry.length_readAll, List.length_append, Entry.length_encodeAll,
        Entry.length_encode, List.length_singleton, Entry.size] at hlen ⊢
      omega
    · refine (List.prefix_append_right_inj (Entry.encodeAll es)).mp ?_
      rw [hfront]
      exact List.take_prefix _ _
  · intro h
    obtain ⟨happend, hlen⟩ := h.append_eq
    rw [happend, ← List.append_assoc, ← Entry.encodeAll_concat]
    exact Entry.readAll_append _ hlen _

/-! ## Trials -/

structure Trial where
  entry : Entry
  medium : Medium

structure Progress where
  handle : Index
  world : World
  /-- The entries of the writes that were done, oldest first. -/
  accepted : List Entry
  /-- What is in the file behind the records that the handle knows. It follows from the answers of
  storage alone and is never read from the file. -/
  left : Bytes

namespace Progress

def start (x : Index) (w : World) : Progress := ⟨x, w, [], []⟩

variable (i : FileId)

def attempt (p : Progress) (t : Trial) : Except Error Index × World :=
  p.handle.write t.entry { p.world with disk := p.world.disk.setMedium i t.medium }

def step (p : Progress) (t : Trial) : Progress :=
  match p.attempt i t with
  | (.ok x, w) => ⟨x, w, p.accepted ++ [t.entry], (p.left ++ t.entry.encode).drop Entry.size⟩
  | (.error (.io _), w) =>
    { p with
      world := w
      left := if t.medium.resizeError.isSome then p.left ++ t.medium.kept t.entry.encode else [] }
  | (.error _, w) => { p with world := w }

def run (p : Progress) (ts : List Trial) : Progress := ts.foldl (step i) p

/-- At every trial of the run whose write is done, `holds` of the progress before it. -/
def EachDone (holds : Progress → Trial → Prop) : Progress → List Trial → Prop
  | _, [] => True
  | p, t :: ts => ((p.attempt i t).1.isOk → holds p t) ∧ EachDone holds (p.step i t) ts

/-- The file reads as the records of its opening and those that were accepted since, in order. -/
structure ReadsBack (opened : List Entry) (p : Progress) : Prop where
  records : Entry.readAll (p.world.disk.content i) = opened ++ p.accepted
  ordered : IsOrdered (opened ++ p.accepted)

structure Holds (known : List Entry) (p : Progress) : Prop where
  tracks : p.handle.Tracks i known
  ordered : IsOrdered known
  content : p.world.disk.content i = Entry.encodeAll known ++ p.left

/-! ## One trial -/

section
variable {i : FileId} {p : Progress} {t : Trial} {known opened : List Entry}

theorem Holds.done (h : p.Holds i known) (hm : t.medium.Honest) (hok : (p.attempt i t).1.isOk) :
    IsOrdered (known ++ [t.entry]) ∧ (p.step i t).handle.Tracks i (known ++ [t.entry]) ∧
      (p.step i t).accepted = p.accepted ++ [t.entry] ∧
      (p.step i t).left = (p.left ++ t.entry.encode).drop Entry.size ∧
      (p.step i t).world.disk.content i =
        Entry.encodeAll known ++ (p.left ++ t.entry.encode) := by
  unfold step
  cases hw : p.attempt i t with
  | mk result w' =>
    cases result with
    | error err => rw [hw] at hok; cases hok
    | ok x =>
      obtain ⟨ha, htracks, _, hcontent⟩ :=
        write_appends h.tracks (by rwa [Disk.medium_setMedium_self]) hw
      refine ⟨isOrdered_concat.mpr ⟨h.ordered, ha⟩, htracks, rfl, rfl, ?_⟩
      rw [hcontent, Disk.content_setMedium, h.content, List.append_assoc]

theorem Holds.notDone (h : p.Holds i known) (hno : ¬ (p.attempt i t).1.isOk) :
    (p.step i t).accepted = p.accepted ∧ (p.step i t).Holds i known := by
  unfold step
  cases hw : p.attempt i t with
  | mk result w' =>
    cases result with
    | ok x => rw [hw] at hno; exact absurd rfl hno
    | error err =>
      rcases write_failed h.tracks hw with ⟨hrejection, rfl⟩ | ⟨⟨cause, rfl⟩, hd⟩
      · have hcontent : (p.world.disk.setMedium i t.medium).content i =
            Entry.encodeAll known ++ p.left := by
          rw [Disk.content_setMedium, h.content]
        cases err with
        | io cause => cases hrejection
        | _ => exact ⟨rfl, h.tracks, h.ordered, hcontent⟩
      · refine ⟨rfl, h.tracks, h.ordered, ?_⟩
        have happended := Disk.content_append (d := p.world.disk.setMedium i t.medium) (i := i)
          (encode_ne_nil t.entry)
        rw [Disk.content_setMedium, h.content, Disk.medium_setMedium_self,
          List.append_assoc] at happended
        simp only
        rw [hd, ← Entry.length_encodeAll, Disk.content_resize_front happended,
          (Disk.changesOnly_append i _ _).medium, Disk.medium_setMedium_self]
        split
        · rfl
        · rw [List.append_nil]

theorem Holds.step (h : p.Holds i (opened ++ p.accepted)) (hm : t.medium.Honest)
    (hharmless : (p.attempt i t).1.isOk → Harmless p.left t.entry) :
    (p.step i t).Holds i (opened ++ (p.step i t).accepted) := by
  by_cases hok : (p.attempt i t).1.isOk
  · obtain ⟨hordered, htracks, haccepted, hleft, hcontent⟩ := h.done hm hok
    rw [haccepted, ← List.append_assoc]
    refine ⟨htracks, hordered, ?_⟩
    rw [hcontent, hleft, Entry.encodeAll_concat, List.append_assoc,
      ← (hharmless hok).append_eq.1]
  · obtain ⟨haccepted, hholds⟩ := h.notDone hok
    rwa [haccepted]

theorem Holds.reads_iff (h : p.Holds i (opened ++ p.accepted)) (hm : t.medium.Honest)
    (hok : (p.attempt i t).1.isOk) :
    (p.step i t).ReadsBack i opened ↔ Harmless p.left t.entry := by
  obtain ⟨hordered, _, haccepted, _, hcontent⟩ := h.done hm hok
  rw [List.append_assoc, ← haccepted] at hordered
  have hread : Entry.readAll ((p.step i t).world.disk.content i) =
      opened ++ (p.step i t).accepted ↔ Harmless p.left t.entry := by
    rw [hcontent, haccepted, ← List.append_assoc opened]
    exact readAll_left_iff
  exact ⟨fun hr => hread.mp hr.records, fun hr => ⟨hread.mpr hr, hordered⟩⟩

theorem left_step (hm : t.medium.Exact) (hl : p.left = []) : (p.step i t).left = [] := by
  unfold step
  split
  · rw [hl, List.nil_append]
    exact List.drop_of_length_le (Nat.le_of_eq (Entry.length_encode _))
  · simp only
    split
    · rename_i hresize
      have hkeeps := hm.undone.resolve_left (Option.isSome_iff_ne_none.mp hresize)
      rw [hl, Medium.kept, hkeeps]
      rfl
    · rfl
  · exact hl

/-! ## A whole run -/

/-- The first record that is accepted behind a rest that is not harmless spoils the file; up to then
the handle and the file agree. -/
theorem Holds.eachDone_iff {ts : List Trial} (h : p.Holds i (opened ++ p.accepted))
    (hm : ∀ t ∈ ts, t.medium.Honest) :
    EachDone i (fun q t => (q.step i t).ReadsBack i opened) p ts ↔
      EachDone i (fun q t => Harmless q.left t.entry) p ts := by
  induction ts generalizing p with
  | nil => exact Iff.rfl
  | cons t ts ih =>
    have hmt := hm t List.mem_cons_self
    have hone : ((p.attempt i t).1.isOk → (p.step i t).ReadsBack i opened) ↔
        ((p.attempt i t).1.isOk → Harmless p.left t.entry) :=
      forall_congr' fun hok => h.reads_iff hmt hok
    refine (and_congr_left' hone).trans (and_congr_right fun hharmless => ?_)
    exact ih (h.step hmt hharmless) fun u hu => hm u (List.mem_cons_of_mem t hu)

theorem Holds.run {ts : List Trial} (h : p.Holds i (opened ++ p.accepted)) (hl : p.left = [])
    (hm : ∀ t ∈ ts, t.medium.Exact) :
    EachDone i (fun q t => Harmless q.left t.entry) p ts ∧ (p.run i ts).left = [] ∧
      (p.run i ts).Holds i (opened ++ (p.run i ts).accepted) := by
  induction ts generalizing p with
  | nil => exact ⟨trivial, hl, h⟩
  | cons t ts ih =>
    have hmt := hm t List.mem_cons_self
    have hharmless : Harmless p.left t.entry := hl ▸ harmless_nil t.entry
    obtain ⟨heach, hrun⟩ := ih (h.step hmt.honest fun _ => hharmless) (left_step hmt hl)
      fun u hu => hm u (List.mem_cons_of_mem t hu)
    exact ⟨⟨fun _ => hharmless, heach⟩, hrun⟩

end

/-- Whatever storage does while a file is written, at every write that is done the file reads as the
records of its opening and the accepted ones, in order, if and only if every record was accepted
behind a harmless rest. Where each failed write could be cut back nothing is ever left, and the file
is these records and no byte more. -/
theorem readsBack_iff_harmless {path : Path} {x : Index} {w w' : World} {i : FileId} {ts : List Trial}
    (hopen : openRecord path w = (.ok x, w')) (hx : x.file = some i)
    (hm : ∀ t ∈ ts, t.medium.Honest) :
    let opened := Entry.readAll (w'.disk.content i)
    let p := start x w'
    (EachDone i (fun q t => (q.step i t).ReadsBack i opened) p ts ↔
      EachDone i (fun q t => Harmless q.left t.entry) p ts) ∧
    ((∀ t ∈ ts, t.medium.Exact) →
      EachDone i (fun q t => (q.step i t).ReadsBack i opened) p ts ∧
      (p.run i ts).world.disk.content i = Entry.encodeAll (opened ++ (p.run i ts).accepted)) := by
  intro opened p
  obtain ⟨j, d, _, rfl, hordered, _, hcontent⟩ := openRecord_ok hopen
  cases hx
  have hopened : opened = Entry.readAll (d.content i) := by
    rw [← Entry.readAll_encodeAll (Entry.readAll (d.content i)), ← hcontent]
  have hholds : p.Holds i (opened ++ p.accepted) := by
    rw [show opened ++ p.accepted = opened from List.append_nil _, hopened]
    exact ⟨tracks_recorderOf path i _, hordered, hcontent.trans (List.append_nil _).symm⟩
  have hiff := hholds.eachDone_iff hm
  refine ⟨hiff, fun hexact => ?_⟩
  obtain ⟨heach, hleft, hrun⟩ := hholds.run rfl hexact
  refine ⟨hiff.mpr heach, ?_⟩
  rw [hrun.content, hleft, List.append_nil]

end Progress

/-! ## Runs on an empty index -/

def emptyWorld : World := ⟨⟨[], [(["a.idx".toList], .file 0)], [], 1⟩, []⟩

def emptyHandle : Index := ⟨⟨"a.idx"⟩, .record, some 0, none, 0, 0⟩

theorem openRecord_empty : openRecord ⟨"a.idx"⟩ emptyWorld = (.ok emptyHandle, emptyWorld) := rfl

def tornMedium : Medium := { keeps := some 3, writeError := some .noSpace }

def tornStuckMedium : Medium := { tornMedium with resizeError := some .invalidArgument }

/-- Keeps a whole record that it cannot sync, nor cut off. -/
def wholeStuckMedium : Medium :=
  { syncError := some .noSpace, resizeError := some .invalidArgument }

def cutBack : List Trial :=
  [⟨⟨5, 0⟩, .regular⟩, ⟨⟨7, 16⟩, tornMedium⟩, ⟨⟨9, 32⟩, .regular⟩, ⟨⟨11, 48⟩, tornStuckMedium⟩]

theorem readsBack_cutBack :
    openRecord ⟨"a.idx"⟩ emptyWorld = (.ok emptyHandle, emptyWorld) ∧
      (∀ t ∈ cutBack, t.medium.Honest) ∧
      Progress.EachDone 0 (fun q t => (q.step 0 t).ReadsBack 0 []) (.start emptyHandle emptyWorld)
        cutBack ∧
      ((Progress.start emptyHandle emptyWorld).run 0 cutBack).accepted = [⟨5, 0⟩, ⟨9, 32⟩] := by
  have hm : ∀ t ∈ cutBack, t.medium.Honest := by
    intro t ht
    simp only [cutBack, List.mem_cons, List.not_mem_nil, or_false] at ht
    rcases ht with rfl | rfl | rfl | rfl
    · exact Medium.faithful_regular.honest
    · exact nofun
    · exact Medium.faithful_regular.honest
    · exact nofun
  have hharmless : Progress.EachDone 0 (fun q t => Harmless q.left t.entry)
      (.start emptyHandle emptyWorld) cutBack := by
    simp only [cutBack, Progress.EachDone]
    decide +kernel
  have hiff := (Progress.readsBack_iff_harmless openRecord_empty rfl hm).1
  refine ⟨openRecord_empty, hm, hiff.mpr hharmless, ?_⟩
  decide +kernel

/-- What is left of a failed write is read as a record, whether it is a part of one or a whole one
that breaks the order of the file. -/
theorem left_read_as_record :
    let p := Progress.start emptyHandle emptyWorld
    let part := p.run 0 [⟨⟨5, 0⟩, .regular⟩, ⟨⟨7, 16⟩, tornStuckMedium⟩]
    let late := p.run 0 [⟨⟨100, 0⟩, wholeStuckMedium⟩]
    openRecord ⟨"a.idx"⟩ emptyWorld = (.ok emptyHandle, emptyWorld) ∧
      tornStuckMedium.Honest ∧ wholeStuckMedium.Honest ∧
      (part.attempt 0 ⟨⟨9, 32⟩, .regular⟩).1.isOk ∧
      (part.step 0 ⟨⟨9, 32⟩, .regular⟩).accepted = [⟨5, 0⟩, ⟨9, 32⟩] ∧
      Entry.readAll ((part.step 0 ⟨⟨9, 32⟩, .regular⟩).world.disk.content 0) =
        [⟨5, 0⟩, ⟨150994951, 536870912⟩] ∧
      (late.attempt 0 ⟨⟨9, 32⟩, .regular⟩).1.isOk ∧
      (late.step 0 ⟨⟨9, 32⟩, .regular⟩).accepted = [⟨9, 32⟩] ∧
      Entry.readAll ((late.step 0 ⟨⟨9, 32⟩, .regular⟩).world.disk.content 0) =
        [⟨100, 0⟩, ⟨9, 32⟩] ∧
      (openRecord ⟨"a.idx"⟩ (late.step 0 ⟨⟨9, 32⟩, .regular⟩).world).1.isOk = false := by
  refine ⟨openRecord_empty, nofun, nofun, ?_⟩
  decide +kernel

end Timeshift.Index
