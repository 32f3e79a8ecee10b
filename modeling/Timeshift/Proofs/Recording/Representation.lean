import Timeshift.Proofs.Recording.Asking
import Timeshift.Proofs.Recording.Storing

/-!
# What every recording is like

Whatever is done to a recording, and whatever becomes of the disk meanwhile, its segments stay in
order under names of their own, only the last of them is ever written, and a recording that is
finished stays as it is. Each operation keeps this; a call that fails keeps the whole recording.
-/

namespace Timeshift.Recording

/-! ## Operations -/

inductive Operation
  | append (path : SegmentPath) (start : UInt64)
  | record (e : Entry)
  | finish
  | store (path : Path)
  | lookUp (time : UInt64)
  | lookUpIn (k : Nat) (time : UInt64)
  | entriesOf (k : Nat)
  | firstOf (k : Nat)
  deriving DecidableEq

def kept (r : Recording) : Except Error Recording × World → Recording × World
  | (.ok r, w) => (r, w)
  | (.error _, w) => (r, w)

def perform (r : Recording) (w : World) : Operation → Recording × World
  | .append path start => r.kept (r.append path start w)
  | .record e => r.kept (r.record e w)
  | .finish => r.finish w
  | .store path => (r, (r.store path w).2)
  | .lookUp time => ((r.lookUp time w.disk).2, w)
  | .lookUpIn k time => ((r.query k (·.lookUp time w.disk)).2, w)
  | .entriesOf k => ((r.query k (·.entries w.disk)).2, w)
  | .firstOf k => ((r.query k (·.first? w.disk)).2, w)

inductive Turn (r : Recording) (w : World) : Operation → Recording → World → Prop
  | appended {path : SegmentPath} {start : UInt64} {r' : Recording} {w' : World} :
      r.append path start w = (.ok r', w') → Turn r w (.append path start) r' w'
  | notAppended {path : SegmentPath} {start : UInt64} {e : Error} {w' : World} :
      r.append path start w = (.error e, w') → Turn r w (.append path start) r w'
  | recorded {e : Entry} {r' : Recording} {w' : World} :
      r.record e w = (.ok r', w') → Turn r w (.record e) r' w'
  | notRecorded {e : Entry} {err : Error} {w' : World} :
      r.record e w = (.error err, w') → Turn r w (.record e) r w'
  | finished : Turn r w .finish (r.finish w).1 (r.finish w).2
  | stored (path : Path) : Turn r w (.store path) r (r.store path w).2
  | asked {o : Operation} {α : Type} (ask : Index → Except Error α) {k : Nat} {s : Segment} :
      r.segments[k]? = some s →
      Turn r w o { r with segments := r.segments.set k (s.query ask w.disk).2 } w
  | unanswered {o : Operation} : Turn r w o r w

theorem turn_query {α : Type} (ask : Index → Except Error α) (r : Recording) (k : Nat) (w : World)
    (o : Operation) : Turn r w o (r.query k (·.query ask w.disk)).2 w := by
  rcases query_recording ask r k w.disk with h | ⟨s, hs, h⟩
  · rw [h]
    exact .unanswered
  · rw [h]
    exact .asked ask hs

theorem turn_perform (r : Recording) (w : World) (o : Operation) :
    Turn r w o (r.perform w o).1 (r.perform w o).2 := by
  cases o <;> simp only [perform]
  case append path start =>
    cases h : r.append path start w with
    | mk result w' =>
      cases result with
      | ok r' => exact .appended h
      | error e => exact .notAppended h
  case record e =>
    cases h : r.record e w with
    | mk result w' =>
      cases result with
      | ok r' => exact .recorded h
      | error err => exact .notRecorded h
  case finish => exact .finished
  case store path => exact .stored path
  case lookUp time =>
    rcases r.lookUp_recording time w.disk with h | ⟨k, s, hs, h⟩
    · rw [h]
      exact .unanswered
    · rw [h]
      exact .asked (·.lookUp time w.disk) hs
  case lookUpIn k time => exact turn_query (·.lookUp time w.disk) r k w _
  case entriesOf k => exact turn_query (·.entries w.disk) r k w _
  case firstOf k => exact turn_query (·.first? w.disk) r k w _

/-- A new recording, or one that was loaded. -/
def Begins (r : Recording) : Prop :=
  (∃ extension, r = empty extension none) ∨ ∃ path d, load path d = .ok r

/-- Operations brought the recording `r₀` to `r`, each in whatever world it found. The directory can
be set until the first segment is appended. -/
inductive Came (r₀ : Recording) : Recording → Prop
  | start : Came r₀ r₀
  | based {r : Recording} (directory : Path) :
      Came r₀ r → r.segments.length = r₀.segments.length → Came r₀ (r.withBase directory)
  | performed {r : Recording} (o : Operation) (w : World) : Came r₀ r → Came r₀ (r.perform w o).1

/-- What is true of the `k`-th segment `s` of `r`, if the first segments were in `r₀`. -/
structure Holds (r₀ r : Recording) (k : Nat) (s : Segment) : Prop where
  bounded : 1 ≤ s.path.text.utf8ByteSize ∧ s.path.text.utf8ByteSize ≤ 256
  file : s.file = (if k < r₀.segments.length then r₀ else r).fileOf s.path
  index : s.index = s.file.indexPath r.extension
  writer : ∀ x, s.writer = some x → k + 1 = r.segments.length ∧ r.finished = false ∧
    x.path = s.index ∧ x.mode = .record ∧ x.isClosed = false

structure Represented (r₀ r : Recording) : Prop where
  inOrder : Manifest.InOrder r.manifest.items
  extension : r.extension = r₀.extension
  grown : r₀.segments.length ≤ r.segments.length
  segment : ∀ k s, r.segments[k]? = some s → Holds r₀ r k s

section
variable {r₀ r r' : Recording} {s t : Segment} {k : Nat} {init : List Segment}
  {path : SegmentPath} {start : UInt64} {e : Entry} {w w' : World}

theorem utf8ByteSize_pos (p : SegmentPath) : 1 ≤ p.text.utf8ByteSize := by
  apply Nat.pos_of_ne_zero
  intro h
  exact p.nonempty (String.utf8ByteSize_eq_zero_iff.mp h)

theorem bounded (p : SegmentPath) : 1 ≤ p.text.utf8ByteSize ∧ p.text.utf8ByteSize ≤ 256 :=
  ⟨utf8ByteSize_pos p, p.bounded⟩

theorem fileOf_congr (h : r'.base = r.base) (p : SegmentPath) : r'.fileOf p = r.fileOf p := by
  unfold fileOf
  rw [h]

theorem Holds.mono (h : Holds r₀ r k s) (hb : r'.base = r.base) (hx : r'.extension = r.extension)
    (hw : s.writer ≠ none → r'.segments.length = r.segments.length ∧ r'.finished = r.finished) :
    Holds r₀ r' k s := by
  refine ⟨h.bounded, ?_, hx ▸ h.index, ?_⟩
  · rw [h.file]
    by_cases hk : k < r₀.segments.length
    · simp only [hk, if_true]
    · simp only [hk, if_false, fileOf_congr hb]
  · intro x hs
    obtain ⟨hlen, hfin⟩ := hw (by rw [hs]; exact Option.some_ne_none x)
    rw [hlen, hfin]
    exact h.writer x hs

theorem Holds.sameButReader (h : Holds r₀ r k s) (ht : s.SameButReader t) : Holds r₀ r k t := by
  rw [ht]
  exact ⟨h.bounded, h.file, h.index, h.writer⟩

/-! ## What each operation keeps -/

theorem represented_empty (extension : String) (base : Option Path) :
    Represented (empty extension base) (empty extension base) :=
  ⟨Manifest.inOrder_nil, rfl, Nat.le_refl _, fun _ _ hs => nomatch hs⟩

theorem Begins.representation (h : r.Begins) : Represented r r := by
  rcases h with ⟨extension, rfl⟩ | ⟨path, d, hload⟩
  · exact represented_empty extension none
  · obtain ⟨m, hm, rfl⟩ := load_eq_ok.mp hload
    have hl := listed_ofManifest (load_fault? hm) (baseOf path)
    refine ⟨hl.inOrder, rfl, Nat.le_refl _, ?_⟩
    intro k s hs
    have hmem := List.mem_of_getElem? hs
    refine ⟨bounded s.path, ?_, hl.index s hmem, ?_⟩
    · rw [ite_self]
      exact hl.file s hmem
    · intro x hx
      rw [idle_ofManifest _ _ s hmem] at hx
      cases hx

theorem Represented.span (h : Represented r₀ r) (hs : s ∈ r.segments) : s.start ≤ s.stop :=
  h.inOrder.span s.item (List.mem_map_of_mem hs)

theorem Represented.starts (h : Represented r₀ r) :
    r.segments.Pairwise fun s t => s.start ≤ t.start := by
  have hs := h.inOrder.starts
  rwa [manifest_items, List.pairwise_map] at hs

theorem Represented.withBase (h : Represented r₀ r) (hn : r.segments.length = r₀.segments.length)
    (directory : Path) : Represented r₀ (r.withBase directory) := by
  refine ⟨h.inOrder, h.extension, h.grown, ?_⟩
  intro k s hs
  have hold := h.segment k s hs
  have hk := (List.getElem?_eq_some_iff.mp hs).1
  have hfile := hold.file
  rw [if_pos (hn ▸ hk)] at hfile
  refine ⟨hold.bounded, ?_, hold.index, hold.writer⟩
  rw [if_pos (hn ▸ hk), hfile]

theorem Represented.setLast (h : Represented r₀ r) (hr : r.segments = init ++ [s])
    (ht : s.SamePlace t) (hspan : t.start ≤ t.stop)
    (hw : ∀ x, t.writer = some x → r.finished = false ∧ x.path = s.index ∧ x.mode = .record ∧
      x.isClosed = false) : Represented r₀ { r with segments := init ++ [t] } := by
  have hlen : (init ++ [t]).length = r.segments.length := by simp [hr]
  refine ⟨inOrder_setLast h.inOrder hr ht hspan, h.extension, hlen ▸ h.grown, ?_⟩
  intro k u hu
  by_cases hk : k < init.length
  · have hu' : r.segments[k]? = some u := by
      rw [hr, List.getElem?_append_left hk]
      rwa [List.getElem?_append_left hk] at hu
    exact (h.segment k u hu').mono rfl rfl fun _ => ⟨hlen, rfl⟩
  · obtain rfl : k = init.length := by
      have := (List.getElem?_eq_some_iff.mp hu).1
      simp at this
      omega
    simp at hu
    subst hu
    have hold := h.segment init.length s (by simp [hr])
    refine ⟨bounded _, ?_, ?_, ?_⟩
    · rw [ht.file, ht.path, hold.file]
      by_cases hk : init.length < r₀.segments.length
      · simp only [hk, if_true]
      · simp only [hk, if_false]
        rfl
    · rw [ht.index, ht.file, hold.index]
    · intro x hx
      exact ⟨by simp, by rw [ht.index]; exact hw x hx⟩

theorem Represented.finishLast (h : Represented r₀ r) (w : World) :
    Represented r₀ (r.finishLast w).1 ∧ (r.finishLast w).1.Idle ∧
      (r.finishLast w).1.segments.length = r.segments.length := by
  rcases finishLast_cases r w with ⟨hr, hf⟩ | ⟨init, s, hr, hf⟩
  · rw [hf]
    refine ⟨h, ?_, rfl⟩
    intro s hs
    rw [hr] at hs
    cases hs
  · rw [hf]
    have hspan := Segment.finish_span (h.span (s := s) (by rw [hr]; simp)) w
    have hnone := s.finish_inactive w
    refine ⟨h.setLast hr (s.finish_samePlace w) hspan ?_, ?_, ?_⟩
    · intro x hx
      rw [hnone] at hx
      cases hx
    · intro u hu
      rcases List.mem_append.mp hu with hu | hu
      · -- only the last segment could have a writer
        obtain ⟨k, hk⟩ := List.mem_iff_getElem?.mp hu
        have hlt := (List.getElem?_eq_some_iff.mp hk).1
        have hk' : r.segments[k]? = some u := by rw [hr, List.getElem?_append_left hlt, hk]
        apply Option.eq_none_iff_forall_ne_some.mpr
        intro x hx
        have := ((h.segment k u hk').writer x hx).1
        simp [hr] at this
        omega
      · rw [List.mem_singleton.mp hu]
        exact hnone
    · simp [hr]

theorem Represented.concat (h : Represented r₀ r) (hidle : r.Idle)
    (hn : r.refusal? path start = none) {x : Index}
    (hx : x.path = (r.fileOf path).indexPath r.extension ∧ x.mode = .record ∧ x.isClosed = false) :
    Represented r₀ { r with segments := r.segments ++ [r.opened path start x] } := by
  refine ⟨inOrder_concat h.inOrder hn x, h.extension, ?_, ?_⟩
  · simp only [List.length_append]
    exact Nat.le_add_right_of_le h.grown
  · intro k u hu
    by_cases hk : k < r.segments.length
    · rw [List.getElem?_append_left hk] at hu
      refine (h.segment k u hu).mono rfl rfl fun hs => ?_
      exact absurd (hidle u (List.mem_of_getElem? hu)) hs
    · obtain rfl : k = r.segments.length := by
        have := (List.getElem?_eq_some_iff.mp hu).1
        simp at this
        omega
      simp at hu
      subst hu
      refine ⟨bounded _, ?_, rfl, ?_⟩
      · rw [if_neg (Nat.not_lt.mpr h.grown)]
        rfl
      · intro y hy
        cases hy
        exact ⟨by simp, (refusal?_eq_none.mp hn).1, hx⟩

theorem openRecord_handle {p : Path} {x : Index} (h : Index.openRecord p w = (.ok x, w')) :
    x.path = p ∧ x.mode = .record ∧ x.isClosed = false := by
  obtain ⟨i, d, _, rfl, _⟩ := Index.openRecord_ok h
  exact ⟨rfl, rfl, rfl⟩

theorem Represented.append (h : Represented r₀ r) (ha : r.append path start w = (.ok r', w')) :
    Represented r₀ r' := by
  obtain ⟨hn, x, w₁, hopen, rfl, _⟩ := append_eq_ok.mp ha
  obtain ⟨hkept, hidle, _⟩ := h.finishLast w₁
  obtain ⟨hext, hbase, _, hrefusal, hopened⟩ := finishLast_keeps r w₁
  rw [← hopened]
  refine hkept.concat hidle (hrefusal ▸ hn) ?_
  rw [fileOf_congr hbase, hext]
  exact openRecord_handle hopen

theorem Represented.record (h : Represented r₀ r) (hr : r.record e w = (.ok r', w')) :
    Represented r₀ r' := by
  obtain ⟨init, s, x, x', hs, hx, hwrite, rfl⟩ := record_eq_ok hr
  have hspan : s.start ≤ s.stop := h.span (by rw [hs]; simp)
  refine h.setLast hs ⟨rfl, rfl, rfl, rfl⟩ (UInt64.le_trans hspan (left_le_max _ _)) ?_
  intro y hy
  cases hy
  rw [Index.write_eq_ok hwrite]
  exact ((h.segment init.length s (by simp [hs])).writer x hx).2

theorem Represented.finish (h : Represented r₀ r) (w : World) :
    Represented r₀ (r.finish w).1 := by
  unfold Recording.finish
  by_cases hf : r.finished = true
  · rw [if_pos hf]
    exact h
  · rw [if_neg hf]
    obtain ⟨hkept, hidle, _⟩ := h.finishLast w
    refine ⟨hkept.inOrder, hkept.extension, hkept.grown, ?_⟩
    intro k s hs
    refine (hkept.segment k s hs).mono rfl rfl fun hw => ?_
    exact absurd (hidle s (List.mem_of_getElem? hs)) hw

theorem Represented.set (h : Represented r₀ r) (hs : r.segments[k]? = some s)
    (ht : s.SameButReader t) : Represented r₀ { r with segments := r.segments.set k t } := by
  have hlen : (r.segments.set k t).length = r.segments.length := List.length_set
  refine ⟨?_, h.extension, hlen ▸ h.grown, ?_⟩
  · rw [manifest_items, map_set hs (by rw [ht]; rfl), ← manifest_items]
    exact h.inOrder
  · intro j u hu
    by_cases hj : k = j
    · subst hj
      rw [List.getElem?_set_self (List.getElem?_eq_some_iff.mp hs).1] at hu
      cases hu
      exact ((h.segment k s hs).sameButReader ht).mono rfl rfl fun _ => ⟨hlen, rfl⟩
    · rw [List.getElem?_set_ne hj] at hu
      exact (h.segment j u hu).mono rfl rfl fun _ => ⟨hlen, rfl⟩

theorem Represented.turn (h : Represented r₀ r) {o : Operation} (ht : Turn r w o r' w') :
    Represented r₀ r' := by
  cases ht with
  | appended ha => exact h.append ha
  | notAppended _ => exact h
  | recorded hr => exact h.record hr
  | notRecorded _ => exact h
  | finished => exact h.finish w
  | stored path => exact h
  | asked ask hs => exact h.set hs (Segment.query_sameButReader _ ask w.disk)
  | unanswered => exact h

theorem Represented.came (h : Represented r₀ r₀) (hr : Came r₀ r) : Represented r₀ r := by
  induction hr with
  | start => exact h
  | based directory _ hn ih => exact ih.withBase hn directory
  | performed o w _ ih => exact ih.turn (turn_perform _ w o)

/-! ## The end of a recording -/

/-- The recording `r` is finished, and `r'` is `r` but for its directory and what its segments have
open. -/
structure Ended (r r' : Recording) : Prop where
  finished : r'.finished = true
  items : r'.segments.map Segment.item = r.segments.map Segment.item
  idle : r'.Idle

theorem Ended.append (h : Ended r r') (path : SegmentPath) (start : UInt64) (w : World) :
    ∃ e, r'.append path start w = (.error e, w) := by
  cases hr : r'.refusal? path start with
  | none =>
    have := (refusal?_eq_none.mp hr).1
    rw [h.finished] at this
    cases this
  | some err => exact ⟨err, by simp only [Recording.append, hr]⟩

theorem Ended.record (h : Ended r r') (e : Entry) (w : World) :
    ∃ err, r'.record e w = (.error err, w) := by
  obtain ⟨what, hr⟩ := record_inactive (fun s hs => h.idle s (List.mem_of_getLast? hs)) e w
  exact ⟨_, hr⟩

theorem Ended.finish (h : Ended r r') (w : World) : r'.finish w = (r', w) := by
  unfold Recording.finish
  rw [if_pos h.finished]

theorem Ended.turn {r₁ : Recording} (h : Ended r r₁) {o : Operation} (ht : Turn r₁ w o r' w') :
    Ended r r' := by
  cases ht with
  | appended ha =>
    obtain ⟨err, he⟩ := h.append _ _ w
    rw [he] at ha
    cases ha
  | notAppended _ => exact h
  | recorded hr =>
    obtain ⟨err, he⟩ := h.record _ w
    rw [he] at hr
    cases hr
  | notRecorded _ => exact h
  | finished =>
    rw [h.finish w]
    exact h
  | stored path => exact h
  | @asked o α ask k s hs =>
    have hst := s.query_sameButReader ask w.disk
    refine ⟨h.finished, ?_, ?_⟩
    · rw [map_set hs (by rw [hst]; rfl)]
      exact h.items
    · intro u hu
      rcases List.mem_or_eq_of_mem_set hu with hu | rfl
      · exact h.idle u hu
      · rw [hst]
        exact h.idle s (List.mem_of_getElem? hs)
  | unanswered => exact h

theorem Ended.came (h : Ended r r) (hr : Came r r') : Ended r r' := by
  induction hr with
  | start => exact h
  | based directory _ _ ih => exact ⟨ih.finished, ih.items, ih.idle⟩
  | performed o w _ ih => exact ih.turn (turn_perform _ w o)

theorem Represented.ended (h : Represented r₀ r) (hf : r.finished = true) : Ended r r := by
  refine ⟨hf, rfl, ?_⟩
  intro s hs
  obtain ⟨k, hk⟩ := List.mem_iff_getElem?.mp hs
  apply Option.eq_none_iff_forall_ne_some.mpr
  intro x hx
  have := ((h.segment k s hk).writer x hx).2.1
  rw [hf] at this
  cases this

/-- Whatever is done to a recording, it is represented as it should be; and once it is finished,
nothing adds a segment or a sample to it or has it unfinished again. -/
theorem represented (hb : Begins r₀) (hr : Came r₀ r) : Represented r₀ r ∧
    (r.finished = true → r.Idle ∧ ∀ r', Came r r' → r'.finished = true ∧ r'.Idle ∧
      r'.segments.map Segment.item = r.segments.map Segment.item ∧
      (∀ path start w, ∃ e, r'.append path start w = (.error e, w)) ∧
      (∀ e w, ∃ err, r'.record e w = (.error err, w)) ∧ ∀ w, r'.finish w = (r', w)) := by
  have hrep := hb.representation.came hr
  refine ⟨hrep, ?_⟩
  intro hf
  have hended := hrep.ended hf
  refine ⟨hended.idle, ?_⟩
  intro r' hr'
  have h := hended.came hr'
  exact ⟨h.finished, h.idle, h.items, h.append, h.record, h.finish⟩

end

/-! ## Two segments, and the end of them -/

def plainWorld : World := ⟨.blank ["work".toList], []⟩

def firstName : SegmentPath := ⟨"a.ts", by decide, by decide⟩
def secondName : SegmentPath := ⟨"b.ts", by decide, by decide⟩

def begun : Recording × World := (empty "idx" none).perform plainWorld (.append firstName 10)
def sampled : Recording × World := begun.1.perform begun.2 (.record ⟨12, 7⟩)
def rotated : Recording × World := sampled.1.perform sampled.2 (.append secondName 20)

/-- The world, with other storage under the first index. -/
def stored (m : Medium) (w : World) : World := { w with disk := w.disk.setMedium 2 m }

def closed : Recording := (rotated.1.perform rotated.2 .finish).1

theorem came_rotated : Came (empty "idx" none) rotated.1 :=
  ((Came.start.performed (.append firstName 10) plainWorld).performed (.record ⟨12, 7⟩)
    begun.2).performed (.append secondName 20) sampled.2

/-- The first segment is sealed and the second one recorded, until both are finished. -/
theorem represented_rotated : Represented (empty "idx" none) rotated.1 ∧
    (rotated.1.segments.map fun s => (s.item, s.index.text, s.writer.isSome)) =
      [(⟨firstName, 10, 12⟩, "a.ts.idx", false), (⟨secondName, 20, 20⟩, "b.ts.idx", true)] ∧
    (∃ s x, rotated.1.segments[1]? = some s ∧ s.writer = some x ∧ x.path = s.index ∧
      x.mode = .record ∧ x.isClosed = false) ∧
    closed.segments.map Segment.item = [⟨firstName, 10, 12⟩, ⟨secondName, 20, 20⟩] ∧ closed.Idle ∧
    ∀ path start w, ∃ e, closed.append path start w = (.error e, w) := by
  obtain ⟨hrep, _⟩ := represented (.inl ⟨"idx", rfl⟩) came_rotated
  obtain ⟨_, hended⟩ := represented (.inl ⟨"idx", rfl⟩) (came_rotated.performed .finish rotated.2)
  have hrows : (rotated.1.segments.map fun s => (s.item, s.index.text, s.writer.isSome)) =
      [(⟨firstName, 10, 12⟩, "a.ts.idx", false), (⟨secondName, 20, 20⟩, "b.ts.idx", true)] := by
    decide +kernel
  obtain ⟨hidle, hlater⟩ := hended (by decide +kernel)
  refine ⟨hrep, hrows, ?_, by decide +kernel, hidle, (hlater closed .start).2.2.2.1⟩
  have hsecond := congrArg (·[1]?) hrows
  simp only [List.getElem?_map, List.getElem?_cons_succ, List.getElem?_cons_zero,
    Option.map_eq_some_iff, Prod.mk.injEq] at hsecond
  obtain ⟨s, hs, _, _, hactive⟩ := hsecond
  obtain ⟨x, hx⟩ := Option.isSome_iff_exists.mp hactive
  exact ⟨s, x, hs, hx, ((hrep.segment 1 s hs).writer x hx).2.2⟩

end Timeshift.Recording
