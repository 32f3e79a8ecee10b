import Timeshift.Proofs.Recording.Samples
import Timeshift.Proofs.Recording.Undisturbed

/-!
# A recording that is being made

An append opens the index of a new segment and a sample writes to that of the last; nothing else
happens to the disk while a recording is made. Until it is finished its last segment is recorded,
and there is a file where each of its index paths leads.
-/

namespace Timeshift

namespace Disk

structure SameWays (d d' : Disk) : Prop where
  forth : Extends d d'
  back : Extends d' d

section
variable {d d' : Disk} {p : Path} {i : FileId}

theorem SameWays.refl (d : Disk) : SameWays d d := ⟨.refl d, .refl d⟩

theorem SameWays.trans {d₁ d₂ d₃ : Disk} (h : SameWays d₁ d₂) (h' : SameWays d₂ d₃) :
    SameWays d₁ d₃ := ⟨h.forth.trans h'.forth, h'.back.trans h.back⟩

theorem ChangesOnly.sameWays (h : ChangesOnly i d d') : SameWays d d' :=
  ⟨h.extends_, .of_nodes h.here.symm h.nodes.symm⟩

theorem sameWays_openCreate (h : d.openCreate p = .ok (i, d')) : SameWays d d' := by
  obtain ⟨n, hp, ⟨_, hd⟩ | ⟨_, hd⟩⟩ := openCreate_ok h
  · rw [hd]
    exact .refl d
  · refine ⟨openCreate_extends h, ?_⟩
    rw [show d' = (d.addFile n).2 from congrArg Prod.snd hd]
    refine ⟨rfl, ?_⟩
    intro m hm
    rw [node?_addFile hp.ne_nil] at hm
    split at hm
    · cases hm
    · exact hm

end

end Disk

namespace Index

theorem sameWays_openRecord (path : Path) (w : World) :
    w.disk.SameWays (openRecord path w).2.disk := by
  cases h : openRecord path w with
  | mk result w' =>
    cases result with
    | ok x =>
      obtain ⟨j, d, hcreate, _, _, hchange, _⟩ := openRecord_ok h
      exact (Disk.sameWays_openCreate hcreate).trans hchange.sameWays
    | error err =>
      rcases openRecord_error h with hd | ⟨j, _, hchange, _⟩
      · rw [hd]
        exact .refl _
      · exact hchange.sameWays

end Index

namespace Recording

def Operation.Records : Operation → Prop
  | .append _ _ | .record _ | .finish => True
  | _ => False

instance decidableRecords : DecidablePred Operation.Records
  | .append _ _ | .record _ | .finish => .isTrue trivial
  | .store _ | .lookUp _ | .lookUpIn _ _ | .entriesOf _ | .firstOf _ => .isFalse id

def performAll (r : Recording) (w : World) : List Operation → Recording × World
  | [] => (r, w)
  | o :: os => (r.perform w o).1.performAll (r.perform w o).2 os

theorem performAll_keeps {P : Recording → World → Prop} {r : Recording} {w : World}
    {os : List Operation} (h : P r w)
    (hstep : ∀ o ∈ os, ∀ r w, P r w → P (r.perform w o).1 (r.perform w o).2) :
    P (r.performAll w os).1 (r.performAll w os).2 := by
  induction os generalizing r w with
  | nil => exact h
  | cons o os ih =>
    apply ih (hstep o List.mem_cons_self r w h)
    exact fun o' ho' => hstep o' (List.mem_cons_of_mem _ ho')

def indexOf (r : Recording) (path : SegmentPath) : Path := (r.fileOf path).indexPath r.extension

section
variable {r₀ r r' : Recording} {w w' : World} {o : Operation} {s : Segment} {k : Nat} {d : Disk}
  {extension : String}

/-! ## What recording does to the disk -/

theorem kept_snd (r : Recording) (p : Except Error Recording × World) : (r.kept p).2 = p.2 := by
  obtain ⟨_ | _, _⟩ := p <;> rfl

theorem disk_append (r : Recording) (path : SegmentPath) (start : UInt64) (w : World) :
    (r.append path start w).2.disk = w.disk ∨ r.refusal? path start = none ∧
      (r.append path start w).2.disk = (Index.openRecord (r.indexOf path) w).2.disk := by
  unfold append indexOf
  cases hr : r.refusal? path start with
  | some err => exact .inl rfl
  | none =>
    right
    refine ⟨rfl, ?_⟩
    cases hopen : Index.openRecord ((r.fileOf path).indexPath r.extension) w with
    | mk result w₁ =>
      cases result with
      | error err => simp only [hopen]
      | ok x => simp only [hopen, disk_finishLast]

theorem disk_record (r : Recording) (e : Entry) (w : World) : (r.record e w).2.disk = w.disk ∨
    ∃ init t x j, r.segments = init ++ [t] ∧ t.writer = some x ∧ x.file = some j ∧
      w.disk.ChangesOnly j (r.record e w).2.disk := by
  by_cases hr : r.isRecording = true
  · obtain ⟨init, t, x, hinit, hx⟩ := isRecording_iff.mp hr
    rw [(record_outcome hinit hx e w).2]
    rcases x.write_touches e w with hd | ⟨j, hj, hchange⟩
    · exact .inl hd
    · exact .inr ⟨init, t, x, j, hinit, hx, hj, hchange⟩
  · obtain ⟨what, hw⟩ := record_inactive (idle_of_isRecording hr) e w
    rw [hw]
    exact .inl rfl

theorem disk_finish (r : Recording) (w : World) : (r.finish w).2.disk = w.disk := by
  rcases r.finish_cases w with h | ⟨_, h⟩
  · rw [h]
  · rw [h]
    exact r.disk_finishLast w

/-- An index is opened for a new segment, or the index of the last one is written. -/
theorem disk_perform (ho : o.Records) (r : Recording) (w : World) :
    (r.perform w o).2.disk = w.disk ∨
    (∃ path start, o = .append path start ∧ r.refusal? path start = none ∧
      (r.perform w o).2.disk = (Index.openRecord (r.indexOf path) w).2.disk) ∨
    ∃ init t x j, r.segments = init ++ [t] ∧ t.writer = some x ∧ x.file = some j ∧
      w.disk.ChangesOnly j (r.perform w o).2.disk := by
  match o, ho with
  | .append path start, _ =>
    unfold perform
    rw [kept_snd]
    rcases r.disk_append path start w with hd | ⟨hn, hd⟩
    · exact .inl hd
    · exact .inr (.inl ⟨path, start, rfl, hn, hd⟩)
  | .record e, _ =>
    unfold perform
    rw [kept_snd]
    exact (r.disk_record e w).imp_right .inr
  | .finish, _ => exact .inl (r.disk_finish w)

theorem sound_perform (hs : w.disk.Sound) (ho : o.Records) (r : Recording) :
    (r.perform w o).2.disk.Sound := by
  rcases disk_perform ho r w with hd | ⟨path, start, _, _, hd⟩ | ⟨_, _, _, j, _, _, _, hchange⟩
  · rw [hd]
    exact hs
  · rw [hd]
    exact Index.sound_openRecord hs _
  · exact hchange.sound hs

theorem sound_performAll {os : List Operation} (hs : w.disk.Sound) (hos : ∀ o ∈ os, o.Records) :
    (r.performAll w os).2.disk.Sound := by
  refine performAll_keeps (P := fun _ w => w.disk.Sound) hs ?_
  exact fun o ho r w h => sound_perform h (hos o ho) r

theorem sameWays_perform (ho : o.Records) (r : Recording) (w : World) :
    w.disk.SameWays (r.perform w o).2.disk := by
  rcases disk_perform ho r w with hd | ⟨path, start, _, _, hd⟩ | ⟨_, _, _, j, _, _, _, hchange⟩
  · rw [hd]
    exact .refl _
  · rw [hd]
    exact Index.sameWays_openRecord _ w
  · exact hchange.sameWays

theorem keepsFiles_perform (ho : o.Records) (r : Recording) (w : World) :
    w.disk.KeepsFiles (r.perform w o).2.disk := by
  rcases disk_perform ho r w with hd | ⟨path, start, _, _, hd⟩ | ⟨_, _, _, j, _, _, _, hchange⟩
  · rw [hd]
    exact .refl _
  · rw [hd]
    exact Index.keepsFiles_openRecord _ w
  · exact hchange.keepsFiles

/-! ## What recording does to the segments -/

theorem kept_fst (r : Recording) (p : Except Error Recording × World) :
    (r.kept p).1 = r ∨ p = (.ok (r.kept p).1, p.2) := by
  obtain ⟨_ | _, _⟩ := p
  · exact .inl rfl
  · exact .inr rfl

theorem recording_perform (ho : o.Records) (r : Recording) (w : World) :
    (r.perform w o).1 = r ∨
    (∃ path start w', o = .append path start ∧
      r.append path start w = (.ok (r.perform w o).1, w')) ∨
    (∃ e w', r.record e w = (.ok (r.perform w o).1, w')) ∨
    (r.perform w o).1 = (r.finish w).1 := by
  match o, ho with
  | .append path start, _ =>
    exact (r.kept_fst (r.append path start w)).imp_right fun h => .inl ⟨path, start, _, rfl, h⟩
  | .record e, _ =>
    exact (r.kept_fst (r.record e w)).imp_right fun h => .inr (.inl ⟨e, _, h⟩)
  | .finish, _ => exact .inr (.inr (.inr rfl))

theorem indexOf_congr (hx : r'.extension = r.extension) (hb : r'.base = r.base) :
    r'.indexOf = r.indexOf := by
  funext path
  unfold indexOf
  rw [fileOf_congr hb, hx]

theorem indexOf_perform (ho : o.Records) (r : Recording) (w : World) :
    (r.perform w o).1.indexOf = r.indexOf := by
  rcases recording_perform ho r w with hr | ⟨path, start, w', _, ha⟩ | ⟨e, w', hr⟩ | hr
  · rw [hr]
  · obtain ⟨_, x, w₁, _, hr', _⟩ := append_eq_ok.mp ha
    obtain ⟨hx, hb, _⟩ := finishLast_keeps r w₁
    rw [hr']
    exact indexOf_congr hx hb
  · obtain ⟨_, _, _, _, _, _, _, hr'⟩ := record_eq_ok hr
    rw [hr']
    exact indexOf_congr rfl rfl
  · rw [hr]
    rcases r.finish_cases w with hw | ⟨_, hw⟩
    · rw [hw]
    · obtain ⟨hx, hb, _⟩ := finishLast_keeps r w
      rw [hw]
      exact indexOf_congr hx hb

theorem indexes_finish (r : Recording) (w : World) : (r.finish w).1.indexes = r.indexes :=
  map_finish (fun h => h.index) r w

theorem indexes_perform (ho : o.Records) (r : Recording) (w : World) :
    (r.perform w o).1.indexes = r.indexes ∨
    ∃ path start, o = .append path start ∧ r.refusal? path start = none ∧
      (r.perform w o).1.indexes = r.indexes ++ [r.indexOf path] := by
  rcases recording_perform ho r w with hr | ⟨path, start, w', heq, ha⟩ | ⟨e, w', hr⟩ | hr
  · rw [hr]
    exact .inl rfl
  · exact .inr ⟨path, start, heq, (append_eq_ok.mp ha).1, indexes_append ha⟩
  · exact .inl (indexes_record hr)
  · rw [hr]
    exact .inl (indexes_finish r w)

theorem Went.records (hr : Went r₀ r w) (ho : o.Records) :
    Went r₀ (r.perform w o).1 (r.perform w o).2 := by
  apply hr.performed o
  intro path hstore
  rw [hstore] at ho
  exact ho.elim

theorem Went.performAll {os : List Operation} (hr : Went r₀ r w) (hos : ∀ o ∈ os, o.Records) :
    Went r₀ (r.performAll w os).1 (r.performAll w os).2 :=
  performAll_keeps hr fun o ho _ _ h => h.records (hos o ho)

/-! ## A new recording as it grows -/

def Ongoing (r : Recording) : Prop :=
  r.finished = true ∨ ∀ t ∈ r.segments.getLast?, t.writer ≠ none

theorem Ongoing.turn (h : r.Ongoing) (ht : Turn r w o r' w') : r'.Ongoing := by
  cases ht with
  | appended ha =>
    obtain ⟨_, x, w₁, _, rfl, _⟩ := append_eq_ok.mp ha
    right
    intro t ht
    rw [List.getLast?_concat] at ht
    cases ht
    exact nofun
  | notAppended _ => exact h
  | recorded hr =>
    obtain ⟨init, t, x, x', _, _, _, rfl⟩ := record_eq_ok hr
    right
    intro u hu
    rw [List.getLast?_concat] at hu
    cases hu
    exact nofun
  | notRecorded _ => exact h
  | finished =>
    rcases r.finish_cases w with hw | ⟨_, hw⟩
    · rw [hw]
      exact h
    · rw [hw]
      exact .inl rfl
  | stored path => exact h
  | @asked o α ask k s hs =>
    -- the last segment may be the one that was asked, which still has its writer
    refine h.imp_right fun hlast => ?_
    have hwriter := s.query_sameButReader ask w.disk
    have hmap : (r.segments.set k (s.query ask w.disk).2).map (·.writer) =
        r.segments.map (·.writer) := map_set hs (by rw [hwriter])
    intro t ht
    have hmem : t.writer ∈ (r.segments.map (·.writer)).getLast? := by
      rw [← hmap, List.getLast?_map, Option.mem_def.mp ht]
      rfl
    rw [List.getLast?_map] at hmem
    obtain ⟨u, hu, hut⟩ := Option.map_eq_some_iff.mp hmem
    rw [← hut]
    exact hlast u hu
  | unanswered => exact h

theorem Went.ongoing (hr : Went (empty extension none) r w) : r.Ongoing := by
  induction hr with
  | start w => exact .inr nofun
  | based directory _ _ ih => exact ih
  | performed o _ _ ih => exact ih.turn (turn_perform _ _ o)
  | elsewhere w' _ _ ih => exact ih

def HasFiles (r : Recording) (d : Disk) : Prop := ∀ p ∈ r.indexes, ∃ i, d.lookUp p = .ok (.file i)

theorem HasFiles.frame {d' : Disk} (h : r.HasFiles d) (hx : r'.indexes = r.indexes)
    (hk : ∀ p ∈ r.indexes, ∀ i, d.lookUp p = .ok (.file i) → d'.lookUp p = .ok (.file i)) :
    r'.HasFiles d' := by
  intro p hp
  rw [hx] at hp
  obtain ⟨i, hi⟩ := h p hp
  exact ⟨i, hk p hp i hi⟩

theorem HasFiles.indexes_kept {d' : Disk} (h : r.HasFiles d) (hk : r.KeepsIndexes d d') :
    r.HasFiles d' := by
  refine h.frame rfl ?_
  intro p hp i hi
  obtain ⟨s, hs, hsp⟩ := List.mem_map.mp hp
  rw [← hsp] at hi ⊢
  exact hk s hs i hi

theorem HasFiles.turn (h : r.HasFiles w.disk) (ht : Turn r w o r' w')
    (hk : ∀ path, o = .store path → r.KeepsIndexes w.disk w'.disk) : r'.HasFiles w'.disk := by
  cases ht with
  | @appended path start _ _ ha =>
    have hindexes := indexes_append ha
    have hkeeps := keepsFiles_append r path start w
    rw [ha] at hkeeps
    obtain ⟨_, x, w₁, hopen, _, rfl⟩ := append_eq_ok.mp ha
    rw [disk_finishLast] at hkeeps ⊢
    intro p hp
    rw [hindexes] at hp
    rcases List.mem_append.mp hp with hp | hp
    · obtain ⟨i, hi⟩ := h p hp
      exact ⟨i, hkeeps p i hi⟩
    · rw [List.mem_singleton.mp hp]
      obtain ⟨i, d, hcreate, _, _, hchange, _⟩ := Index.openRecord_ok hopen
      exact ⟨i, hchange.keepsFiles _ _ (Disk.lookUp_openCreate hcreate)⟩
  | @notAppended path start _ _ ha =>
    have hkeeps := keepsFiles_append r path start w
    rw [ha] at hkeeps
    exact h.frame rfl fun p _ => hkeeps p
  | @recorded e _ _ hr =>
    have hkeeps := keepsFiles_record r e w
    rw [hr] at hkeeps
    exact h.frame (indexes_record hr) fun p _ => hkeeps p
  | @notRecorded e _ _ hr =>
    have hkeeps := keepsFiles_record r e w
    rw [hr] at hkeeps
    exact h.frame rfl fun p _ => hkeeps p
  | finished =>
    rw [disk_finish]
    exact h.frame (indexes_finish r w) fun _ _ _ => id
  | stored path => exact h.indexes_kept (hk path rfl)
  | @asked o α ask k s hs =>
    have hsame := s.query_sameButReader ask w.disk
    exact h.frame (map_set hs hsame.samePlace.index) fun _ _ _ => id
  | unanswered => exact h

theorem Went.hasFiles (hr : Went (empty extension none) r w) : r.HasFiles w.disk := by
  induction hr with
  | start w => exact fun _ hp => nomatch hp
  | based directory _ _ ih => exact ih
  | performed o _ hk ih => exact ih.turn (turn_perform _ _ o) hk
  | elsewhere w' _ hk ih => exact ih.indexes_kept hk

theorem Went.index_eq (hr : Went (empty extension none) r w) (hs : r.segments[k]? = some s) :
    s.index = r.indexOf s.path := by
  have hholds := ((represented_empty extension none).came hr.came).segment k s hs
  have hfile := hholds.file
  rw [if_neg (show ¬ k < (empty extension none).segments.length from Nat.not_lt_zero k)] at hfile
  rw [hholds.index, hfile]
  rfl

end

end Recording

end Timeshift
