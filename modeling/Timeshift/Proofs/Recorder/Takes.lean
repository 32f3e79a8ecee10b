import Timeshift.Proofs.Recorder.Naming
import Timeshift.Proofs.Segment

/-!
# Takes

What a recorder was asked to record, segment by segment: where it starts and the samples that were
accepted for it. A take that is over is listed with the time of its last sample as its end, or with
its start if it has none; the last one may still be going on, and is listed with some end.
-/

namespace Timeshift

structure Take where
  start : UInt64
  entries : List Entry
  deriving DecidableEq

namespace Take

def stop (t : Take) : UInt64 :=
  match t.entries.getLast? with
  | some e => max e.timestamp t.start
  | none => t.start

def add (t : Take) (e : Entry) : Take := { t with entries := t.entries ++ [e] }

end Take

theorem SegmentPath.ext_text {p q : SegmentPath} (h : p.text = q.text) : p = q := by
  obtain ⟨s, _, _⟩ := p
  obtain ⟨t, _, _⟩ := q
  cases h
  rfl

namespace Recorder

def note (e : Entry) : List Take → List Take
  | [] => []
  | [t] => [t.add e]
  | t :: u :: takes => t :: note e (u :: takes)

theorem note_concat (e : Entry) (t : Take) : ∀ before : List Take,
    note e (before ++ [t]) = before ++ [t.add e]
  | [] => rfl
  | [_] => rfl
  | u :: v :: before => congrArg (u :: ·) (note_concat e t (v :: before))

def sealed (c : RecorderSettings) (takes : List Take) : List (String × UInt64 × UInt64) :=
  takes.mapIdx fun k t => (segmentName c k, t.start, t.stop)

def row (s : Manifest.Item) : String × UInt64 × UInt64 := (s.path.text, s.start, s.stop)

theorem row_injective {s t : Manifest.Item} (h : row s = row t) : s = t := by
  obtain ⟨p, a, b⟩ := s
  obtain ⟨q, _, _⟩ := t
  simp only [row, Prod.mk.injEq] at h
  obtain ⟨hp, rfl, rfl⟩ := h
  rw [SegmentPath.ext_text hp]

/-- The items list the takes in order, all over but the last. -/
inductive Lists (c : RecorderSettings) : List Take → List Manifest.Item → Prop
  | nil : Lists c [] []
  | concat {before : List Take} {t : Take} {items : List Manifest.Item} {s : Manifest.Item} :
      items.map row = sealed c before → s.path.text = segmentName c before.length →
      s.start = t.start → (t.entries = [] → s.stop = t.start) →
      Lists c (before ++ [t]) (items ++ [s])

section
variable {c : RecorderSettings} {takes before : List Take} {t : Take}
  {items : List Manifest.Item} {s : Manifest.Item} {e : Entry} {k : Nat}

theorem sealed_concat (c : RecorderSettings) (takes : List Take) (t : Take) :
    sealed c (takes ++ [t]) =
      sealed c takes ++ [(segmentName c takes.length, t.start, t.stop)] := by
  unfold sealed
  rw [List.mapIdx_append]
  simp

theorem length_eq_of_sealed (h : items.map row = sealed c takes) : items.length = takes.length := by
  have := congrArg List.length h
  rwa [List.length_map, sealed, List.length_mapIdx] at this

theorem get_of_sealed (h : items.map row = sealed c takes) (hs : items[k]? = some s)
    (ht : takes[k]? = some t) : s.path.text = segmentName c k ∧ s.start = t.start ∧
      s.stop = t.stop := by
  have := congrArg (·[k]?) h
  simp only [sealed, List.getElem?_map, List.getElem?_mapIdx, hs, ht, Option.map_some,
    Option.some.injEq, row, Prod.mk.injEq] at this
  exact this

theorem forall_concat {α β : Type} {P : Nat → α → β → Prop} {as : List α} {bs : List β} {a : α}
    {b : β} (hlen : as.length = bs.length)
    (h : ∀ (k : Nat) (x : α) (y : β), as[k]? = some x → bs[k]? = some y → P k x y)
    (hlast : P bs.length a b) :
    ∀ (k : Nat) (x : α) (y : β), (as ++ [a])[k]? = some x → (bs ++ [b])[k]? = some y → P k x y := by
  intro k x y hx hy
  rcases Nat.lt_trichotomy k bs.length with hk | hk | hk
  · rw [List.getElem?_append_left (hlen ▸ hk)] at hx
    rw [List.getElem?_append_left hk] at hy
    exact h k x y hx hy
  · rw [hk, List.getElem?_concat_length, Option.some.injEq] at hy
    rw [hk, ← hlen, List.getElem?_concat_length, Option.some.injEq] at hx
    rw [hk, ← hx, ← hy]
    exact hlast
  · rw [List.getElem?_eq_none (by simp; omega)] at hy
    cases hy

theorem forall_split {α β : Type} {P : Nat → α → β → Prop} {as : List α} {bs : List β} {a : α}
    (hlen : (as ++ [a]).length = bs.length)
    (h : ∀ (k : Nat) (x : α) (y : β), (as ++ [a])[k]? = some x → bs[k]? = some y → P k x y) :
    ∃ before b, bs = before ++ [b] ∧ as.length = before.length ∧
      (∀ (k : Nat) (x : α) (y : β), as[k]? = some x → before[k]? = some y → P k x y) ∧
      P before.length a b := by
  rcases List.eq_nil_or_concat bs with rfl | ⟨before, b, rfl⟩
  · simp at hlen
  · rw [List.concat_eq_append] at h hlen ⊢
    have hlen' : as.length = before.length := by simpa using hlen
    refine ⟨before, b, rfl, hlen', ?_, ?_⟩
    · intro k x y hx hy
      have hk := (List.getElem?_eq_some_iff.mp hx).1
      refine h k x y ?_ ?_
      · rwa [List.getElem?_append_left hk]
      · rwa [List.getElem?_append_left (hlen' ▸ hk)]
    · apply h before.length a b
      · rw [← hlen', List.getElem?_concat_length]
      · rw [List.getElem?_concat_length]

namespace Lists

theorem length_eq (h : Lists c takes items) : items.length = takes.length := by
  cases h with
  | nil => rfl
  | concat h => simp [length_eq_of_sealed h]

theorem nil_iff (h : Lists c takes items) : items = [] ↔ takes = [] := by
  rw [← List.length_eq_zero_iff, h.length_eq, List.length_eq_zero_iff]

theorem concat_iff : Lists c (before ++ [t]) (items ++ [s]) ↔ items.map row = sealed c before ∧
    s.path.text = segmentName c before.length ∧ s.start = t.start ∧
      (t.entries = [] → s.stop = t.start) := by
  constructor
  · intro h
    generalize htakes : before ++ [t] = takes at h
    generalize hitems : items ++ [s] = all at h
    cases h with
    | nil => cases List.concat_ne_nil _ _ htakes
    | concat h₁ h₂ h₃ h₄ =>
      obtain ⟨rfl, ht⟩ := List.append_inj' htakes rfl
      obtain ⟨rfl, hs⟩ := List.append_inj' hitems rfl
      cases ht
      cases hs
      exact ⟨h₁, h₂, h₃, h₄⟩
  · rintro ⟨h₁, h₂, h₃, h₄⟩
    exact .concat h₁ h₂ h₃ h₄

theorem get (h : Lists c takes items) (hs : items[k]? = some s) (ht : takes[k]? = some t) :
    s.path.text = segmentName c k ∧ s.start = t.start := by
  cases h with
  | nil => cases ht
  | @concat before last items item h₁ h₂ h₃ _ =>
    refine forall_concat (P := fun k s t => s.path.text = segmentName c k ∧ s.start = t.start)
      (length_eq_of_sealed h₁) (fun j u v hu hv => ?_) ⟨h₂, h₃⟩ k s t hs ht
    have := get_of_sealed h₁ hu hv
    exact ⟨this.1, this.2.1⟩

theorem starts (h : Lists c takes items) : items.map (·.start) = takes.map (·.start) := by
  refine List.ext_getElem? fun k => ?_
  rw [List.getElem?_map, List.getElem?_map]
  cases hs : items[k]? with
  | none =>
    rw [List.getElem?_eq_none_iff, h.length_eq, ← List.getElem?_eq_none_iff] at hs
    rw [hs]
    rfl
  | some s =>
    obtain ⟨hk, _⟩ := List.getElem?_eq_some_iff.mp hs
    rw [h.length_eq] at hk
    rw [List.getElem?_eq_getElem hk]
    exact congrArg some (h.get hs (List.getElem?_eq_getElem hk)).2

end Lists

end

end Recorder

end Timeshift
