import Timeshift.Manifest
import Timeshift.Proofs.Json.RoundTrip

/-!
# Reading back a manifest

The document of a manifest reads back as that manifest, whatever text its paths and its extension
hold and whatever its times are. The rules of a recording are checked on the items from left to
right, and `fault?_eq_none` says what they come to.
-/

namespace Timeshift.Manifest

open Json

/-! ## The document -/

theorem reads_path (p : SegmentPath) : Reads readPath (quote p.text) p := by
  intro blank tail hb ht
  unfold readPath
  rw [reads_string p.text blank tail hb ht, ok_bind]
  simp only [SegmentPath.ofString_text]
  rfl

theorem reads_item (depth : Nat) (s : Item) : Reads Item.read (s.toJson.lines depth) s := by
  intro blank tail hb ht
  have hfields : MembersRead Item.readField (depth + 1) {}
      [("path", .string s.path.text), ("start_time", .number s.start.toNat),
        ("end_time", .number s.stop.toNat)] ⟨some s.path, some s.start, some s.stop⟩ := by
    refine ⟨⟨some s.path, none, none⟩, fun blank tail hb ht => ?_,
      ⟨some s.path, some s.start, none⟩, fun blank tail hb ht => ?_,
      ⟨some s.path, some s.start, some s.stop⟩, fun blank tail hb ht => ?_, rfl⟩
    · show (readPath (blank ++ quote s.path.text ++ tail) >>= _) = _
      rw [reads_path s.path blank tail hb ht]
      rfl
    · show (readWord (blank ++ Nat.toDigits 10 s.start.toNat ++ tail) >>= _) = _
      rw [reads_word s.start blank tail hb ht]
      rfl
    · show (readWord (blank ++ Nat.toDigits 10 s.stop.toNat ++ tail) >>= _) = _
      rw [reads_word s.stop blank tail hb ht]
      rfl
  unfold Item.read Item.toJson
  rw [reads_record _ hfields blank tail hb ht]
  rfl

theorem elementsRead_items (depth : Nat) : ∀ (items before : List Item),
    ElementsRead readItem depth before (items.map Item.toJson) (before ++ items)
  | [], before => (List.append_nil before).symm
  | s :: items, before => by
    refine ⟨before ++ [s], fun blank tail hb ht => ?_, ?_⟩
    · unfold readItem
      rw [reads_item depth s blank tail hb ht]
      rfl
    · have := elementsRead_items depth items (before ++ [s])
      rwa [List.append_assoc, List.singleton_append] at this

theorem reads_version (depth : Nat) (v : UInt32) :
    Reads (readNat UInt32.size) ((Json.number v.toNat).lines depth) v.toNat :=
  reads_nat v.toNat_lt

theorem reads_manifest (m : Manifest) : Reads Manifest.read (m.toJson.lines 0) m := by
  intro blank tail hb ht
  have hfields : MembersRead readField 1 {}
      [("version", .number m.version.toNat), ("index_extension", .string m.extension),
        ("finished", .bool m.finished), ("segments", .array (m.items.map Item.toJson))]
      ⟨some m.version, some m.extension, some m.finished, some m.items⟩ := by
    refine ⟨⟨some m.version, none, none, none⟩, fun blank tail hb ht => ?_,
      ⟨some m.version, some m.extension, none, none⟩, fun blank tail hb ht => ?_,
      ⟨some m.version, some m.extension, some m.finished, none⟩, fun blank tail hb ht => ?_,
      ⟨some m.version, some m.extension, some m.finished, some m.items⟩,
      fun blank tail hb ht => ?_, rfl⟩
    · show (readNat UInt32.size (blank ++ (Json.number m.version.toNat).lines 1 ++ tail) >>= _) = _
      rw [reads_version 1 m.version blank tail hb ht, ok_bind]
      simp only [UInt32.ofNat_toNat]
      rfl
    · show (readString (blank ++ quote m.extension ++ tail) >>= _) = _
      rw [reads_string m.extension blank tail hb ht]
      rfl
    · show (readBool (blank ++ (Json.bool m.finished).lines 1 ++ tail) >>= _) = _
      rw [reads_bool 1 m.finished blank tail hb ht]
      rfl
    · show (readArray readItem [] (blank ++ (Json.array (m.items.map Item.toJson)).lines 1 ++ tail)
        >>= _) = _
      rw [reads_array (elementsRead_items 2 m.items []) blank tail hb ht]
      rfl
  unfold Manifest.read toJson
  rw [reads_record _ hfields blank tail hb ht]
  rfl

theorem ofText_text (m : Manifest) : ofText m.text = .ok m :=
  readAll_of_reads (reads_manifest m)

/-! ## The rules -/

structure InOrder (items : List Item) : Prop where
  span : ∀ s ∈ items, s.start ≤ s.stop
  starts : items.Pairwise fun s t => s.start ≤ t.start
  distinct : items.Pairwise fun s t => s.path ≠ t.path

theorem itemFault?_eq_none {before : List Item} {s : Item} :
    itemFault? before s = none ↔ s.start ≤ s.stop ∧
      (∀ t ∈ before.getLast?, t.start ≤ s.start) ∧ ∀ t ∈ before, t.path ≠ s.path := by
  unfold itemFault?
  by_cases h₁ : s.stop < s.start
  · rw [if_pos h₁]
    exact ⟨nofun, fun h => absurd h.1 (UInt64.not_le.mpr h₁)⟩
  rw [if_neg h₁]
  by_cases h₂ : before.getLast?.any (s.start < ·.start) = true
  · rw [if_pos h₂]
    refine ⟨nofun, fun h => ?_⟩
    cases hl : before.getLast? with
    | none => rw [hl] at h₂; cases h₂
    | some t =>
      rw [hl, Option.any_some, decide_eq_true_eq] at h₂
      exact absurd (h.2.1 t hl) (UInt64.not_le.mpr h₂)
  rw [if_neg h₂]
  by_cases h₃ : before.any (·.path = s.path) = true
  · rw [if_pos h₃]
    refine ⟨nofun, fun h => ?_⟩
    obtain ⟨t, ht, heq⟩ := List.any_eq_true.mp h₃
    exact absurd (of_decide_eq_true heq) (h.2.2 t ht)
  rw [if_neg h₃]
  refine ⟨fun _ => ⟨UInt64.not_lt.mp h₁, fun t ht => ?_, fun t ht heq => ?_⟩, fun _ => rfl⟩
  · rw [Option.mem_def.mp ht, Option.any_some, decide_eq_true_eq] at h₂
    exact UInt64.not_lt.mp h₂
  · exact h₃ (List.any_eq_true.mpr ⟨t, ht, decide_eq_true heq⟩)

theorem start_le_last {items : List Item} {last : Item}
    (h : items.Pairwise fun s t => s.start ≤ t.start) (hl : items.getLast? = some last) :
    ∀ t ∈ items, t.start ≤ last.start := by
  intro t ht
  obtain ⟨init, rfl⟩ := List.getLast?_eq_some_iff.mp hl
  rcases List.mem_append.mp ht with ht | ht
  · exact (List.pairwise_append.mp h).2.2 t ht last (List.mem_singleton_self last)
  · rw [List.mem_singleton.mp ht]
    exact UInt64.le_refl _

theorem inOrder_concat {items : List Item} {s : Item} :
    InOrder (items ++ [s]) ↔ InOrder items ∧ itemFault? items s = none := by
  rw [itemFault?_eq_none]
  constructor
  · rintro ⟨hspan, hstarts, hdistinct⟩
    have hs := List.pairwise_append.mp hstarts
    have hd := List.pairwise_append.mp hdistinct
    exact ⟨⟨fun t ht => hspan t (List.mem_append_left _ ht), hs.1, hd.1⟩,
      hspan s (List.mem_append_right _ (List.mem_singleton_self s)),
      fun t ht => hs.2.2 t (List.mem_of_getLast? ht) s (List.mem_singleton_self s),
      fun t ht => hd.2.2 t ht s (List.mem_singleton_self s)⟩
  · rintro ⟨⟨hspan, hstarts, hdistinct⟩, hs, hlast, hnew⟩
    refine ⟨fun t ht => ?_, List.pairwise_append.mpr ⟨hstarts, List.pairwise_singleton _ _, ?_⟩,
      List.pairwise_append.mpr ⟨hdistinct, List.pairwise_singleton _ _, ?_⟩⟩
    · rcases List.mem_append.mp ht with ht | ht
      · exact hspan t ht
      · rw [List.mem_singleton.mp ht]; exact hs
    · intro t ht u hu
      rw [List.mem_singleton.mp hu]
      cases hl : items.getLast? with
      | none => rw [List.getLast?_eq_none_iff.mp hl] at ht; cases ht
      | some last => exact UInt64.le_trans (start_le_last hstarts hl t ht) (hlast last hl)
    · intro t ht u hu
      rw [List.mem_singleton.mp hu]
      exact hnew t ht

theorem itemsFault?_eq_none : ∀ (items : List Item) {before : List Item}, InOrder before →
    (itemsFault? before items = none ↔ InOrder (before ++ items))
  | [], before, h => by rw [List.append_nil]; exact ⟨fun _ => h, fun _ => rfl⟩
  | s :: items, before, h => by
    unfold itemsFault?
    cases hs : itemFault? before s with
    | some fault =>
      refine ⟨nofun, fun ho => ?_⟩
      have hsub : (before ++ [s]).Sublist (before ++ s :: items) :=
        List.Sublist.append_left (List.singleton_sublist.mpr List.mem_cons_self) before
      have : InOrder (before ++ [s]) :=
        ⟨fun t ht => ho.span t (hsub.subset ht), ho.starts.sublist hsub, ho.distinct.sublist hsub⟩
      rw [(inOrder_concat.mp this).2] at hs
      cases hs
    | none =>
      have := itemsFault?_eq_none items (inOrder_concat.mpr ⟨h, hs⟩)
      rwa [List.append_assoc, List.singleton_append] at this

theorem inOrder_nil : InOrder [] :=
  ⟨fun _ h => (by cases h), List.Pairwise.nil, List.Pairwise.nil⟩

theorem fault?_eq_none {m : Manifest} : m.fault? = none ↔
    m.version = currentVersion ∧ m.extension ≠ "" ∧ InOrder m.items := by
  unfold fault?
  by_cases hv : m.version = currentVersion
  · rw [if_neg (not_not_intro hv)]
    by_cases he : m.extension = ""
    · rw [if_pos he]
      exact ⟨nofun, fun h => absurd he h.2.1⟩
    · rw [if_neg he, itemsFault?_eq_none m.items inOrder_nil, List.nil_append]
      exact ⟨fun h => ⟨hv, he, h⟩, fun h => h.2.2⟩
  · rw [if_pos hv]
    exact ⟨nofun, fun h => absurd h.1 hv⟩

end Timeshift.Manifest
