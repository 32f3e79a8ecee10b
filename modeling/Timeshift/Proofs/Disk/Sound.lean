import Timeshift.Disk.Tree
import Timeshift.Proofs.Disk.Places

/-!
# Sound disks

A disk is sound if its names form a tree of directories with files at the leaves, a file has one
name, and the numbers of files are below the next one. Making a file and renaming one keep it so,
and on a sound disk both change only what stands at the names they were given.
-/

namespace Timeshift.Disk

structure Sound (d : Disk) : Prop where
  here : d.node? d.here = some .directory
  parent : ∀ {n piece x}, d.node? (n ++ [piece]) = some x → d.node? n = some .directory
  one_name : ∀ {m n i}, d.node? m = some (.file i) → d.node? n = some (.file i) → m = n
  file_lt : ∀ {n i}, d.node? n = some (.file i) → i < d.next

theorem node?_nil (d : Disk) : d.node? [] = some .directory := rfl

section
variable {d d' : Disk} {p q : Path} {m n s t : Name} {i j : FileId}

theorem node?_congr (h : d'.nodes = d.nodes) : d'.node? = d.node? := by
  funext n
  unfold node?
  rw [h]

theorem Sound.congr (hs : d.Sound) (hh : d'.here = d.here) (hn : d'.nodes = d.nodes)
    (hx : d'.next = d.next) : d'.Sound := by
  have hnode := node?_congr hn
  refine ⟨?_, fun {n piece x} h => ?_, fun {m n i} hm hi => ?_, fun {n i} hi => ?_⟩
  · rw [hnode, hh]; exact hs.here
  · rw [hnode] at h ⊢; exact hs.parent h
  · rw [hnode] at hm hi; exact hs.one_name hm hi
  · rw [hnode] at hi; rw [hx]; exact hs.file_lt hi

theorem ChangesOnly.sound (h : ChangesOnly i d d') (hs : d.Sound) : d'.Sound :=
  hs.congr h.here h.nodes h.next

theorem ChangesOnly.extends_ (h : ChangesOnly i d d') : Extends d d' := .of_nodes h.here h.nodes

theorem ChangesMedia.sound {P : Medium → Prop} (h : ChangesMedia P d d') (hs : d.Sound) :
    d'.Sound := hs.congr h.here h.nodes h.next

theorem ChangesMedia.extends_ {P : Medium → Prop} (h : ChangesMedia P d d') : Extends d d' :=
  .of_nodes h.here h.nodes

theorem Sound.node?_below (hs : d.Sound) : ∀ (n : Name) (piece : List Char) (rest : Name),
    d.node? n ≠ some .directory → d.node? (n ++ piece :: rest) = none
  | n, piece, rest, hn => by
    have hstep : d.node? (n ++ [piece]) = none := by
      cases h : d.node? (n ++ [piece]) with
      | none => rfl
      | some x => exact absurd (hs.parent h) hn
    match rest with
    | [] => exact hstep
    | piece' :: rest =>
      have h := hs.node?_below (n ++ [piece]) piece' rest (by rw [hstep]; nofun)
      rwa [List.append_assoc] at h

/-! ## Walking -/

theorem Sound.enter_directory (hs : d.Sound) (hm : d.node? m = some .directory)
    {piece : List Char} (he : d.enter m piece = .ok n) : d.node? n = some .directory := by
  unfold enter at he
  by_cases h₁ : piece = ['.']
  · rw [if_pos h₁] at he; cases he; exact hm
  rw [if_neg h₁] at he
  by_cases h₂ : piece = ['.', '.']
  · rw [if_pos h₂] at he
    cases he
    rcases List.eq_nil_or_concat m with rfl | ⟨init, last, rfl⟩
    · exact node?_nil d
    · rw [List.concat_eq_append] at hm ⊢
      rw [List.dropLast_concat]
      exact hs.parent hm
  rw [if_neg h₂] at he
  split at he
  · cases he
  · split at he
    · rename_i hd; cases he; exact hd
    · cases he
    · cases he

theorem Sound.walk_directory (hs : d.Sound) : ∀ {pieces : List (List Char)} {m n : Name},
    d.node? m = some .directory → d.walk m pieces = .ok n → d.node? n = some .directory
  | [], _, _, hm, hw => by cases hw; exact hm
  | piece :: pieces, m, n, hm, hw => by
    unfold walk at hw
    rw [List.foldlM_cons] at hw
    obtain ⟨a, ha, hw⟩ := bind_eq_ok.mp hw
    exact hs.walk_directory (hs.enter_directory hm ha) hw

theorem Sound.start_directory (hs : d.Sound) (p : Path) : d.node? (d.start p) = some .directory := by
  unfold start
  split
  · exact node?_nil d
  · exact hs.here

theorem Sound.leadsTo_parent (hs : d.Sound) (h : d.LeadsTo p n) :
    ∃ directory last, n = directory ++ [last] ∧ d.node? directory = some .directory := by
  obtain ⟨_, _, directory, last, _, _, _, _, hw, rfl⟩ := leadsTo_iff.mp h
  exact ⟨directory, last, rfl, hs.walk_directory (hs.start_directory p) hw⟩

/-! ## Making a file -/

theorem Sound.addFile (hs : d.Sound) (h : d.LeadsTo p n) (hn : d.node? n = none) :
    (d.addFile n).2.Sound := by
  have hne := h.ne_nil
  obtain ⟨directory, last, hdir, hd⟩ := hs.leadsTo_parent h
  have hold : ∀ {m x}, d.node? m = some x → (d.addFile n).2.node? m = some x := fun {m x} hm => by
    rw [node?_addFile hne, if_neg (fun e => by rw [e, hn] at hm; cases hm)]
    exact hm
  refine ⟨hold hs.here, fun {m piece x} hm => ?_, fun {m m' i} hm hm' => ?_, fun {m i} hm => ?_⟩
  · rw [node?_addFile hne] at hm
    split at hm
    · rename_i e
      rw [hdir] at e
      rw [(List.append_inj' e rfl).1]
      exact hold hd
    · exact hold (hs.parent hm)
  · rw [node?_addFile hne] at hm hm'
    split at hm
    · rename_i e
      split at hm'
      · rename_i e'; rw [e, e']
      · cases hm
        exact absurd (hs.file_lt hm') (Nat.lt_irrefl _)
    · split at hm'
      · cases hm'
        exact absurd (hs.file_lt hm) (Nat.lt_irrefl _)
      · exact hs.one_name hm hm'
  · rw [node?_addFile hne] at hm
    split at hm
    · cases hm
      exact Nat.lt_succ_self _
    · exact Nat.lt_succ_of_lt (hs.file_lt hm)

theorem Sound.openCreate (hs : d.Sound) (h : d.openCreate p = .ok (i, d')) : d'.Sound := by
  obtain ⟨n, hp, ⟨_, rfl⟩ | ⟨hn, hd⟩⟩ := openCreate_ok h
  · exact hs
  · rw [show d' = (d.addFile n).2 from congrArg Prod.snd hd]
    exact hs.addFile hp hn

/-! ## Renaming a file -/

theorem lookup_map_key {f : Name → Name} {m n : Name} : ∀ {l : List (Name × Node)},
    (∀ e ∈ l, f e.1 = n ↔ e.1 = m) → (l.map fun (k, x) => (f k, x)).lookup n = l.lookup m
  | [], _ => rfl
  | (k, x) :: l, h => by
    have ih := lookup_map_key (l := l) fun e he => h e (List.mem_cons_of_mem _ he)
    have hk := h (k, x) List.mem_cons_self
    rw [List.map_cons, List.lookup_cons, List.lookup_cons, ih]
    by_cases e : k = m
    · rw [hk.mpr e, e, BEq.rfl, BEq.rfl]
    · rw [beq_eq_false_iff_ne.mpr (fun e' => e (hk.mp e'.symm)),
        beq_eq_false_iff_ne.mpr (Ne.symm e)]

theorem mem_nodes {e : Name × Node} (he : e ∈ d.nodes) (hn : e.1 ≠ []) : d.node? e.1 ≠ none := by
  unfold node?
  rw [if_neg hn]
  intro hl
  have := List.lookup_eq_none_iff.mp hl e he
  rw [bne_self_eq_false] at this
  cases this

theorem Sound.moved_eq (hs : d.Sound) (hi : d.node? s = some (.file i)) {e : Name × Node}
    (he : e ∈ d.nodes) : moved s t e.1 = if e.1 = s then t else e.1 := by
  unfold moved
  by_cases h : e.1 = s
  · rw [if_pos h, h, if_pos (by simp), List.drop_length, List.append_nil]
  rw [if_neg h]
  split
  · rename_i hp
    obtain ⟨rest, hr⟩ := List.isPrefixOf_iff_prefix.mp hp
    cases rest with
    | nil => rw [List.append_nil] at hr; exact absurd hr.symm h
    | cons piece rest =>
      have hnone := hs.node?_below s piece rest (by rw [hi]; nofun)
      have hne : e.1 ≠ [] := by rw [← hr]; simp
      exact absurd (hr ▸ hnone) (mem_nodes he hne)
  · rfl

theorem Sound.node?_move (hs : d.Sound) (hi : d.node? s = some (.file i)) (hst : s ≠ t)
    (ht : t ≠ []) (n : Name) :
    (d.move s t).node? n = if n = t then some (.file i) else if n = s then none else d.node? n := by
  have hsne : s ≠ [] := fun e => by rw [e, node?_nil] at hi; cases hi
  have hmoved : ∀ e ∈ d.nodes.erase t, moved s t e.1 = (if e.1 = s then t else e.1) ∧ e.1 ≠ t := by
    intro e he
    have he := List.mem_filter.mp he
    exact ⟨hs.moved_eq hi he.1, by simpa using he.2⟩
  by_cases hn : n = []
  · subst hn
    rw [if_neg (Ne.symm ht), if_neg (Ne.symm hsne)]
    rfl
  unfold node? Disk.move
  rw [if_neg hn]
  by_cases hnt : n = t
  · -- what was at `t` is taken out first, so only the moved name can be found there
    rw [if_pos hnt, hnt, lookup_map_key (m := s), Table.lookup_erase_of_ne hst]
    · unfold node? at hi
      rwa [if_neg hsne] at hi
    · intro e he
      obtain ⟨hm, hne⟩ := hmoved e he
      rw [hm]
      split
      · rename_i h; simp [h]
      · rename_i h; exact ⟨fun e => absurd e hne, fun e => absurd e h⟩
  rw [if_neg hnt]
  by_cases hns : n = s
  · rw [if_pos hns]
    refine List.lookup_eq_none_iff.mpr fun e he => ?_
    obtain ⟨e', he', rfl⟩ := List.mem_map.mp he
    obtain ⟨hm, _⟩ := hmoved e' he'
    rw [bne_iff_ne, hns]
    simp only [hm]
    split
    · exact hst
    · rename_i h; exact Ne.symm h
  · rw [if_neg hns, lookup_map_key (m := n), Table.lookup_erase_of_ne hnt, if_neg hn]
    intro e he
    obtain ⟨hm, _⟩ := hmoved e he
    rw [hm]
    split
    · rename_i h; rw [h]; exact ⟨fun e => absurd e.symm hnt, fun e => absurd e.symm hns⟩
    · rfl

/-! ## Sound by inspection -/

theorem mem_of_node? {x : Node} (h : d.node? n = some x) (hn : n ≠ []) : (n, x) ∈ d.nodes := by
  unfold node? at h
  rw [if_neg hn] at h
  obtain ⟨l₁, l₂, heq, _⟩ := List.lookup_eq_some_iff.mp h
  rw [heq]
  simp

theorem sound_of_nodes (hh : d.node? d.here = some .directory)
    (hp : ∀ e ∈ d.nodes, d.node? e.1.dropLast = some .directory)
    (hf : ∀ e ∈ d.nodes, ∀ i, e.2 = .file i → e.1 ≠ [] ∧ i < d.next ∧
      ∀ e' ∈ d.nodes, e'.2 = .file i → e'.1 = e.1) : d.Sound := by
  have hmem : ∀ {n i}, d.node? n = some (.file i) → (n, Node.file i) ∈ d.nodes := fun {n i} h =>
    mem_of_node? h fun e => by rw [e, node?_nil] at h; cases h
  refine ⟨hh, fun {n piece x} h => ?_, fun {m n i} hm hn => ?_, fun {n i} h => ?_⟩
  · have := hp _ (mem_of_node? h (List.concat_ne_nil _ _))
    rwa [List.dropLast_concat] at this
  · exact (hf _ (hmem hn) i rfl).2.2 _ (hmem hm) rfl
  · exact (hf _ (hmem h) i rfl).2.1

theorem sound_blank (x : List Char) : (blank [x]).Sound := by
  refine sound_of_nodes ?_ (fun e he => ?_) (fun e he i hi => ?_)
  · simp [blank, node?]
  · simp only [blank, List.mem_cons, List.not_mem_nil, or_false] at he
    rcases he with rfl | rfl | rfl | rfl
    · rfl
    · rfl
    · simp [blank, node?, List.lookup_cons]; split <;> rfl
    · simp [blank, node?, List.lookup_cons]; split <;> rfl
  · simp only [blank, List.mem_cons, List.not_mem_nil, or_false] at he ⊢
    rcases he with rfl | rfl | rfl | rfl
    · cases hi
    · cases hi
    · cases hi; simp
    · cases hi; simp

end

end Timeshift.Disk
