import Timeshift.Proofs.Disk.Directories
import Timeshift.Proofs.Disk.Stopped

/-!
# What happens beside some places

Some places are let be if whatever file is at one of them was there before, as it is. What is opened,
written, made or replaced elsewhere lets them be, and a file that is at none of them comes to none.
-/

namespace Timeshift.Disk

/-- A file that is at one of these places on `d'` was there on `d`, as it is. -/
structure LetsBe (places : Name → Prop) (d d' : Disk) : Prop where
  sound : d.Sound → d'.Sound
  next : d.next ≤ d'.next
  file : ∀ n i, places n → d'.node? n = some (.file i) →
    d.node? n = some (.file i) ∧ d'.file i = d.file i

structure Off (places : Name → Prop) (d : Disk) (i : FileId) : Prop where
  lt : i < d.next
  apart : ∀ n, places n → d.node? n ≠ some (.file i)

section
variable {places : Name → Prop} {d d' d₁ : Disk} {p q : Path} {n s t : Name} {i : FileId}
  {bs : Bytes}

theorem LetsBe.refl (places : Name → Prop) (d : Disk) : LetsBe places d d :=
  ⟨id, Nat.le_refl _, fun _ _ _ h => ⟨h, rfl⟩⟩

theorem LetsBe.trans (h₁ : LetsBe places d d₁) (h₂ : LetsBe places d₁ d') :
    LetsBe places d d' := by
  refine ⟨h₂.sound ∘ h₁.sound, Nat.le_trans h₁.next h₂.next, fun n i hn hi => ?_⟩
  obtain ⟨hi₁, hfile⟩ := h₂.file n i hn hi
  obtain ⟨hi₀, hfile₀⟩ := h₁.file n i hn hi₁
  exact ⟨hi₀, hfile.trans hfile₀⟩

theorem Off.letsBe (h : Off places d i) (hd : LetsBe places d d') : Off places d' i :=
  ⟨Nat.lt_of_lt_of_le h.lt hd.next, fun n hn hi => h.apart n hn (hd.file n i hn hi).1⟩

theorem ChangesOnly.letsBe (h : ChangesOnly i d d')
    (hi : ∀ n, places n → d.node? n ≠ some (.file i)) : LetsBe places d d' := by
  refine ⟨h.sound, Nat.le_of_eq h.next.symm, fun n j hn hj => ?_⟩
  rw [node?_congr h.nodes] at hj
  refine ⟨hj, h.file_eq ?_⟩
  rintro rfl
  exact hi n hn hj

theorem Grows.letsBe (h : Grows d d') (places : Name → Prop) : LetsBe places d d' := by
  refine ⟨h.sound, Nat.le_of_eq h.next.symm, fun n i _ hi => ⟨h.file hi, ?_⟩⟩
  unfold Disk.file
  rw [h.files]

theorem ChangesAt.next_le (h : ChangesAt s i d d') : d.next ≤ d'.next := by
  rcases h.place with ⟨_, hx, _⟩ | ⟨_, _, hx, _⟩
  · exact Nat.le_of_eq hx.symm
  · rw [hx]
    exact Nat.le_succ _

theorem ChangesAt.letsBe (h : ChangesAt s i d d') (hd : d.Sound) (hd' : d'.Sound)
    (hs : ¬ places s) (hnode : ∀ n, places n → d'.node? n = d.node? n) : LetsBe places d d' := by
  refine ⟨fun _ => hd', h.next_le, fun n j hn hj => ?_⟩
  rw [hnode n hn] at hj
  exact ⟨hj, h.file_eq hd hj fun e => hs (e ▸ hn)⟩

theorem letsBe_openCreate (hs : d.Sound) (h : d.openCreate p = .ok (i, d'))
    (hp : ∀ n, d.LeadsTo p n → ¬ places n) : LetsBe places d d' ∧ Off places d' i := by
  obtain ⟨s, hleads, hat, hnode, _⟩ := changesAt_of_openCreate h
  have hs' := hs.openCreate h
  have hoff := hp s hleads
  refine ⟨hat.letsBe hs hs' hoff fun n hn => ?_, ?_, fun n hn hi => ?_⟩
  · rw [hnode, if_neg fun e : n = s => hoff (e ▸ hn)]
  · exact hs'.file_lt (n := s) (by rw [hnode, if_pos rfl])
  · have hsi : d'.node? s = some (.file i) := by rw [hnode, if_pos rfl]
    exact hoff (hs'.one_name hsi hi ▸ hn)

/-! ## Making directories -/

theorem grows_ensureDirectory (d : Disk) (p : Path) : Grows d (d.ensureDirectory p).2 := by
  unfold ensureDirectory
  split
  · rename_i h
    exact (makeDirectory_ok h).1
  · exact .refl d

/-- Also where not all of them can be made. -/
theorem grows_ensureParents : ∀ (fuel : Nat) (d : Disk) (p : Path),
    Grows d (ensureParents fuel d p).2
  | 0, d, p => grows_ensureDirectory d p
  | fuel + 1, d, p => by
    unfold ensureParents
    split
    · exact .refl d
    split
    · rename_i h
      exact (makeDirectory_ok h).1
    split
    · split
      · exact .refl d
      · rename_i parent _
        have hparents := grows_ensureParents fuel d parent
        split
        · rename_i h
          rw [h] at hparents
          exact hparents.trans (grows_ensureDirectory _ p)
        · rename_i h
          rw [h] at hparents
          exact hparents
    · exact grows_ensureDirectory d p

theorem grows_makeDirectories (d : Disk) (p : Path) : Grows d (d.makeDirectories p).2 :=
  grows_ensureParents _ d p

/-! ## Replacing a file -/

theorem Outcome.letsBe (h : Outcome q p bs d d') (hs : d.Sound)
    (hp : ∀ n, d.LeadsTo p n → ¬ places n) (hq : ∀ n, d.LeadsTo q n → ¬ places n) :
    LetsBe places d d' := by
  have hs' := h.sound hs
  cases h with
  | untouched => exact .refl places d
  | @written s i _ hleads hw =>
    refine hw.letsBe hs hs' (hp s hleads) fun n hn => ?_
    rw [hw.node?, if_neg fun e : n = s => hp s hleads (e ▸ hn)]
  | @replaced s t i _ hleads hleads' hr _ =>
    refine hr.letsBe hs hs' (hp s hleads) fun n hn => ?_
    rw [hr.node?, if_neg fun e : n = t => hq t hleads' (e ▸ hn),
      if_neg fun e : n = s => hp s hleads (e ▸ hn)]

/-- How a replacement ends. On regular storage the new content is in the temporary file even where it
did not get the name. -/
theorem replace_cases (hs : d.Sound) (hbs : bs ≠ []) (h : (d.replace q p bs).2 = d') :
    d' = d ∨ ∃ s i, d.LeadsTo p s ∧
      (Written s i d d' ∧ (d'.medium i = .regular → d'.content i = bs) ∨
      ∃ t, d.LeadsTo q t ∧ Replaced s t i d d' ∧
        ((∀ j, d.lookUp p = .ok (.file j) → (d.medium j).Honest) → d'.content i = bs)) := by
  subst h
  unfold replace Effect.replacing
  cases hcreate : d.create p with
  | error err =>
    left
    simp only [Effect.runAll, Effect.run, hcreate]
  | ok made =>
    obtain ⟨i, d₁⟩ := made
    obtain ⟨s, hp, hw, hempty⟩ := written_of_create hcreate
    have hchange := changesOnly_append i d₁ bs
    have hw₂ := hw.changes hchange
    have hregular : (d₁.append i bs).2.medium i = .regular →
        (d₁.append i bs).2.content i = bs := by
      intro hm
      rw [hchange.medium] at hm
      rw [content_append hbs, hempty, hm]
      rfl
    right
    refine ⟨s, i, hp, ?_⟩
    simp only [Effect.runAll, Effect.run, hcreate]
    -- from here on any effect may fail, and only the last one touches another place
    cases happend : (d₁.append i bs).1 with
    | error err => exact .inl ⟨hw₂, hregular⟩
    | ok _ =>
      simp only [mapError_ok]
      cases hsync : (d₁.append i bs).2.sync i with
      | error err => exact .inl ⟨hw₂, hregular⟩
      | ok _ =>
        simp only [mapError_ok]
        cases hrename : (d₁.append i bs).2.rename p q with
        | error err => exact .inl ⟨hw₂, hregular⟩
        | ok d₂ =>
          obtain ⟨t, hq, hr, hsame⟩ := hw₂.rename hs hp hrename
          refine .inr ⟨t, hq, hr, fun hm => ?_⟩
          have hcontent := content_append_synced hbs (hw.honest hp hm)
            (by rw [happend]; exact hsync)
          rw [hempty, List.nil_append] at hcontent
          exact hsame.trans hcontent

end

end Timeshift.Disk
