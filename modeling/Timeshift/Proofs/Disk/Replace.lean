import Timeshift.Disk.Replace
import Timeshift.Proofs.Disk.Sound

/-!
# Replacing a file

A replacement that is reported as done left the new bytes in full under the name, and took the
temporary name away. No other file changed, and the disk is as sound as before.
-/

namespace Timeshift

def Error.FromStorage (e : Error) : Prop :=
  ∃ cause, e = .io cause ∨ ∃ path, e = .ofOpening path cause

theorem Error.FromStorage.ne_invalidInput {e : Error} (h : e.FromStorage) (what : String) :
    e ≠ .invalidInput what := by
  obtain ⟨cause, rfl | ⟨path, rfl⟩⟩ := h
  · nofun
  · unfold Error.ofOpening
    split <;> nofun

namespace Effect

theorem runAll_cons_ok {e : Effect} {es : List Effect} {s t : State} :
    runAll s (e :: es) = (.ok (), t) ↔ ∃ m, e.run s = (.ok (), m) ∧ runAll m es = (.ok (), t) := by
  rw [runAll]
  split
  · rename_i m hm
    rw [hm]
    exact ⟨fun h => ⟨m, rfl, h⟩, fun ⟨m', he, h⟩ => by cases he; exact h⟩
  · rename_i err m hm
    rw [hm]
    exact ⟨nofun, fun ⟨_, he, _⟩ => nomatch he⟩

theorem run_create_ok {p : Path} {s t : State} : (create p).run s = (.ok (), t) ↔
    ∃ i d, s.1.create p = .ok (i, d) ∧ t = (d, i) := by
  simp only [run]
  cases h : s.1.create p with
  | ok made =>
    obtain ⟨i, d⟩ := made
    exact ⟨fun e => ⟨i, d, rfl, (congrArg Prod.snd e).symm⟩,
      fun ⟨_, _, e, ht⟩ => by cases e; rw [ht]⟩
  | error e => exact ⟨nofun, fun ⟨_, _, e, _⟩ => nomatch e⟩

theorem run_append_ok {bs : Bytes} {s t : State} : (append bs).run s = (.ok (), t) ↔
    (s.1.append s.2 bs).1 = .ok () ∧ t = ((s.1.append s.2 bs).2, s.2) := by
  unfold run
  rw [Prod.mk.injEq, mapError_eq_ok, eq_comm (a := t)]

theorem run_sync_ok {s t : State} :
    sync.run s = (.ok (), t) ↔ s.1.sync s.2 = .ok () ∧ t = s := by
  unfold run
  rw [Prod.mk.injEq, mapError_eq_ok, eq_comm (a := t)]

theorem run_rename_ok {p q : Path} {s t : State} : (rename p q).run s = (.ok (), t) ↔
    ∃ d, s.1.rename p q = .ok d ∧ t = (d, s.2) := by
  simp only [run]
  cases h : s.1.rename p q with
  | ok d =>
    exact ⟨fun e => ⟨d, rfl, (congrArg Prod.snd e).symm⟩, fun ⟨_, e, ht⟩ => by cases e; rw [ht]⟩
  | error e => exact ⟨nofun, fun ⟨_, e, _⟩ => nomatch e⟩

theorem run_error {s t : State} {e : Effect} {err : Error} (h : e.run s = (.error err, t)) :
    err.FromStorage := by
  cases e <;> simp only [run] at h
  case create p =>
    split at h
    · cases h
    · cases h
      exact ⟨_, .inr ⟨p, rfl⟩⟩
  case append bs =>
    obtain ⟨cause, _, rfl⟩ := mapError_eq_error.mp (congrArg Prod.fst h)
    exact ⟨cause, .inl rfl⟩
  case sync =>
    obtain ⟨cause, _, rfl⟩ := mapError_eq_error.mp (congrArg Prod.fst h)
    exact ⟨cause, .inl rfl⟩
  case rename p q =>
    split at h
    · cases h
    · cases h
      exact ⟨_, .inl rfl⟩

theorem runAll_error {err : Error} : ∀ {es : List Effect} {s t : State},
    runAll s es = (.error err, t) → err.FromStorage
  | [], _, _, h => by cases h
  | e :: es, s, t, h => by
    unfold runAll at h
    split at h
    · exact runAll_error h
    · rename_i hrun
      cases h
      exact run_error hrun

end Effect

namespace Disk

/-! ## One file opened for writing -/

/-- From `d` to `d'` the file `i`, which was at `n` or is new, may have changed, and no other. What
the names lead to is left open. -/
structure ChangesAt (n : Name) (i : FileId) (d d' : Disk) : Prop where
  here : d'.here = d.here
  place : d.node? n = some (.file i) ∧ d'.next = d.next ∧ d'.medium i = d.medium i ∨
    d.node? n = none ∧ i = d.next ∧ d'.next = d.next + 1 ∧ d'.medium i = .regular
  medium : ∀ j, j ≠ i → d'.medium j = d.medium j
  content : ∀ j, j ≠ i → d'.content j = d.content j

section
variable {d d' d₁ d₂ : Disk} {p q : Path} {n s t : Name} {i : FileId} {bs : Bytes}

theorem changesAt_of_openCreate (h : d.openCreate p = .ok (i, d')) :
    ∃ n, d.LeadsTo p n ∧ ChangesAt n i d d' ∧
      (∀ m, d'.node? m = if m = n then some (.file i) else d.node? m) ∧
      d'.content i = if d.node? n = none then [] else d.content i := by
  obtain ⟨n, hp, ⟨hn, rfl⟩ | ⟨hn, hd⟩⟩ := openCreate_ok h
  · refine ⟨n, hp, ⟨rfl, .inl ⟨hn, rfl, rfl⟩, fun _ _ => rfl, fun _ _ => rfl⟩, fun m => ?_, ?_⟩
    · split
      · rename_i hm; rw [hm, hn]
      · rfl
    · rw [hn, if_neg nofun]
  · rw [Prod.mk.injEq] at hd
    obtain ⟨rfl, rfl⟩ := hd
    have hself : (d.addFile n).2.file d.next = {} := by rw [file_addFile, if_pos rfl]
    have hother : ∀ j, j ≠ d.next → (d.addFile n).2.file j = d.file j := fun j hj => by
      rw [file_addFile, if_neg hj]
    refine ⟨n, hp, ⟨rfl, .inr ⟨hn, rfl, rfl, congrArg File.medium hself⟩,
      fun j hj => congrArg File.medium (hother j hj),
      fun j hj => congrArg File.content (hother j hj)⟩, node?_addFile hp.ne_nil, ?_⟩
    rw [if_pos hn]
    exact congrArg File.content hself

theorem ChangesAt.changes (h : ChangesAt n i d d₁) (hc : ChangesOnly i d₁ d₂) :
    ChangesAt n i d d₂ where
  here := hc.here.trans h.here
  place := by rw [hc.next, hc.medium]; exact h.place
  medium j hj := (hc.medium j).trans (h.medium j hj)
  content j hj := (hc.content j hj).trans (h.content j hj)

theorem ChangesAt.other (h : ChangesAt n i d d') (hs : d.Sound) {m : Name} {j : FileId}
    (hm : d.node? m = some (.file j)) (hne : m ≠ n) :
    d'.content j = d.content j ∧ d'.medium j = d.medium j := by
  have hj : j ≠ i := by
    rintro rfl
    rcases h.place with ⟨hn, _⟩ | ⟨_, hi, _⟩
    · exact hne (hs.one_name hm hn)
    · exact Nat.lt_irrefl _ (hi ▸ hs.file_lt hm)
  exact ⟨h.content j hj, h.medium j hj⟩

def FaithfulAt (d : Disk) (places : Name → Prop) : Prop :=
  ∀ n i, places n → d.node? n = some (.file i) → (d.medium i).Faithful

section
variable {places : Name → Prop}

theorem FaithfulAt.changesOnly (hf : d.FaithfulAt places) (h : ChangesOnly i d d') :
    d'.FaithfulAt places := fun n j hn hj => by
  rw [node?_congr h.nodes] at hj
  rw [h.medium]
  exact hf n j hn hj

theorem FaithfulAt.changesMedia (hf : d.FaithfulAt places)
    (h : ChangesMedia Medium.Faithful d d') : d'.FaithfulAt places := fun n i hn hi => by
  rw [node?_congr h.nodes] at hi
  exact h.medium i (hf n i hn hi)

theorem FaithfulAt.changesAt (hf : d.FaithfulAt places) (h : ChangesAt n i d d') (hn : places n)
    (hfile : ∀ m j, places m → d'.node? m = some (.file j) →
      j = i ∨ d.node? m = some (.file j)) : d'.FaithfulAt places := fun m j hm hj => by
  by_cases hji : j = i
  · subst hji
    rcases h.place with ⟨hi, _, hmedium⟩ | ⟨_, _, _, hmedium⟩
    · rw [hmedium]; exact hf n j hn hi
    · rw [hmedium]; exact Medium.faithful_regular
  · rw [h.medium j hji]
    exact hf m j hm ((hfile m j hm hj).resolve_left hji)

end

/-! ## Renaming a file -/

/-- Renaming a file gives it the other name and takes its own; a file that had the other name loses
it. -/
theorem rename_ok (hs : d.Sound) (hp : d.LeadsTo p s) (hi : d.node? s = some (.file i))
    (h : d.rename p q = .ok d') : ∃ t, d.LeadsTo q t ∧ d.node? t ≠ some .directory ∧
      d'.here = d.here ∧ d'.files = d.files ∧ d'.next = d.next ∧ ∀ n, d'.node? n =
        if n = t then some (.file i) else if n = s then none else d.node? n := by
  obtain ⟨from_, hfrom, hslash, hlast, hname, hf⟩ := hp.spot
  unfold rename at h
  obtain ⟨_, h⟩ := unless_eq_ok.mp h
  rw [hfrom, ok_bind] at h
  obtain ⟨to_, hto, h⟩ := bind_eq_ok.mp h
  obtain ⟨hlast', h⟩ := unless_eq_ok.mp h
  rw [hf, ok_bind, hi] at h
  obtain ⟨target, hf', h⟩ := bind_eq_ok.mp h
  obtain ⟨hslash', h⟩ := unless_eq_ok.mp h
  obtain ⟨_, h⟩ := unless_eq_ok.mp h
  obtain ⟨_, h⟩ := unless_eq_ok.mp h
  obtain ⟨hq, rfl⟩ := leadsTo_of_find hto (by simpa [hslash] using hslash')
    (Bool.eq_false_iff.mpr fun e => hlast' (by rw [e, Bool.or_true])) hf'
  have hmove : from_.name ≠ to_.name → ∀ n, (d.move from_.name to_.name).node? n =
      if n = to_.name then some (.file i) else if n = s then none else d.node? n := fun hne n => by
    rw [hname] at hne ⊢
    exact hs.node?_move hi hne hq.ne_nil n
  refine ⟨to_.name, hq, ?_⟩
  cases hn : d.node? to_.name with
  | none =>
    rw [hn] at h
    cases h
    refine ⟨nofun, rfl, rfl, rfl, hmove fun e => ?_⟩
    rw [← e, hname, hi] at hn
    cases hn
  | some node =>
    rw [hn] at h
    cases node with
    | directory => cases h
    | file j =>
      refine ⟨nofun, ?_⟩
      simp only [pure, Except.pure, Except.ok.injEq] at h
      split at h
      · rename_i hij
        -- both names are the one name of the file, which stays as it is
        subst h hij
        have hsame := hs.one_name hi hn
        refine ⟨rfl, rfl, rfl, fun n => ?_⟩
        split
        · rename_i ht; rw [ht, hn]
        · rename_i ht; rw [hsame, if_neg ht]
      · rename_i hij
        subst h
        refine ⟨rfl, rfl, rfl, hmove fun e => hij ?_⟩
        rw [← e, hname, hi] at hn
        cases hn
        rfl

/-! ## Replacing -/

structure Written (s : Name) (i : FileId) (d d' : Disk) : Prop extends ChangesAt s i d d' where
  node? : ∀ n, d'.node? n = if n = s then some (.file i) else d.node? n
  sound : d.Sound → d'.Sound

/-- From `d` to `d'` the file `i` was written at `s` and took the name `t`. -/
structure Replaced (s t : Name) (i : FileId) (d d' : Disk) : Prop extends ChangesAt s i d d' where
  target : d.node? t ≠ some .directory
  node? : ∀ n, d'.node? n = if n = t then some (.file i) else if n = s then none else d.node? n

theorem create_ok (h : d.create p = .ok (i, d')) :
    ∃ d₁, d.openCreate p = .ok (i, d₁) ∧ d' = d₁.setContent i [] := by
  obtain ⟨⟨j, d₁⟩, ho, h⟩ := bind_eq_ok.mp h
  cases h
  exact ⟨d₁, ho, rfl⟩

theorem Written.changes (h : Written s i d d₁) (hc : ChangesOnly i d₁ d₂) : Written s i d d₂ where
  toChangesAt := h.toChangesAt.changes hc
  node? := by
    rw [node?_congr hc.nodes]
    exact h.node?
  sound hs := hc.sound (h.sound hs)

theorem written_of_create (h : d.create p = .ok (i, d')) :
    ∃ s, d.LeadsTo p s ∧ Written s i d d' ∧ d'.content i = [] := by
  obtain ⟨d₁, hopen, rfl⟩ := create_ok h
  obtain ⟨s, hp, hat, hnode, _⟩ := changesAt_of_openCreate hopen
  have hw : Written s i d d₁ := ⟨hat, hnode, fun hs => hs.openCreate hopen⟩
  exact ⟨s, hp, hw.changes (changesOnly_setContent i d₁ []), content_setContent_self d₁ i []⟩

/-- Writing at a place where there is no directory changes no way to a place. -/
theorem Written.extends_ (h : Written s i d d') : Extends d d' ∧ Extends d' d := by
  refine ⟨⟨h.here, fun n hn => ?_⟩, ⟨h.here.symm, fun n hn => ?_⟩⟩
  · rw [h.node?]
    split
    · rename_i hns
      subst hns
      rcases h.place with ⟨hs, _⟩ | ⟨hs, _⟩
      · rw [hs] at hn; cases hn
      · rw [hs] at hn; cases hn
    · exact hn
  · rw [h.node?] at hn
    split at hn
    · cases hn
    · exact hn

theorem Written.honest (h : Written s i d d') (hp : d.LeadsTo p s)
    (hm : ∀ j, d.lookUp p = .ok (.file j) → (d.medium j).Honest) : (d'.medium i).Honest := by
  rcases h.place with ⟨hsi, _, hmedium⟩ | ⟨_, _, _, hmedium⟩
  · rw [hmedium]
    exact hm i (lookUp_eq_file.mpr ⟨s, hp, hsi⟩)
  · rw [hmedium]
    exact Medium.faithful_regular.honest

theorem Written.rename (h : Written s i d d₁) (hs : d.Sound) (hp : d.LeadsTo p s)
    (hr : d₁.rename p q = .ok d') :
    ∃ t, d.LeadsTo q t ∧ Replaced s t i d d' ∧ d'.content i = d₁.content i := by
  have hsi : d₁.node? s = some (.file i) := by rw [h.node?, if_pos rfl]
  obtain ⟨hext, hback⟩ := h.extends_
  obtain ⟨t, hq, htarget, hhere, hfiles, hnext, hfinal⟩ :=
    rename_ok (h.sound hs) (hp.mono hext) hsi hr
  have hfile : ∀ j, d'.file j = d₁.file j := fun j => by
    unfold file
    rw [hfiles]
  refine ⟨t, hq.mono hback, ⟨⟨hhere.trans h.here, ?_, fun j hj => ?_, fun j hj => ?_⟩,
    fun ht => htarget (hext.directory t ht), fun n => ?_⟩, congrArg File.content (hfile i)⟩
  · unfold medium
    rw [hnext, hfile]
    exact h.place
  · exact (congrArg File.medium (hfile j)).trans (h.medium j hj)
  · exact (congrArg File.content (hfile j)).trans (h.content j hj)
  · rw [hfinal, h.node?]
    by_cases h₁ : n = t
    · rw [if_pos h₁, if_pos h₁]
    · rw [if_neg h₁, if_neg h₁]
      split
      · rfl
      · rfl

theorem replace_steps (h : d.replace q p bs = (.ok (), d')) : ∃ i d₁,
    d.create p = .ok (i, d₁) ∧
      ((d₁.append i bs).1.bind fun _ => (d₁.append i bs).2.sync i) = .ok () ∧
      (d₁.append i bs).2.rename p q = .ok d' := by
  have hrun : ∃ i, Effect.runAll (d, d.next) (Effect.replacing q p bs) = (.ok (), d', i) := by
    unfold replace at h
    generalize Effect.runAll (d, d.next) (Effect.replacing q p bs) = r at h
    obtain ⟨result, d₄, i⟩ := r
    cases h
    exact ⟨i, rfl⟩
  obtain ⟨j, hrun⟩ := hrun
  obtain ⟨s₁, h₁, hrun⟩ := Effect.runAll_cons_ok.mp hrun
  obtain ⟨s₂, h₂, hrun⟩ := Effect.runAll_cons_ok.mp hrun
  obtain ⟨s₃, h₃, hrun⟩ := Effect.runAll_cons_ok.mp hrun
  obtain ⟨s₄, h₄, hrun⟩ := Effect.runAll_cons_ok.mp hrun
  obtain ⟨i, d₁, hcreate, rfl⟩ := Effect.run_create_ok.mp h₁
  obtain ⟨happend, rfl⟩ := Effect.run_append_ok.mp h₂
  obtain ⟨hsync, rfl⟩ := Effect.run_sync_ok.mp h₃
  obtain ⟨d₄, hrename, rfl⟩ := Effect.run_rename_ok.mp h₄
  cases hrun
  refine ⟨i, d₁, hcreate, ?_, hrename⟩
  rw [happend]
  exact hsync

theorem replace_error {err : Error} (h : d.replace q p bs = (.error err, d')) :
    err.FromStorage := by
  unfold replace at h
  cases hrun : Effect.runAll (d, d.next) (Effect.replacing q p bs) with
  | mk result t =>
    rw [hrun] at h
    cases h
    exact Effect.runAll_error hrun

/-- A file that is replaced holds the new bytes in full, in the file that was written beside it. -/
theorem replace_ok (hs : d.Sound) (hm : ∀ i, d.lookUp p = .ok (.file i) → (d.medium i).Honest)
    (hbs : bs ≠ [])
    (h : d.replace q p bs = (.ok (), d')) : ∃ s t i, d.LeadsTo p s ∧ d.LeadsTo q t ∧
      Replaced s t i d d' ∧ d'.content i = bs := by
  obtain ⟨i, d₁, hcreate, hwrite, hrename⟩ := replace_steps h
  obtain ⟨s, hp, hw, hempty⟩ := written_of_create hcreate
  have hcontent := content_append_synced hbs (hw.honest hp hm) hwrite
  rw [hempty, List.nil_append] at hcontent
  obtain ⟨t, hq, hr, hsame⟩ := (hw.changes (changesOnly_append i d₁ bs)).rename hs hp hrename
  exact ⟨s, t, i, hp, hq, hr, hsame.trans hcontent⟩

theorem Replaced.extends_ (h : Replaced s t i d d') : Extends d d' := by
  refine ⟨h.here, fun n hn => ?_⟩
  have hns : n ≠ s := by
    rintro rfl
    rcases h.place with ⟨hs, _⟩ | ⟨hs, _⟩
    · rw [hs] at hn; cases hn
    · rw [hs] at hn; cases hn
  rw [h.node?, if_neg (fun e : n = t => h.target (e ▸ hn)), if_neg hns]
  exact hn

theorem Replaced.sound (h : Replaced s t i d d') (hs : d.Sound) (hq : d.LeadsTo q t) :
    d'.Sound := by
  have hext := h.extends_
  have hlt : i < d'.next ∧ d.next ≤ d'.next := by
    rcases h.place with ⟨hsi, hx, _⟩ | ⟨_, hi, hx, _⟩
    · rw [hx]; exact ⟨hs.file_lt hsi, Nat.le_refl _⟩
    · rw [hx, hi]; exact ⟨Nat.lt_succ_self _, Nat.le_succ _⟩
  -- the file has no name on `d` but `s`
  have hother : ∀ {n}, n ≠ s → d.node? n ≠ some (.file i) := fun {n} hn hni => by
    rcases h.place with ⟨hsi, _⟩ | ⟨_, hi, _⟩
    · exact hn (hs.one_name hni hsi)
    · exact Nat.lt_irrefl _ (hi ▸ hs.file_lt hni)
  refine ⟨?_, fun {n piece x} hn => ?_, fun {m n j} hm hn => ?_, fun {n j} hn => ?_⟩
  · rw [hext.here]
    exact hext.directory _ hs.here
  · rw [h.node?] at hn
    split at hn
    · rename_i ht
      obtain ⟨directory, last, rfl, hd⟩ := hs.leadsTo_parent hq
      rw [(List.append_inj' ht rfl).1]
      exact hext.directory _ hd
    · split at hn
      · cases hn
      · exact hext.directory _ (hs.parent hn)
  · rw [h.node?] at hm hn
    split at hm
    · rename_i hmt
      cases hm
      split at hn
      · rename_i hnt; rw [hmt, hnt]
      · split at hn
        · cases hn
        · rename_i hns; exact absurd hn (hother hns)
    · split at hm
      · cases hm
      · rename_i hms
        split at hn
        · cases hn
          exact absurd hm (hother hms)
        · split at hn
          · cases hn
          · exact hs.one_name hm hn
  · rw [h.node?] at hn
    split at hn
    · cases hn
      exact hlt.1
    · split at hn
      · cases hn
      · exact Nat.lt_of_lt_of_le (hs.file_lt hn) hlt.2

theorem Replaced.lookUp (h : Replaced s t i d d') (hq : d.LeadsTo q t) :
    d'.lookUp q = .ok (.file i) :=
  lookUp_eq_file.mpr ⟨t, hq.mono h.extends_, by rw [h.node?, if_pos rfl]⟩

end

end Disk

end Timeshift
