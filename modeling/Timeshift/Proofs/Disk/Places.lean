import Timeshift.Disk.Open
import Timeshift.Proofs.Disk.Contents
import Timeshift.Proofs.Result

/-!
# Where a path leads

A path that can name a file leads to one place, whether or not there is a file now. Opening looks
only at what stands at that place, and the place stays the same as long as no directory on the way
to it goes.
-/

namespace Timeshift

structure Path.Fits (p : Path) : Prop where
  noNul : '\x00' ∉ p.chars
  nonempty : p.text ≠ ""
  short : p.text.utf8ByteSize < 4096

namespace Disk

/-! ## The way to a place -/

def start (d : Disk) (p : Path) : Name := if p.isAbsolute then [] else d.here

/-- `p` is the path of a file at the place `n`, should there be one. -/
def LeadsTo (d : Disk) (p : Path) (n : Name) : Prop :=
  ∃ directory last, d.spot p = .ok ⟨directory, some last, false⟩ ∧ isTooLong last = false ∧
    n = directory ++ [last]

section
variable {d d' : Disk} {p : Path} {m n : Name}

theorem spot_of_fits (h : p.Fits) : d.spot p =
    match p.pieces.getLast? with
    | none => .ok ⟨d.start p, none, p.chars.getLast? = some '/'⟩
    | some last => d.walk (d.start p) p.pieces.dropLast >>= fun directory =>
      if last = ['.'] || last = ['.', '.'] then
        d.enter directory last >>= fun n => .ok ⟨n, none, p.chars.getLast? = some '/'⟩
      else .ok ⟨directory, some last, p.chars.getLast? = some '/'⟩ := by
  unfold spot
  rw [if_neg h.noNul, if_neg h.nonempty, if_neg (Nat.not_le.mpr h.short)]
  cases p.pieces.getLast? with
  | none => rfl
  | some last => rfl

theorem fits_of_spot {s : Spot} (h : d.spot p = .ok s) : p.Fits := by
  unfold spot at h
  split at h
  · cases h
  · rename_i h₁
    split at h
    · cases h
    · rename_i h₂
      split at h
      · cases h
      · rename_i h₃
        exact ⟨h₁, h₂, Nat.not_le.mp h₃⟩

theorem leadsTo_iff : d.LeadsTo p n ↔ p.Fits ∧ p.chars.getLast? ≠ some '/' ∧
    ∃ directory last, p.pieces.getLast? = some last ∧ last ≠ ['.'] ∧ last ≠ ['.', '.'] ∧
      isTooLong last = false ∧ d.walk (d.start p) p.pieces.dropLast = .ok directory ∧
      n = directory ++ [last] := by
  constructor
  · rintro ⟨directory, last, hs, hl, rfl⟩
    have hf := fits_of_spot hs
    rw [spot_of_fits hf] at hs
    cases hp : p.pieces.getLast? with
    | none => rw [hp] at hs; cases hs
    | some piece =>
      rw [hp] at hs
      obtain ⟨directory', hw, hs⟩ := bind_eq_ok.mp hs
      split at hs
      · obtain ⟨_, _, hs⟩ := bind_eq_ok.mp hs
        cases hs
      · rename_i hd
        simp only [Bool.or_eq_true, decide_eq_true_eq, not_or] at hd
        simp only [Except.ok.injEq, Spot.mk.injEq, Option.some.injEq, decide_eq_false_iff_not] at hs
        obtain ⟨rfl, rfl, hslash⟩ := hs
        exact ⟨hf, hslash, _, _, rfl, hd.1, hd.2, hl, hw, rfl⟩
  · rintro ⟨hf, hslash, directory, last, hp, h₁, h₂, hl, hw, rfl⟩
    refine ⟨directory, last, ?_, hl, rfl⟩
    rw [spot_of_fits hf, hp]
    simp [hw, h₁, h₂, hslash]

theorem LeadsTo.unique (hm : d.LeadsTo p m) (hn : d.LeadsTo p n) : m = n := by
  obtain ⟨_, _, hs, _, rfl⟩ := hm
  obtain ⟨_, _, hs', _, rfl⟩ := hn
  rw [hs] at hs'
  cases hs'
  rfl

theorem LeadsTo.ne_nil (h : d.LeadsTo p n) : n ≠ [] := by
  obtain ⟨_, _, _, _, rfl⟩ := h
  exact List.concat_ne_nil _ _

/-! ## Disks with more on them -/

structure Extends (d d' : Disk) : Prop where
  here : d'.here = d.here
  directory : ∀ n, d.node? n = some .directory → d'.node? n = some .directory

theorem Extends.refl (d : Disk) : Extends d d := ⟨rfl, fun _ h => h⟩

theorem Extends.trans {d₁ d₂ d₃ : Disk} (h₁ : Extends d₁ d₂) (h₂ : Extends d₂ d₃) :
    Extends d₁ d₃ :=
  ⟨h₂.here.trans h₁.here, fun n hn => h₂.directory n (h₁.directory n hn)⟩

theorem Extends.of_nodes (hh : d'.here = d.here) (hn : d'.nodes = d.nodes) : Extends d d' :=
  ⟨hh, fun n h => by unfold node? at h ⊢; rwa [hn]⟩

theorem enter_mono (h : Extends d d') {piece : List Char} (he : d.enter m piece = .ok n) :
    d'.enter m piece = .ok n := by
  unfold enter at he ⊢
  by_cases h₁ : piece = ['.']
  · rwa [if_pos h₁] at he ⊢
  rw [if_neg h₁] at he ⊢
  by_cases h₂ : piece = ['.', '.']
  · rwa [if_pos h₂] at he ⊢
  rw [if_neg h₂] at he ⊢
  by_cases h₃ : isTooLong piece = true
  · rw [if_pos h₃] at he; cases he
  rw [if_neg h₃] at he ⊢
  split at he
  · rename_i hd; rw [h.directory _ hd]; exact he
  · cases he
  · cases he

theorem walk_mono (h : Extends d d') : ∀ {pieces : List (List Char)} {m n : Name},
    d.walk m pieces = .ok n → d'.walk m pieces = .ok n
  | [], _, _, hw => hw
  | piece :: pieces, m, n, hw => by
    unfold walk at hw ⊢
    rw [List.foldlM_cons] at hw ⊢
    obtain ⟨a, ha, hw⟩ := bind_eq_ok.mp hw
    rw [enter_mono h ha]
    exact walk_mono h hw

theorem LeadsTo.mono (h : Extends d d') (hp : d.LeadsTo p n) : d'.LeadsTo p n := by
  obtain ⟨hf, hslash, directory, last, hl, h₁, h₂, ht, hw, rfl⟩ := leadsTo_iff.mp hp
  have hs : d'.start p = d.start p := by unfold start; rw [h.here]
  exact leadsTo_iff.mpr ⟨hf, hslash, directory, last, hl, h₁, h₂, ht, hs ▸ walk_mono h hw, rfl⟩

/-! ## What stands at a place -/

theorem find_of_leadsTo {s : Spot} (hs : d.spot p = .ok s) (h : d.LeadsTo p n) :
    s.slash = false ∧ s.last.isNone = false ∧ s.name = n ∧ d.find s = .ok (d.node? n) := by
  obtain ⟨directory, last, hs', hl, rfl⟩ := h
  rw [hs] at hs'
  cases hs'
  refine ⟨rfl, rfl, rfl, ?_⟩
  simp [find, hl, Spot.name]

theorem leadsTo_of_find {s : Spot} {node : Option Node} (hs : d.spot p = .ok s)
    (hslash : s.slash = false) (hlast : s.last.isNone = false) (hf : d.find s = .ok node) :
    d.LeadsTo p s.name ∧ node = d.node? s.name := by
  obtain ⟨directory, last, slash⟩ := s
  cases last with
  | none => cases hlast
  | some last =>
    cases hslash
    unfold find at hf
    simp only at hf
    split at hf
    · cases hf
    · rename_i hl
      cases hf
      exact ⟨⟨directory, last, hs, by simpa using hl, rfl⟩, rfl⟩

theorem LeadsTo.spot (h : d.LeadsTo p n) : ∃ s, d.spot p = .ok s ∧ s.slash = false ∧
    s.last.isNone = false ∧ s.name = n ∧ d.find s = .ok (d.node? n) := by
  obtain ⟨directory, last, hs, hl, hn⟩ := h
  exact ⟨_, hs, find_of_leadsTo hs ⟨directory, last, hs, hl, hn⟩⟩

theorem lookUp_of_leadsTo (h : d.LeadsTo p n) :
    d.lookUp p = (d.node? n).elim (.error .noSuchFile) .ok := by
  obtain ⟨s, hs, hslash, _, _, hf⟩ := h.spot
  unfold lookUp
  rw [hs, ok_bind, hf, ok_bind]
  cases d.node? n with
  | none => rfl
  | some node =>
    cases node with
    | directory => rfl
    | file i => simp only [hslash]; rfl

theorem lookUp_eq_file {i : FileId} :
    d.lookUp p = .ok (.file i) ↔ ∃ n, d.LeadsTo p n ∧ d.node? n = some (.file i) := by
  constructor
  · intro h
    obtain ⟨s, hs, h⟩ := bind_eq_ok.mp h
    obtain ⟨node, hf, h⟩ := bind_eq_ok.mp h
    split at h
    · split at h
      · cases h
      · rename_i hslash
        cases h
        have hlast : s.last.isNone = false := by
          cases hl : s.last with
          | none => unfold find at hf; rw [hl] at hf; cases hf
          | some last => rfl
        obtain ⟨hp, hn⟩ := leadsTo_of_find hs (by simpa using hslash) hlast hf
        exact ⟨_, hp, hn.symm⟩
    · cases h
    · cases h
  · rintro ⟨n, hp, hn⟩
    rw [lookUp_of_leadsTo hp, hn]
    rfl

theorem openRead_eq_ok {i : FileId} : d.openRead p = .ok i ↔ d.lookUp p = .ok (.file i) := by
  unfold openRead
  rw [bind_eq_ok]
  constructor
  · rintro ⟨node, hl, h⟩
    cases node with
    | directory => cases h
    | file j => cases h; exact hl
  · intro h
    exact ⟨_, h, rfl⟩

theorem read_eq_ok {bs : Bytes} :
    d.read p = .ok bs ↔ ∃ i, d.lookUp p = .ok (.file i) ∧ d.content i = bs := by
  unfold read
  rw [bind_eq_ok]
  refine exists_congr fun i => ?_
  rw [openRead_eq_ok]
  exact and_congr_right fun _ => ⟨Except.ok.inj, congrArg Except.ok⟩

theorem readText_of_read {text : String} (h : d.read p = .ok (Utf8.encode text)) :
    d.readText p = .ok text := by
  unfold readText
  rw [h, ok_bind, Utf8.decode?_encode]
  rfl

theorem find_congr (h : d'.nodes = d.nodes) (s : Spot) : d'.find s = d.find s := by
  unfold find node?
  rw [h]

theorem lookUp_congr (hh : d'.here = d.here) (hn : d'.nodes = d.nodes) (p : Path) :
    d'.lookUp p = d.lookUp p := by
  have he : d'.enter = d.enter := by
    funext m piece
    unfold enter node?
    rw [hn]
  have hs : d'.spot p = d.spot p := by
    unfold spot walk
    rw [hh, he]
  unfold lookUp
  rw [hs, funext (find_congr hn)]

theorem ChangesOnly.lookUp_eq {i : FileId} (h : ChangesOnly i d d') (p : Path) :
    d'.lookUp p = d.lookUp p := lookUp_congr h.here h.nodes p

theorem ChangesMedia.lookUp_eq {P : Medium → Prop} (h : ChangesMedia P d d') (p : Path) :
    d'.lookUp p = d.lookUp p := lookUp_congr h.here h.nodes p

/-! ## New files -/

theorem node?_addFile (hn : n ≠ []) (m : Name) :
    (d.addFile n).2.node? m = if m = n then some (.file d.next) else d.node? m := by
  unfold node? addFile
  by_cases hm : m = n
  · subst hm
    rw [if_neg hn, if_pos rfl, Table.lookup_put_self]
  · rw [if_neg hm, Table.lookup_put_of_ne hm]

theorem file_addFile (n : Name) (j : FileId) :
    (d.addFile n).2.file j = if j = d.next then {} else d.file j := by
  unfold file addFile
  by_cases hj : j = d.next
  · subst hj
    rw [if_pos rfl, Table.lookup_put_self]
    rfl
  · rw [if_neg hj, Table.lookup_put_of_ne hj]

theorem extends_addFile (hn : n ≠ []) (h : d.node? n = none) : Extends d (d.addFile n).2 := by
  refine ⟨rfl, fun m hm => ?_⟩
  rw [node?_addFile hn]
  split
  · rename_i hmn; rw [hmn, h] at hm; cases hm
  · exact hm

/-! ## Opening for writing -/

theorem openCreate_of_leadsTo (h : d.LeadsTo p n) :
    d.openCreate p =
      match d.node? n with
      | some (.file i) => .ok (i, d)
      | some .directory => .error .isDirectory
      | none => .ok (d.addFile n) := by
  obtain ⟨s, hs, hslash, hlast, hname, hf⟩ := h.spot
  unfold openCreate
  simp only [hs, ok_bind, hlast, hslash, Bool.or_false, Bool.false_eq_true, if_false, hf, hname]
  cases d.node? n with
  | none => rfl
  | some node =>
    cases node with
    | directory => rfl
    | file i => rfl

theorem openCreate_of_file {i : FileId} (h : d.lookUp p = .ok (.file i)) :
    d.openCreate p = .ok (i, d) := by
  obtain ⟨n, hp, hn⟩ := lookUp_eq_file.mp h
  rw [openCreate_of_leadsTo hp, hn]

/-- What is opened for writing is the file at the place of the path, or a new one there. -/
theorem openCreate_ok {i : FileId} (h : d.openCreate p = .ok (i, d')) : ∃ n, d.LeadsTo p n ∧
    ((d.node? n = some (.file i) ∧ d' = d) ∨ (d.node? n = none ∧ (i, d') = d.addFile n)) := by
  have hp : ∃ n, d.LeadsTo p n := by
    obtain ⟨s, hs, h⟩ := bind_eq_ok.mp h
    split at h
    · cases h
    · rename_i hc
      simp only [Bool.or_eq_true, not_or, Bool.not_eq_true] at hc
      obtain ⟨node, hf, _⟩ := bind_eq_ok.mp h
      exact ⟨_, (leadsTo_of_find hs hc.2 hc.1 hf).1⟩
  obtain ⟨n, hn⟩ := hp
  refine ⟨n, hn, ?_⟩
  rw [openCreate_of_leadsTo hn] at h
  split at h
  · rename_i j hj
    cases h
    exact .inl ⟨hj, rfl⟩
  · cases h
  · rename_i hnone
    cases h
    exact .inr ⟨hnone, rfl⟩

theorem openCreate_extends {i : FileId} (h : d.openCreate p = .ok (i, d')) : Extends d d' := by
  obtain ⟨n, hp, ⟨_, rfl⟩ | ⟨hn, hd⟩⟩ := openCreate_ok h
  · exact .refl d'
  · rw [show d' = (d.addFile n).2 from congrArg Prod.snd hd]
    exact extends_addFile hp.ne_nil hn

theorem lookUp_openCreate {i : FileId} (h : d.openCreate p = .ok (i, d')) :
    d'.lookUp p = .ok (.file i) := by
  have he := openCreate_extends h
  obtain ⟨n, hp, ⟨hn, rfl⟩ | ⟨_, hd⟩⟩ := openCreate_ok h
  · exact lookUp_eq_file.mpr ⟨n, hp, hn⟩
  · refine lookUp_eq_file.mpr ⟨n, hp.mono he, ?_⟩
    rw [show d' = (d.addFile n).2 from congrArg Prod.snd hd, node?_addFile hp.ne_nil, if_pos rfl,
      show i = d.next from congrArg Prod.fst hd]

end

end Disk

end Timeshift
