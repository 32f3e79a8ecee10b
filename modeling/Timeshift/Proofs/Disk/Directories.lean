import Timeshift.Proofs.Disk.Sound
import Timeshift.Proofs.Path.Names

/-!
# Directories by path

A directory is reached by the pieces of its path that name something, so two paths that are equal as
paths lead to the same directory, and a name taken from either leads to the same place in it.
-/

namespace Timeshift

namespace Path

section
variable {p q : Path}

theorem isAbsolute_iff_lead : p.isAbsolute = true ↔ p.lead = ['/'] := by
  unfold isAbsolute lead
  split
  · rename_i h; simp [h]
  · rename_i h; simp [h]
  · rename_i h; simp [h]
  · rename_i h _ _
    match hc : p.chars, h with
    | [], _ => simp
    | c :: cs, h =>
      have hne : c ≠ '/' := fun e => h cs (by rw [e])
      simp [hne]

theorem isAbsolute_eq (h : p.lead = q.lead) : p.isAbsolute = q.isAbsolute :=
  Bool.eq_iff_iff.mpr (by rw [isAbsolute_iff_lead, isAbsolute_iff_lead, h])

theorem parts_chars (p : Path) : parts p.chars = p.names := by
  rw [names_eq]
  unfold lead
  split
  · rename_i rest h; rw [h]; exact parts_append [] rest
  · rename_i h; rw [h]; rfl
  · rename_i rest h; rw [h]; exact (parts_append ['.'] rest).trans (parts_append [] rest).symm
  · rfl

theorem parts_eq (cs : List Char) :
    parts cs = ((slashSplit cs).filter (· ≠ [])).filter (· ≠ ['.']) := by
  unfold parts
  rw [List.filter_filter]
  refine List.filter_congr fun piece _ => ?_
  simp [isTrivial, Bool.and_comm]

end

end Path

namespace Disk

section
variable {d d' : Disk} {p q : Path} {m n directory : Name} {x : List Char}

/-! ## Walking -/

theorem walk_append (d : Disk) (m : Name) (a b : List (List Char)) :
    d.walk m (a ++ b) = d.walk m a >>= fun n => d.walk n b := List.foldlM_append ..

theorem walk_filter (d : Disk) : ∀ (m : Name) (pieces : List (List Char)),
    d.walk m (pieces.filter (· ≠ ['.'])) = d.walk m pieces
  | _, [] => rfl
  | m, piece :: pieces => by
    by_cases h : piece = ['.']
    · rw [List.filter_cons_of_neg (by simp [h]), d.walk_filter m pieces]
      unfold walk
      rw [List.foldlM_cons, h]
      rfl
    · rw [List.filter_cons_of_pos (by simp [h])]
      unfold walk
      rw [List.foldlM_cons, List.foldlM_cons]
      refine congrArg _ (funext fun n => d.walk_filter n pieces)

theorem walk_pieces (d : Disk) (m : Name) (p : Path) : d.walk m p.pieces = d.walk m p.names := by
  rw [← Path.parts_chars, Path.parts_eq, walk_filter]
  rfl

/-- The path `p` leads to the directory. The empty path leads to where one is. -/
def Resolves (d : Disk) (p : Path) (directory : Name) : Prop :=
  d.walk (d.start p) p.names = .ok directory

theorem start_eq (h : p.lead = q.lead) : d.start p = d.start q := by
  unfold start
  rw [Path.isAbsolute_eq h]

theorem Resolves.same (h : d.Resolves p directory) (hpq : Path.Same p q) :
    d.Resolves q directory := by
  unfold Resolves
  rw [← start_eq hpq.1, ← hpq.2]
  exact h

theorem Resolves.mono (he : Extends d d') (h : d.Resolves p directory) :
    d'.Resolves p directory := by
  unfold Resolves start
  rw [he.here]
  exact walk_mono he h

theorem Resolves.unique (hm : d.Resolves p m) (hn : d.Resolves p n) : m = n :=
  Except.ok.inj (hm.symm.trans hn)

/-! ## A name in a directory -/

theorem pieces_join_name (hx : Path.IsName x) (p : Path) : ∃ pieces,
    (p.join ⟨String.ofList x⟩).pieces = pieces ++ [x] ∧
      pieces.filter (· ≠ ['.']) = p.names := by
  have hchars := Path.chars_join hx.isAbsolute p
  rw [Path.chars_ofList] at hchars
  have hx' : x ≠ [] := hx.ne_nil
  have hpieces : (p.join ⟨String.ofList x⟩).pieces =
      (slashSplit p.stem).dropLast.filter (· ≠ []) ++ [x] := by
    unfold Path.pieces
    rw [hchars, (Path.leads_stem p).split hx.noSlash, List.filter_append,
      List.filter_cons_of_pos (by simpa using hx')]
    rfl
  refine ⟨_, hpieces, ?_⟩
  have hnames := Path.parts_chars (p.join ⟨String.ofList x⟩)
  rw [Path.parts_eq, Path.names_join_name hx] at hnames
  change (p.join ⟨String.ofList x⟩).pieces.filter _ = _ at hnames
  rw [hpieces, List.filter_append, List.filter_cons_of_pos (by simpa using hx.ne_dot)] at hnames
  exact List.append_cancel_right hnames

theorem leadsTo_join_name (hx : Path.IsName x) : d.LeadsTo (p.join ⟨String.ofList x⟩) n ↔
    (p.join ⟨String.ofList x⟩).Fits ∧ x ≠ ['.', '.'] ∧ isTooLong x = false ∧
      ∃ directory, d.Resolves p directory ∧ n = directory ++ [x] := by
  obtain ⟨pieces, hpieces, hnames⟩ := pieces_join_name hx p
  have hlast : (p.join ⟨String.ofList x⟩).chars.getLast? ≠ some '/' := by
    rw [Path.chars_join hx.isAbsolute, Path.chars_ofList, List.getLast?_append,
      List.getLast?_eq_some_getLast hx.ne_nil, Option.some_or]
    exact fun h => hx.noSlash (Option.some.inj h ▸ List.getLast_mem hx.ne_nil)
  have hwalk : d.walk (d.start (p.join ⟨String.ofList x⟩)) pieces =
      d.walk (d.start p) p.names := by
    rw [start_eq (Path.lead_join_name hx p), ← walk_filter, hnames]
  rw [leadsTo_iff, hpieces, List.getLast?_concat, List.dropLast_concat, hwalk]
  constructor
  · rintro ⟨hf, _, directory, last, hl, _, hdots, hlong, hw, rfl⟩
    cases hl
    exact ⟨hf, hdots, hlong, directory, hw, rfl⟩
  · rintro ⟨hf, hdots, hlong, directory, hw, rfl⟩
    exact ⟨hf, hlast, directory, x, rfl, hx.ne_dot, hdots, hlong, hw, rfl⟩

/-- A path of a file ends in a name. -/
theorem LeadsTo.name (h : d.LeadsTo p n) :
    ∃ (q : Path) (x : List Char), Path.IsName x ∧ p = q.join ⟨String.ofList x⟩ := by
  obtain ⟨hf, hslash, _, last, hlast, hdot, _, _, _, _⟩ := leadsTo_iff.mp h
  obtain ⟨a, x, hp, ha, hx⟩ := Path.exists_leads p.chars
  have hne : x ≠ [] := by
    rintro rfl
    rw [List.append_nil] at hp
    rcases ha with rfl | ⟨b, rfl⟩
    · exact hf.nonempty (Path.chars_eq_nil.mp hp)
    · rw [hp, List.getLast?_concat] at hslash
      exact hslash rfl
  have hpieces : p.pieces = (slashSplit a).dropLast.filter (· ≠ []) ++ [x] := by
    unfold Path.pieces
    rw [hp, ha.split hx, List.filter_append, List.filter_cons_of_pos (by simpa using hne)]
    rfl
  rw [hpieces, List.getLast?_concat, Option.some.injEq] at hlast
  subst hlast
  have hname : Path.IsName x := ⟨hx, by simp [Path.isTrivial, hne, hdot]⟩
  refine ⟨⟨String.ofList a⟩, x, hname, Path.join_name_eq hname ?_⟩
  rw [ha.stem]
  exact hp

/-- With an extension that is not its own a path leads to another place. -/
theorem LeadsTo.withExtension_ne {extension : String} (hp : d.LeadsTo p m)
    (hq : d.LeadsTo (p.withExtension extension) n) (hslash : '/' ∉ extension.toList)
    (hdot : '.' ∉ extension.toList) (he : p.extension? ≠ some extension) : m ≠ n := by
  obtain ⟨q, x, hx, rfl⟩ := hp.name
  obtain ⟨_, hdots, _, directory, _, rfl⟩ := (leadsTo_join_name hx).mp hp
  rw [Path.withExtension_join hx hdots _ hslash] at hq
  obtain ⟨_, hdots', _, directory', _, rfl⟩ := (leadsTo_join_name (hx.extendName hslash)).mp hq
  intro h
  have hxy : Path.extendName x extension.toList = x := by
    have := (List.append_inj' h rfl).2
    rw [List.cons.injEq] at this
    exact this.1.symm
  have hsplit := Path.splitExtension_extendName hx hdot hdots'
  rw [hxy] at hsplit
  apply he
  rw [Path.extension?_join_name hx hdots, hsplit, Option.map_some, String.ofList_toList]

theorem fits_of_shortens (hq : Path.Shortens q p) (hx : Path.IsName x)
    (h : (p.join ⟨String.ofList x⟩).Fits) : (q.join ⟨String.ofList x⟩).Fits := by
  have hp := Path.chars_join hx.isAbsolute p
  have hj := Path.chars_join hx.isAbsolute q
  rw [Path.chars_ofList] at hp hj
  obtain ⟨rest, hrest⟩ := hq.stem
  have htext : ∀ r : Path, r.text = String.ofList r.chars := fun r => String.ofList_toList.symm
  refine ⟨fun hn => h.noNul ?_, fun he => ?_, ?_⟩
  · rw [hj] at hn
    rw [hp, ← hrest]
    rcases List.mem_append.mp hn with hn | hn
    · exact List.mem_append_left _ (List.mem_append_left _ hn)
    · exact List.mem_append_right _ hn
  · rw [← Path.chars_eq_nil, hj] at he
    exact hx.ne_nil (List.append_eq_nil_iff.mp he).2
  · refine Nat.lt_of_le_of_lt ?_ h.short
    rw [htext (q.join _), htext (p.join _), hj, hp, ← hrest]
    simp only [String.ofList_append, String.utf8ByteSize_append]
    omega

theorem leadsTo_of_shortens (hq : Path.Shortens q p) (hx : Path.IsName x)
    (h : d.LeadsTo (p.join ⟨String.ofList x⟩) n) : d.LeadsTo (q.join ⟨String.ofList x⟩) n := by
  obtain ⟨hf, hdots, hlong, directory, hr, rfl⟩ := (leadsTo_join_name hx).mp h
  exact (leadsTo_join_name hx).mpr
    ⟨fits_of_shortens hq hx hf, hdots, hlong, directory, hr.same hq.same.symm, rfl⟩

/-! ## Directories that are there -/

def HasDirectory (d : Disk) (p : Path) : Prop := p.text = "" ∨ d.lookUp p = .ok .directory

theorem lookUp_eq_directory : d.lookUp p = .ok .directory ↔
    ∃ s, d.spot p = .ok s ∧ d.find s = .ok (some .directory) := by
  unfold lookUp
  rw [bind_eq_ok]
  refine exists_congr fun s => and_congr_right fun _ => ?_
  rw [bind_eq_ok]
  constructor
  · rintro ⟨node, hf, h⟩
    split at h
    · split at h <;> cases h
    · exact hf
    · cases h
  · intro hf
    exact ⟨_, hf, rfl⟩

theorem spot_mono (he : Extends d d') {s : Spot} (h : d.spot p = .ok s) : d'.spot p = .ok s := by
  have hf := fits_of_spot h
  have hstart : d'.start p = d.start p := by unfold start; rw [he.here]
  rw [spot_of_fits hf] at h ⊢
  rw [hstart]
  cases hl : p.pieces.getLast? with
  | none => rwa [hl] at h
  | some last =>
    rw [hl] at h
    obtain ⟨directory, hw, h⟩ := bind_eq_ok.mp h
    refine bind_eq_ok.mpr ⟨directory, walk_mono he hw, ?_⟩
    split at h
    · rename_i hdots
      obtain ⟨n, hn, h⟩ := bind_eq_ok.mp h
      rw [if_pos hdots]
      exact bind_eq_ok.mpr ⟨n, enter_mono he hn, h⟩
    · rename_i hdots
      rwa [if_neg hdots]

theorem find_directory_mono (he : Extends d d') {s : Spot} (h : d.find s = .ok (some .directory)) :
    d'.find s = .ok (some .directory) := by
  unfold find at h ⊢
  cases hl : s.last with
  | none => rfl
  | some last =>
    simp only [hl] at h ⊢
    split at h
    · cases h
    · rename_i hlong
      rw [if_neg hlong, he.directory _ (Except.ok.inj h)]

theorem HasDirectory.mono (he : Extends d d') (h : d.HasDirectory p) : d'.HasDirectory p := by
  refine h.imp id fun h => ?_
  obtain ⟨s, hs, hf⟩ := lookUp_eq_directory.mp h
  exact lookUp_eq_directory.mpr ⟨s, spot_mono he hs, find_directory_mono he hf⟩

theorem HasDirectory.resolves (h : d.HasDirectory p) : ∃ directory, d.Resolves p directory := by
  rcases h with h | h
  · refine ⟨d.here, ?_⟩
    rw [Path.eq_of_text_empty h]
    rfl
  obtain ⟨s, hs, hf⟩ := lookUp_eq_directory.mp h
  rw [spot_of_fits (fits_of_spot hs)] at hs
  unfold Resolves
  rw [← walk_pieces]
  cases hl : p.pieces.getLast? with
  | none => exact ⟨_, by rw [List.getLast?_eq_none_iff.mp hl]; rfl⟩
  | some last =>
    obtain ⟨init, hinit⟩ := List.getLast?_eq_some_iff.mp hl
    rw [hl, hinit, List.dropLast_concat] at hs
    obtain ⟨directory, hw, hs⟩ := bind_eq_ok.mp hs
    rw [hinit, walk_append, hw, ok_bind]
    have hlast : d.walk directory [last] = d.enter directory last := by
      unfold walk
      rw [List.foldlM_cons]
      cases d.enter directory last <;> rfl
    rw [hlast]
    split at hs
    · obtain ⟨n, hn, _⟩ := bind_eq_ok.mp hs
      exact ⟨n, hn⟩
    · rename_i hdots
      simp only [Bool.or_eq_true, decide_eq_true_eq, not_or] at hdots
      cases hs
      simp only [find] at hf
      split at hf
      · cases hf
      · rename_i hlong
        have hn : d.node? (directory ++ [last]) = some .directory := Except.ok.inj hf
        refine ⟨directory ++ [last], ?_⟩
        unfold enter
        rw [if_neg hdots.1, if_neg hdots.2, if_neg hlong, hn]

theorem makeDirectory_of_directory (h : d.lookUp p = .ok .directory) :
    d.makeDirectory p = .error .fileExists := by
  obtain ⟨s, hs, hf⟩ := lookUp_eq_directory.mp h
  unfold makeDirectory
  rw [hs, ok_bind, hf]
  rfl

theorem makeDirectories_of_hasDirectory (h : d.HasDirectory p) :
    d.makeDirectories p = (.ok (), d) := by
  unfold makeDirectories ensureParents
  by_cases hp : p.text = ""
  · rw [if_pos hp]
  · have hd := h.resolve_left hp
    have hi : d.isDirectory p = true := by unfold isDirectory; rw [hd]
    rw [if_neg hp]
    unfold ensureDirectory
    rw [makeDirectory_of_directory hd, hi]
    rfl

/-! ## Making directories -/

structure Grows (d d' : Disk) : Prop where
  here : d'.here = d.here
  files : d'.files = d.files
  next : d'.next = d.next
  node? : ∀ n, d'.node? n = d.node? n ∨ d.node? n = none ∧ d'.node? n = some .directory
  sound : d.Sound → d'.Sound

theorem Grows.refl (d : Disk) : Grows d d := ⟨rfl, rfl, rfl, fun _ => .inl rfl, id⟩

theorem Grows.extends_ (h : Grows d d') : Extends d d' := by
  refine ⟨h.here, fun n hn => ?_⟩
  rcases h.node? n with hn' | ⟨_, hn'⟩
  · rw [hn', hn]
  · exact hn'

theorem Grows.trans {d₁ d₂ d₃ : Disk} (h₁ : Grows d₁ d₂) (h₂ : Grows d₂ d₃) : Grows d₁ d₃ := by
  refine ⟨h₂.here.trans h₁.here, h₂.files.trans h₁.files, h₂.next.trans h₁.next, fun n => ?_,
    h₂.sound ∘ h₁.sound⟩
  rcases h₂.node? n with hn | ⟨hn, hn'⟩
  · rw [hn]
    exact h₁.node? n
  · rcases h₁.node? n with hm | ⟨_, hm⟩
    · exact .inr ⟨hm ▸ hn, hn'⟩
    · rw [hm] at hn; cases hn

theorem Grows.file {i : FileId} (h : Grows d d') (hn : d'.node? n = some (.file i)) :
    d.node? n = some (.file i) := by
  rcases h.node? n with hm | ⟨_, hm⟩
  · rwa [hm] at hn
  · rw [hm] at hn; cases hn

theorem Sound.spot_directory (hs : d.Sound) {s : Spot} (h : d.spot p = .ok s) {last : List Char}
    (hl : s.last = some last) : d.node? s.directory = some .directory := by
  rw [spot_of_fits (fits_of_spot h)] at h
  cases hp : p.pieces.getLast? with
  | none => rw [hp] at h; cases h; cases hl
  | some piece =>
    rw [hp] at h
    obtain ⟨directory, hw, h⟩ := bind_eq_ok.mp h
    split at h
    · obtain ⟨n, _, h⟩ := bind_eq_ok.mp h
      cases h
      cases hl
    · cases h
      exact hs.walk_directory (hs.start_directory p) hw

theorem node?_putDirectory (hn : n ≠ []) (m : Name) :
    ({ d with nodes := d.nodes.put n .directory } : Disk).node? m =
      if m = n then some .directory else d.node? m := by
  unfold Disk.node?
  by_cases hm : m = n
  · rw [hm, if_neg hn, if_pos rfl, Table.lookup_put_self]
  · rw [if_neg hm, Table.lookup_put_of_ne hm]

theorem grows_putDirectory (hnone : d.node? (directory ++ [x]) = none)
    (hparent : d.Sound → d.node? directory = some .directory) :
    Grows d { d with nodes := d.nodes.put (directory ++ [x]) .directory } := by
  have hne : directory ++ [x] ≠ [] := List.concat_ne_nil _ _
  have hold : ∀ {n y}, d.node? n = some y →
      ({ d with nodes := d.nodes.put (directory ++ [x]) .directory } : Disk).node? n = some y :=
    fun {n y} hn => by
      rw [node?_putDirectory hne, if_neg (fun e => by rw [e, hnone] at hn; cases hn)]
      exact hn
  have hfile : ∀ {n i}, ({ d with nodes := d.nodes.put (directory ++ [x]) .directory } : Disk).node?
      n = some (.file i) → d.node? n = some (.file i) := fun {n i} hn => by
    rw [node?_putDirectory hne] at hn
    split at hn
    · cases hn
    · exact hn
  refine ⟨rfl, rfl, rfl, fun n => ?_, fun hd => ⟨hold hd.here, fun {n piece y} hn => ?_,
    fun hm hn => hd.one_name (hfile hm) (hfile hn), fun hn => hd.file_lt (hfile hn)⟩⟩
  · rw [node?_putDirectory hne]
    by_cases hn : n = directory ++ [x]
    · rw [if_pos hn, hn]
      exact .inr ⟨hnone, rfl⟩
    · rw [if_neg hn]
      exact .inl rfl
  · rw [node?_putDirectory hne] at hn
    split at hn
    · rename_i e
      rw [(List.append_inj' e rfl).1]
      exact hold (hparent hd)
    · exact hold (hd.parent hn)

theorem makeDirectory_ok (h : d.makeDirectory p = .ok d') :
    Grows d d' ∧ d'.lookUp p = .ok .directory := by
  obtain ⟨⟨directory, last, slash⟩, hs, h⟩ := bind_eq_ok.mp h
  obtain ⟨node, hf, h⟩ := bind_eq_ok.mp h
  cases node with
  | some node => cases h
  | none =>
    cases h
    cases last with
    | none => cases hf
    | some last =>
      simp only [find] at hf
      split at hf
      · cases hf
      rename_i hlong
      have hgrows := grows_putDirectory (Except.ok.inj hf) fun hd => hd.spot_directory hs rfl
      refine ⟨hgrows, lookUp_eq_directory.mpr ⟨_, spot_mono hgrows.extends_ hs, ?_⟩⟩
      simp only [find]
      rw [if_neg hlong]
      exact congrArg Except.ok ((node?_putDirectory (List.concat_ne_nil _ _) _).trans (if_pos rfl))

theorem ensureDirectory_ok (h : d.ensureDirectory p = (.ok (), d')) :
    Grows d d' ∧ d'.lookUp p = .ok .directory := by
  unfold ensureDirectory at h
  split at h
  · rename_i hm
    cases h
    exact makeDirectory_ok hm
  · split at h
    · rename_i hd
      cases h
      refine ⟨.refl _, ?_⟩
      unfold isDirectory at hd
      split at hd
      · assumption
      · cases hd
    · cases h

theorem ensureParents_ok : ∀ {fuel : Nat} {d d' : Disk} {p : Path},
    ensureParents fuel d p = (.ok (), d') → Grows d d' ∧ d'.HasDirectory p
  | 0, _, _, _, h => (ensureDirectory_ok h).imp_right .inr
  | fuel + 1, d, d', p, h => by
    unfold ensureParents at h
    split at h
    · rename_i hp
      cases h
      exact ⟨.refl _, .inl hp⟩
    split at h
    · rename_i hm
      cases h
      exact (makeDirectory_ok hm).imp_right .inr
    split at h
    · split at h
      · cases h
      · split at h
        · rename_i hparents
          have hfirst := (ensureParents_ok hparents).1
          have hlast := ensureDirectory_ok h
          exact ⟨hfirst.trans hlast.1, .inr hlast.2⟩
        · cases h
    · exact (ensureDirectory_ok h).imp_right .inr

/-- Where all directories of a path could be made, they are there, and no file was touched. -/
theorem makeDirectories_ok (h : d.makeDirectories p = (.ok (), d')) :
    Grows d d' ∧ d'.HasDirectory p := ensureParents_ok h

end

end Disk

end Timeshift
