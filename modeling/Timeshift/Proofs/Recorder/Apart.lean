import Timeshift.Proofs.Recorder.Live

/-!
# The files of a recorder

A recorder puts everything in its directory under names that it makes from the settings. The check
of the settings keeps the segments and the indexes of a recording apart, whatever their numbers. Of
the manifest it asks too little: its name may be no file name at all, and it may be the name of one
of the others.
-/

namespace Timeshift

namespace Path

def IsChild (directory p : Path) : Prop :=
  ∃ x, p.fileNameChars? = some x ∧ p.lead = directory.lead ∧ p.names = directory.names ++ [x]

section
variable {p : Path} {x y : List Char}

theorem isChild_join_name (hx : IsName x) (p : Path) :
    IsChild p (p.join ⟨String.ofList x⟩) ↔ x ≠ ['.', '.'] := by
  unfold IsChild
  rw [fileNameChars?_join_name hx, lead_join_name hx, names_join_name hx]
  by_cases h : x = ['.', '.']
  · simp [h]
  · simp [h]

theorem not_isChild_join_dot (p : Path) : ¬ IsChild p (p.join ⟨"."⟩) := by
  intro ⟨x, _, _, hnames⟩
  have hjoin : (p.join ⟨"."⟩).names = p.names := by
    by_cases hp : p.text = ""
    · rw [eq_of_text_empty hp]
      rfl
    · rw [names_join rfl hp]
      exact List.append_nil _
  rw [hjoin] at hnames
  simp at hnames

theorem same_join_name (hx : IsName x) (hy : IsName y) :
    Same (p.join ⟨String.ofList x⟩) (p.join ⟨String.ofList y⟩) ↔ x = y := by
  unfold Same
  rw [lead_join_name hx, lead_join_name hy, names_join_name hx, names_join_name hy]
  simp

end

end Path

namespace Recorder

inductive Role
  | manifest
  /-- Where a new manifest is written before it takes the name of the old one. -/
  | temporary
  | segment (n : Nat)
  | index (n : Nat)

def place (c : RecorderSettings) (directory : Path) : Role → Path
  | .manifest => directory.join ⟨c.manifestName⟩
  | .temporary => (directory.join ⟨c.manifestName⟩).withExtension "tmp"
  | .segment n => directory.join ⟨segmentName c n⟩
  | .index n => (directory.join ⟨segmentName c n⟩).indexPath c.indexExtension

def Role.IsNumbered : Role → Prop
  | .manifest | .temporary => False
  | .segment _ | .index _ => True

theorem Role.cases (a : Role) : a = .manifest ∨ a = .temporary ∨ a.IsNumbered := by
  cases a with
  | manifest => exact .inl rfl
  | temporary => exact .inr (.inl rfl)
  | segment n => exact .inr (.inr trivial)
  | index n => exact .inr (.inr trivial)

structure FilesApart (c : RecorderSettings) (directory : Path) (roles : Role → Prop) : Prop where
  child : ∀ a, roles a → Path.IsChild directory (place c directory a)
  apart : ∀ a b, roles a → roles b → a ≠ b → ¬ Path.Same (place c directory a) (place c directory b)

def nameOf (c : RecorderSettings) : Role → List Char
  | .manifest => c.manifestName.toList
  | .temporary => Path.extendName c.manifestName.toList "tmp".toList
  | .segment n => (segmentName c n).toList
  | .index n => (indexName c n).toList

/-- What the check of the settings would have to ask of the manifest's name: that it and the
temporary name made from it are file names, and neither that of the other nor of a segment or an
index. -/
structure ManifestApart (c : RecorderSettings) : Prop where
  notDot : c.manifestName ≠ "."
  notDots : c.manifestName ≠ ".."
  temporaryNotDots : nameOf c .temporary ≠ "..".toList
  temporary : nameOf c .temporary ≠ nameOf c .manifest
  others : ∀ a : Role, a.IsNumbered → nameOf c .manifest ≠ nameOf c a ∧
    nameOf c .temporary ≠ nameOf c a

section
variable {c : RecorderSettings} {directory : Path} {a b : Role} {m n : Nat}

/-! ## What a recorder does with the places -/

theorem open_places {x : Recorder} {w w' : World} (hn : c.NamesFiles) (hd : c.manifestName ≠ ".")
    (h : Recorder.open directory c w = (.ok x, w')) :
    x.manifestPath = place c directory .manifest ∧
      Path.Same directory x.recording.directory := by
  obtain ⟨d, r, _, _, rfl, ⟨_, rfl⟩ | ⟨hload, _⟩⟩ := open_eq_ok h
  · exact ⟨rfl, .refl _⟩
  · refine ⟨rfl, ?_⟩
    obtain ⟨m, _, rfl⟩ := Recording.load_eq_ok.mp hload
    obtain ⟨q, hq, hshort⟩ := Path.shortens_parent (hn.isName_manifest hd) directory
    rw [← path_eq] at hq
    have hbase : ∀ base, (Recording.ofManifest base m).directory = base.getD ⟨""⟩ := fun _ => rfl
    rw [hbase, Recording.directory_baseOf, hq]
    exact hshort.same.symm

theorem begin_places {x x' : Recorder} {p : Path} {start : UInt64} {w w' : World}
    (hd : Path.Same x.directory x.recording.directory)
    (hx : x.recording.extension = x.settings.indexExtension)
    (h : x.beginSegment start w = (.ok p, x', w')) :
    let n := x.recording.segments.length
    Path.Same (place x.settings x.directory (.segment n)) p ∧
      ∃ s, x'.recording.segments[n]? = some s ∧ s.file = p ∧
        Path.Same (place x.settings x.directory (.index n)) s.index := by
  intro n
  obtain ⟨s, hs, hname, hfile, hp, hindex⟩ := beginSegment_entry h
  have hne : (⟨segmentName x.settings n⟩ : Path).text ≠ "" := by
    rw [← hname]
    exact s.path.nonempty
  refine ⟨?_, s, hs, hfile, ?_⟩
  · rw [hp]
    exact hd.join _
  · have hplace : place x.settings x.directory (.index n) = x.directory.join
        ((⟨segmentName x.settings n⟩ : Path).indexPath x.settings.indexExtension) :=
      Path.indexPath_join hne _ _
    rw [hindex, hp, hx, Path.indexPath_join hne, hplace]
    exact hd.join _

/-! ## The numbered files -/

theorem extensions_apart (h : c.fault? = none) : '.' ∉ c.indexExtension.toList ∧
    '.' ∉ c.segmentExtension.toList ∧ c.indexExtension ≠ c.segmentExtension := by
  unfold RecorderSettings.fault? at h
  split at h
  · cases h
  rename_i h₁
  split at h
  · cases h
  rename_i h₂
  split at h
  · cases h
  rename_i h₃
  have hbare : ∀ {s : String}, RecorderSettings.isBare s = true → '.' ∉ s.toList := by
    intro s hs hm
    simp only [RecorderSettings.isBare, Bool.and_eq_true, Bool.not_eq_true',
      List.any_eq_false] at hs
    exact hs.2 '.' hm (by decide)
  simp only [Bool.not_eq_true', Bool.not_eq_false] at h₁ h₂
  exact ⟨hbare h₁, hbare h₂, h₃⟩

theorem splitExtension_segmentName (h : c.fault? = none) (n : Nat) :
    Path.splitExtension (segmentName c n).toList =
      (c.segmentStem.toList ++ '-' :: paddedNumber n, some c.segmentExtension.toList) := by
  rw [← Path.splitExtension_append (by simp) (extensions_apart h).2.1]
  simp [segmentName]

/-- The extensions are without a dot, so they can be read off the names. -/
theorem segmentName_ne_indexName (h : c.fault? = none) (m n : Nat) :
    segmentName c m ≠ indexName c n := by
  obtain ⟨hindex, _, hne⟩ := extensions_apart h
  intro heq
  have hs := splitExtension_segmentName h m
  have hi : Path.splitExtension (indexName c n).toList =
      ((segmentName c n).toList, some c.indexExtension.toList) := by
    rw [← Path.splitExtension_append (by simp [segmentName]) hindex]
    simp [indexName]
  rw [heq, hi] at hs
  injection hs with _ hs
  exact hne (String.toList_inj.mp (Option.some.inj hs))

theorem nameOf_numbered_injective (h : c.fault? = none) (ha : a.IsNumbered) (hb : b.IsNumbered)
    (heq : nameOf c a = nameOf c b) : a = b := by
  have hseg := fun m n => segmentName_ne_indexName h m n
  match a, b, ha, hb with
  | .segment m, .segment n, _, _ =>
    rw [segmentName_injective (String.toList_inj.mp heq)]
  | .index m, .index n, _, _ =>
    rw [indexName_injective (String.toList_inj.mp heq)]
  | .segment m, .index n, _, _ => exact absurd (String.toList_inj.mp heq) (hseg m n)
  | .index m, .segment n, _, _ => exact absurd (String.toList_inj.mp heq).symm (hseg n m)

theorem isName_numbered (h : c.NamesFiles) (ha : a.IsNumbered) :
    Path.IsName (nameOf c a) ∧ nameOf c a ≠ "..".toList := by
  have hlong : ∀ n, 2 < (segmentName c n).toList.length := by
    intro n
    simp [segmentName, paddedNumber]
    omega
  have hne : ∀ x : List Char, 2 < x.length → x ≠ "..".toList := by
    intro x hx heq
    rw [heq] at hx
    exact absurd hx (by decide)
  cases a with
  | manifest => exact ha.elim
  | temporary => exact ha.elim
  | segment n => exact ⟨isName_segmentName h n, hne _ (hlong n)⟩
  | index n =>
    refine ⟨isName_indexName h n, hne _ ?_⟩
    have := hlong n
    simp only [nameOf, indexName, String.toList_append, List.length_append]
    omega

theorem place_numbered (h : c.NamesFiles) (ha : a.IsNumbered) (directory : Path) :
    place c directory a = directory.join ⟨String.ofList (nameOf c a)⟩ := by
  cases a with
  | manifest => exact ha.elim
  | temporary => exact ha.elim
  | segment n =>
    rw [nameOf, ← path_eq]
    rfl
  | index n =>
    rw [nameOf, ← path_eq]
    refine Path.indexPath_join ?_ directory c.indexExtension
    intro hempty
    exact (isName_segmentName h n).ne_nil (String.toList_eq_nil_iff.mpr hempty)

/-! ## All files -/

theorem isName_nameOf (h : c.NamesFiles) (hd : c.manifestName ≠ ".") (a : Role) :
    Path.IsName (nameOf c a) := by
  obtain rfl | rfl | ha := a.cases
  · exact h.isName_manifest hd
  · exact (h.isName_manifest hd).extendName (by decide)
  · exact (isName_numbered h ha).1

theorem place_eq (h : c.NamesFiles) (hd : c.manifestName ≠ ".") (hdd : c.manifestName ≠ "..")
    (directory : Path) (a : Role) :
    place c directory a = directory.join ⟨String.ofList (nameOf c a)⟩ := by
  obtain rfl | rfl | ha := a.cases
  · rw [nameOf, ← path_eq]
    rfl
  · unfold place
    rw [path_eq c.manifestName]
    refine Path.withExtension_join (h.isName_manifest hd) ?_ "tmp" (by decide) directory
    exact fun heq => hdd (String.toList_inj.mp heq)
  · exact place_numbered h ha directory

theorem ManifestApart.nameOf_injective (h : ManifestApart c) (hc : c.fault? = none)
    (heq : nameOf c a = nameOf c b) : a = b := by
  obtain rfl | rfl | ha := a.cases
  · obtain rfl | rfl | hb := b.cases
    · rfl
    · exact absurd heq.symm h.temporary
    · exact absurd heq (h.others b hb).1
  · obtain rfl | rfl | hb := b.cases
    · exact absurd heq h.temporary
    · rfl
    · exact absurd heq (h.others b hb).2
  · obtain rfl | rfl | hb := b.cases
    · exact absurd heq.symm (h.others a ha).1
    · exact absurd heq.symm (h.others a ha).2
    · exact nameOf_numbered_injective hc ha hb heq

theorem ManifestApart.ne_dots (h : ManifestApart c) (hn : c.NamesFiles) (a : Role) :
    nameOf c a ≠ "..".toList := by
  obtain rfl | rfl | ha := a.cases
  · exact fun heq => h.notDots (String.toList_inj.mp heq)
  · exact h.temporaryNotDots
  · exact (isName_numbered hn ha).2

theorem filesApart_numbered (hc : c.fault? = none) (directory : Path) :
    FilesApart c directory Role.IsNumbered := by
  have hn := RecorderSettings.namesFiles hc
  constructor
  · intro a ha
    obtain ⟨hname, hdots⟩ := isName_numbered hn ha
    rw [place_numbered hn ha]
    exact (Path.isChild_join_name hname directory).mpr hdots
  · intro a b ha hb hne hsame
    rw [place_numbered hn ha, place_numbered hn hb,
      Path.same_join_name (isName_numbered hn ha).1 (isName_numbered hn hb).1] at hsame
    exact hne (nameOf_numbered_injective hc ha hb hsame)

theorem FilesApart.manifestApart (h : FilesApart c directory fun _ => True) (hn : c.NamesFiles) :
    ManifestApart c := by
  have hdot : c.manifestName ≠ "." := by
    intro heq
    apply Path.not_isChild_join_dot directory
    rw [← heq]
    exact h.child .manifest trivial
  have hdots : c.manifestName ≠ ".." := by
    intro heq
    have hchild := h.child .manifest trivial
    unfold place at hchild
    rw [heq] at hchild
    exact (Path.isChild_join_name (x := "..".toList) ⟨by decide, rfl⟩ directory).mp hchild rfl
  have hplace := place_eq hn hdot hdots directory
  have hne : ∀ a b, a ≠ b → nameOf c a ≠ nameOf c b := by
    intro a b hab heq
    apply h.apart a b trivial trivial hab
    rw [hplace, hplace, heq]
    exact .refl _
  refine ⟨hdot, hdots, ?_, hne _ _ nofun, ?_⟩
  · have hchild := h.child .temporary trivial
    rw [hplace] at hchild
    exact (Path.isChild_join_name (isName_nameOf hn hdot .temporary) directory).mp hchild
  · intro a ha
    constructor
    · exact hne _ _ fun heq => by rw [← heq] at ha; exact ha
    · exact hne _ _ fun heq => by rw [← heq] at ha; exact ha

theorem ManifestApart.filesApart (h : ManifestApart c) (hc : c.fault? = none) (directory : Path) :
    FilesApart c directory fun _ => True := by
  have hn := RecorderSettings.namesFiles hc
  have hplace := place_eq hn h.notDot h.notDots directory
  have hname := isName_nameOf hn h.notDot
  constructor
  · intro a _
    rw [hplace]
    exact (Path.isChild_join_name (hname a) directory).mpr (h.ne_dots hn a)
  · intro a b _ _ hne hsame
    rw [hplace, hplace, Path.same_join_name (hname a) (hname b)] at hsame
    exact hne (h.nameOf_injective hc hsame)

/-- With settings that pass their check the segments and the indexes are kept apart. That the
manifest is kept apart from them too is a matter of its name. -/
theorem files_apart_iff (hc : c.fault? = none) (directory : Path) :
    FilesApart c directory Role.IsNumbered ∧
      (FilesApart c directory (fun _ => True) ↔ ManifestApart c) :=
  ⟨filesApart_numbered hc directory,
    fun h => h.manifestApart (RecorderSettings.namesFiles hc), fun h => h.filesApart hc directory⟩

end

/-! ## Names that pass the check -/

/-- A manifest name that is no file name, and one that is the name of an index. -/
theorem names_collide :
    (({ manifestName := ".." } : RecorderSettings).fault? = none ∧
      ¬ Path.IsChild ⟨"rec"⟩ (place { manifestName := ".." } ⟨"rec"⟩ .manifest)) ∧
    ({ manifestName := "seg-00000.ts.idx" } : RecorderSettings).fault? = none ∧
      Path.Same (place { manifestName := "seg-00000.ts.idx" } ⟨"rec"⟩ .manifest)
        (place { manifestName := "seg-00000.ts.idx" } ⟨"rec"⟩ (.index 0)) := by
  refine ⟨⟨by decide +kernel, ?_⟩, by decide +kernel, by decide +kernel⟩
  intro ⟨x, hx, _⟩
  have hnone : (place { manifestName := ".." } ⟨"rec"⟩ .manifest).fileNameChars? = none := by
    decide +kernel
  rw [hnone] at hx
  cases hx

theorem manifestApart_default : ManifestApart {} := by
  have hfirst : ∀ a : Role, a.IsNumbered → (nameOf {} a).head? = some 's' := by
    intro a ha
    cases a with
    | manifest => exact ha.elim
    | temporary => exact ha.elim
    | segment n => simp [nameOf, segmentName]
    | index n => simp [nameOf, indexName, segmentName]
  refine ⟨by decide, by decide, by decide +kernel, by decide +kernel, ?_⟩
  intro a ha
  constructor
  · intro heq
    have := hfirst a ha
    rw [← heq] at this
    exact absurd this (by decide)
  · intro heq
    have := hfirst a ha
    rw [← heq] at this
    exact absurd this (by decide +kernel)

theorem files_apart_default : ({} : RecorderSettings).fault? = none ∧
    FilesApart {} ⟨"rec"⟩ fun _ => True := by
  have hc : ({} : RecorderSettings).fault? = none := by decide +kernel
  exact ⟨hc, (files_apart_iff hc ⟨"rec"⟩).2.mpr manifestApart_default⟩

end Recorder

end Timeshift
