import Timeshift.Proofs.Recorder.Follows

/-!
# Going on to the next segment

Ending the last segment seals its take. A new segment gets the next name in the directory, and
storing the list puts the manifest beside the indexes without touching any of them, so that what is
loaded from it follows the same takes.
-/

namespace Timeshift

/-- Settings that pass their check, with a manifest that is a file of its own in the directory: its
name, and the temporary name that it is written under, are no name of an index. -/
structure RecorderSettings.WellNamed (c : RecorderSettings) : Prop where
  checked : c.fault? = none
  notDot : c.manifestName ≠ "."
  notDots : c.manifestName ≠ ".."
  notIndex : ∀ n, c.manifestName ≠ Recorder.indexName c n
  temporaryNotIndex : ∀ n,
    ((⟨c.manifestName⟩ : Path).withExtension "tmp").text ≠ Recorder.indexName c n

namespace Recorder

section
variable {c : RecorderSettings} {dir : Path} {directory : Name} {d d' : Disk}
  {takes before : List Take} {t : Take} {r r' : Recording} {w w' : World} {start : UInt64}
  {path : SegmentPath} {i : FileId}

theorem path_eq (name : String) : (⟨name⟩ : Path) = ⟨String.ofList name.toList⟩ := by
  rw [String.ofList_toList]

theorem isName_manifest (hc : c.WellNamed) : Path.IsName c.manifestName.toList :=
  (RecorderSettings.namesFiles hc.checked).isName_manifest hc.notDot

theorem shortens_home (hc : c.WellNamed) (dir : Path) : Path.Shortens (home c dir) dir := by
  obtain ⟨q, hq, hs⟩ := Path.shortens_parent (isName_manifest hc) dir
  unfold home
  rw [path_eq, hq]
  exact hs

/-! ## Sealing the last take -/

theorem stopAfter_eq {s : Segment} (hs : s.start = t.start)
    (hstop : t.entries = [] → s.stop = t.start) : s.stopAfter t.entries.getLast? = t.stop := by
  unfold Segment.stopAfter Take.stop
  cases hl : t.entries.getLast? with
  | none => exact hstop (List.getLast?_eq_none_iff.mp hl)
  | some e => simp only [hs]

theorem Follows.finishLast (h : Follows c dir directory w.disk takes r) :
    (r.finishLast w).2.disk = w.disk ∧
      Follows c dir directory w.disk takes (r.finishLast w).1 ∧
      (r.finishLast w).1.manifest.items.map row = sealed c takes := by
  rcases Recording.finishLast_cases r w with ⟨hr, hf⟩ | ⟨init, s, hr, hf⟩
  · rw [hf]
    have htakes : takes = [] := by
      rw [← h.lists.nil_iff, Recording.manifest_items, hr]
      rfl
    refine ⟨rfl, h, ?_⟩
    rw [Recording.manifest_items, hr, htakes]
    rfl
  · obtain ⟨before, t, i, rfl, hlen, hi⟩ := h.last hr
    have hl := h.lists
    rw [Recording.manifest_items, hr, List.map_append, List.map_singleton] at hl
    obtain ⟨hsealed, hpath, hstart, hstop⟩ := Lists.concat_iff.mp hl
    obtain ⟨hdisk, hend, hindexed⟩ := hi.finish
    have hplace := s.finish_samePlace w
    have hmem : s ∈ r.segments := by rw [hr]; simp
    have hspan := Segment.finish_span (h.listed.span hmem) w
    have hstop' : (s.finish w).1.stop = t.stop := by
      rw [hend]
      exact stopAfter_eq hstart hstop
    rw [hf]
    refine ⟨hdisk, h.replaceLast hr (.refl _) (fun k j _ hj => ⟨hj, rfl⟩) hplace hspan rfl
      (fun he => ?_) hindexed, ?_⟩
    · rw [hstop', Take.stop, he]
      rfl
    · rw [Recording.manifest_items, List.map_append, List.map_append, List.map_singleton,
        List.map_singleton, hsealed, sealed_concat]
      have hrow : row (s.finish w).1.item = (segmentName c before.length, t.start, t.stop) := by
        unfold row Segment.item
        rw [hstop', hplace.path, hplace.start]
        exact Prod.ext hpath (Prod.ext hstart rfl)
      rw [hrow]

/-! ## The next segment -/

/-- A directory as long as the recorder has it: what there is of it is sound, its path leads there,
and the files that it writes keep what is written to them. -/
structure Kept (c : RecorderSettings) (dir : Path) (directory : Name) (d : Disk) : Prop where
  sound : d.Sound
  there : d.HasDirectory dir
  resolves : d.Resolves dir directory
  faithful : d.FaithfulAt (WritesAt c directory)

theorem Kept.changesOnly (h : Kept c dir directory d) (hc : d.ChangesOnly i d') :
    Kept c dir directory d' :=
  ⟨hc.sound h.sound, h.there.mono hc.extends_, h.resolves.mono hc.extends_,
    h.faithful.changesOnly hc⟩

theorem Kept.changesMedia (h : Kept c dir directory d) (hd : d.ChangesMedia Medium.Faithful d') :
    Kept c dir directory d' :=
  ⟨hd.sound h.sound, h.there.mono hd.extends_, h.resolves.mono hd.extends_,
    h.faithful.changesMedia hd⟩

theorem leadsTo_name {q : Path} (hk : d.Resolves dir directory) (hq : Path.Same dir q)
    {x : List Char} (hx : Path.IsName x) {n : Name}
    (hn : d.LeadsTo (q.join ⟨String.ofList x⟩) n) : n = directory ++ [x] := by
  obtain ⟨_, _, _, directory', hr, rfl⟩ := (Disk.leadsTo_join_name hx).mp hn
  rw [hr.unique (hk.same hq)]

theorem Follows.same (h : Follows c dir directory d takes r) (hc : c.WellNamed) :
    Path.Same dir r.directory := (shortens_home hc dir).same.symm.trans h.home.same

theorem Follows.indexPath_eq (h : Follows c dir directory d takes r) {n : Nat}
    (hp : path.text = segmentName c n) : (r.fileOf path).indexPath r.extension =
      r.directory.join ⟨String.ofList (indexName c n).toList⟩ := by
  have hne : path.path.text ≠ "" := path.nonempty
  rw [Recording.fileOf_eq, Path.indexPath_join hne, ← path_eq, h.extension]
  unfold Path.indexPath SegmentPath.path indexName
  rw [hp]

/-- A file that is opened for the next index leaves the takes alone. If there was such a file, the new
segment starts with the complete records in it. -/
theorem Follows.openRecord {x : Index} (h : Follows c dir directory w.disk takes r)
    (hk : Kept c dir directory w.disk) (hc : c.WellNamed)
    (hp : path.text = segmentName c takes.length)
    (ho : Index.openRecord ((r.fileOf path).indexPath r.extension) w = (.ok x, w'))
    (start : UInt64) :
    ∃ i held, (r.opened path start x).Indexed w'.disk (indexPlace c directory takes.length) i held ∧
      (∀ n, w'.disk.node? n =
        if n = indexPlace c directory takes.length then some (.file i) else w.disk.node? n) ∧
      ((∀ j, w.disk.node? (indexPlace c directory takes.length) ≠ some (.file j)) → held = []) ∧
      Kept c dir directory w'.disk ∧ Follows c dir directory w'.disk takes r := by
  obtain ⟨i, d, hcreate, rfl, hord, hchange, hcontent⟩ := Index.openRecord_ok ho
  have hx := isName_indexName (RecorderSettings.namesFiles hc.checked) takes.length
  have hindex := h.indexPath_eq hp
  rw [hindex] at hcreate
  obtain ⟨n, hleads, hat, hnode, hfile⟩ := Disk.changesAt_of_openCreate hcreate
  have hn := leadsTo_name hk.resolves (h.same hc) hx hleads
  subst hn
  have hext := (Disk.openCreate_extends hcreate).trans hchange.extends_
  have hat := hat.changes hchange
  have hnode : ∀ n, w'.disk.node? n =
      if n = indexPlace c directory takes.length then some (.file i) else w.disk.node? n :=
    fun n => by rw [Disk.node?_congr hchange.nodes, hnode]; rfl
  have hplace : w'.disk.LeadsTo ((r.fileOf path).indexPath r.extension)
      (indexPlace c directory takes.length) := by
    rw [hindex]
    exact hleads.mono hext
  refine ⟨i, Entry.readAll (d.content i), ?_, hnode, fun hnone => ?_, ?_, ?_⟩
  · refine ⟨hplace, by rw [hnode, if_pos rfl], hcontent, hord, fun y hy => ?_, nofun⟩
    cases hy
    exact Index.tracks_recorderOf _ i _
  · rcases hat.place with ⟨hi, _⟩ | ⟨hnew, _⟩
    · exact absurd hi (hnone i)
    · rw [hfile]
      exact congrArg Entry.readAll (if_pos hnew)
  · refine ⟨hchange.sound (hk.sound.openCreate hcreate), hk.there.mono hext,
      hk.resolves.mono hext, hk.faithful.changesAt hat (.inl ⟨_, rfl⟩) fun n j _ hj => ?_⟩
    rw [hnode] at hj
    split at hj
    · cases hj; exact .inl rfl
    · exact .inr hj
  · refine h.frame hext fun k j hlt hj => ?_
    have hne : indexPlace c directory k ≠ indexPlace c directory takes.length := fun e =>
      Nat.ne_of_lt hlt (indexPlace_injective e)
    rw [hnode, if_neg hne]
    exact ⟨hj, (hat.other hk.sound hj hne).1⟩

theorem Follows.append (h : Follows c dir directory w.disk takes r)
    (hk : Kept c dir directory w.disk) (hc : c.WellNamed)
    (hr : r.append path start w = (.ok r', w')) (hp : path.text = segmentName c takes.length) :
    ∃ i held, (∀ n, w'.disk.node? n =
        if n = indexPlace c directory takes.length then some (.file i) else w.disk.node? n) ∧
      ((∀ j, w.disk.node? (indexPlace c directory takes.length) ≠ some (.file j)) → held = []) ∧
      Kept c dir directory w'.disk ∧ r'.finished = false ∧ r'.base = r.base ∧
      Follows c dir directory w'.disk (takes ++ [⟨start, held⟩]) r' := by
  obtain ⟨hrefusal, x, w₁, hopen, rfl, rfl⟩ := Recording.append_eq_ok.mp hr
  obtain ⟨i, held, hindexed, hnode, hheld, hkept, hold⟩ :=
    h.openRecord hk hc hp hopen start
  obtain ⟨hdisk, hlast, hsealed⟩ := hold.finishLast
  obtain ⟨hextension, hbase, hfinished, _, _⟩ := Recording.finishLast_keeps r w₁
  rw [hdisk]
  refine ⟨i, held, hnode, hheld, hkept,
    hfinished.trans (Recording.refusal?_eq_none.mp hrefusal).1, hbase,
    h.listed.append hr, hextension.trans h.extension, ?_, ?_, forall_concat
      (P := fun k s t => ∃ i, s.Indexed w₁.disk (indexPlace c directory k) i t.entries)
      hlast.length_eq hlast.indexed ⟨i, hindexed⟩⟩
  · unfold Recording.directory
    simp only [hbase]
    exact h.home
  · rw [Recording.manifest_items, List.map_append, List.map_singleton]
    exact Lists.concat hsealed hp rfl fun _ => rfl

/-! ## Storing the list -/

structure Stored (d : Disk) (path : Path) (n : Name) (m : Manifest) : Prop where
  good : m.fault? = none
  place : d.LeadsTo path n
  content : ∃ i, d.node? n = some (.file i) ∧ d.content i = Utf8.encode m.text

theorem Stored.load {m : Manifest} {path : Path} {n : Name} (h : Stored d path n m) :
    Manifest.load path d = .ok m := by
  obtain ⟨i, hn, hc⟩ := h.content
  refine Manifest.load_of_read h.good ?_
  unfold Disk.read
  rw [Disk.openRead_eq_ok.mpr (Disk.lookUp_eq_file.mpr ⟨n, h.place, hn⟩), ok_bind, hc]
  rfl

theorem Stored.frame {m : Manifest} {path : Path} {n : Name} (h : Stored d path n m)
    (he : Disk.Extends d d') (hk : ∀ i, d.node? n = some (.file i) →
      d'.node? n = some (.file i) ∧ d'.content i = d.content i) : Stored d' path n m := by
  obtain ⟨i, hn, hc⟩ := h.content
  exact ⟨h.good, h.place.mono he, i, (hk i hn).1, (hk i hn).2.trans hc⟩

theorem manifestPlace_ne (hc : c.WellNamed) (k : Nat) :
    manifestPlace c directory ≠ indexPlace c directory k := fun he =>
  hc.notIndex k (String.toList_inj.mp (List.append_singleton_inj.mp he).2)

theorem temporaryPlace_ne (hc : c.WellNamed) (k : Nat) :
    temporaryPlace c directory ≠ indexPlace c directory k := fun he =>
  hc.temporaryNotIndex k (String.toList_inj.mp (List.append_singleton_inj.mp he).2)

theorem temporary_join {name : String} (hx : Path.IsName name.toList) (hdots : name ≠ "..") :
    ∃ y, Path.IsName y ∧ ((⟨name⟩ : Path).withExtension "tmp").text = String.ofList y ∧
      ∀ p : Path, (p.join ⟨name⟩).withExtension "tmp" = p.join ⟨String.ofList y⟩ := by
  have hdots' : name.toList ≠ ['.', '.'] := fun e => hdots (String.toList_inj.mp e)
  obtain ⟨y, hy, htmp⟩ := Path.withExtension_join_name hx hdots' "tmp" (by decide)
  rw [String.ofList_toList] at htmp
  refine ⟨y, hy, ?_, htmp⟩
  have := congrArg Path.text (htmp ⟨""⟩)
  simpa [Path.join, hx.isAbsolute, hy.isAbsolute] using this

theorem temporary_name (hc : c.WellNamed) : ∃ y, Path.IsName y ∧
    (∀ p : Path, (p.join ⟨c.manifestName⟩).withExtension "tmp" = p.join ⟨String.ofList y⟩) ∧
      ∀ directory, temporaryPlace c directory = directory ++ [y] := by
  obtain ⟨y, hy, htext, htmp⟩ := temporary_join (isName_manifest hc) hc.notDots
  refine ⟨y, hy, htmp, fun directory => ?_⟩
  unfold temporaryPlace
  rw [htext, String.toList_ofList]

/-- Storing the list puts its document at the manifest's place and leaves the takes alone. -/
theorem Follows.store (h : Follows c dir directory w.disk takes r)
    (hk : Kept c dir directory w.disk) (hc : c.WellNamed)
    (hs : r.store (dir.join ⟨c.manifestName⟩) w = (.ok (), w')) :
    Stored w'.disk (dir.join ⟨c.manifestName⟩) (manifestPlace c directory) r.manifest ∧
      Kept c dir directory w'.disk ∧ Disk.Extends w.disk w'.disk ∧
      (∀ k, w'.disk.node? (indexPlace c directory k) = w.disk.node? (indexPlace c directory k)) ∧
      ∀ k i, w.disk.node? (indexPlace c directory k) = some (.file i) →
        w'.disk.content i = w.disk.content i := by
  have hx := isName_manifest hc
  obtain ⟨y, hy, htmp, hplace⟩ := temporary_name hc
  unfold Recording.store at hs
  cases hst : r.manifest.store (dir.join ⟨c.manifestName⟩) w.disk with
  | mk result d =>
    rw [hst] at hs
    cases hs
    have hhonest : ∀ i, w.disk.lookUp ((dir.join ⟨c.manifestName⟩).withExtension "tmp") =
        .ok (.file i) → (w.disk.medium i).Honest := fun i hi => by
      obtain ⟨n, hleads, hn⟩ := Disk.lookUp_eq_file.mp hi
      rw [htmp] at hleads
      rw [leadsTo_name hk.resolves (.refl dir) hy hleads, ← hplace] at hn
      exact (hk.faithful _ i (.inr rfl) hn).honest
    obtain ⟨s, t, i, hleads, hq, hrep, hcontent⟩ :=
      Disk.replace_ok hk.sound hhonest (Manifest.text_ne_nil _) hst
    -- both names are taken from a directory whose place is known, so theirs are too
    have ht : t = manifestPlace c directory := by
      rw [path_eq c.manifestName] at hq
      exact leadsTo_name hk.resolves (.refl dir) hx hq
    have hs : s = temporaryPlace c directory := by
      rw [htmp] at hleads
      rw [hplace]
      exact leadsTo_name hk.resolves (.refl dir) hy hleads
    subst hs ht
    have hext := hrep.extends_
    refine ⟨⟨h.listed.fault?, hq.mono hext, i, (hrep.node? _).trans (if_pos rfl), hcontent⟩,
      ⟨hrep.sound hk.sound hq, hk.there.mono hext, hk.resolves.mono hext,
        hk.faithful.changesAt hrep.toChangesAt (.inr rfl) fun n j _ hj => ?_⟩, hext,
      fun k => ?_, fun k j hj => (hrep.other hk.sound hj (temporaryPlace_ne hc k).symm).1⟩
    · rw [hrep.node?] at hj
      split at hj
      · cases hj; exact .inl rfl
      · split at hj
        · cases hj
        · exact .inr hj
    · rw [hrep.node?, if_neg (manifestPlace_ne hc k).symm, if_neg (temporaryPlace_ne hc k).symm]

/-- What a manifest of the same items gives when it is loaded, whatever path it is loaded from. -/
theorem Follows.reload (h : Follows c dir directory d takes r) (hc : c.WellNamed)
    {base : Option Path} (hbase : base.getD ⟨""⟩ = Recorder.home c dir) {m : Manifest}
    (hf : m.fault? = none) (hx : m.extension = c.indexExtension)
    (hi : m.items = r.manifest.items) : Follows c dir directory d takes (.ofManifest base m) := by
  have hdir : (Recording.ofManifest base m).directory = Recorder.home c dir := hbase
  have hlisted := Recording.listed_ofManifest hf base
  have hlists : Lists c takes (Recording.ofManifest base m).manifest.items := by
    rw [Recording.ofManifest_items, hi]
    exact h.lists
  refine ⟨hlisted, hx, hdir ▸ .refl _, hlists, fun k s t hs ht => ?_⟩
  have hk : k < r.segments.length := by
    rw [h.length_eq]
    exact (List.getElem?_eq_some_iff.mp ht).1
  have hs' := List.getElem?_eq_getElem hk
  obtain ⟨i, hi⟩ := h.indexed k _ t hs' ht
  have hmem := List.mem_of_getElem? hs
  obtain ⟨_, _, hplain⟩ := List.mem_map.mp hmem
  have hplace := hi.place
  rw [Follows.index_eq h.listed h.extension (List.getElem_mem hk) (h.item hs' ht).1,
    path_eq] at hplace
  have hx' := isName_indexName (RecorderSettings.namesFiles hc.checked) k
  have hindex : s.index = (Recorder.home c dir).join ⟨String.ofList (indexName c k).toList⟩ := by
    rw [Follows.index_eq hlisted hx hmem (hlists.segment hs ht).1, hdir, path_eq]
  refine ⟨i, ?_, hi.node, hi.content, hi.ordered, fun x hw => ?_, fun x hr => ?_⟩
  · rw [hindex]
    exact Disk.leadsTo_of_shortens h.home hx' hplace
  · rw [← hplain] at hw
    cases hw
  · rw [← hplain] at hr
    cases hr

end

end Recorder

end Timeshift
