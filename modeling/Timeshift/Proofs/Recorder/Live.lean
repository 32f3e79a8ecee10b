import Timeshift.Proofs.Recorder.Rotation

/-!
# A recorder at work

What one call of a recorder does to the takes of its directory. A new segment begins a take, an
accepted sample goes to the last take, and a call that fails before it got so far leaves everything
that anybody could see as it was.
-/

namespace Timeshift.Recorder

structure Live (c : RecorderSettings) (dir : Path) (directory : Name) (d : Disk)
    (takes : List Take) (x : Recorder) : Prop where
  kept : Kept c dir directory d
  settings : x.settings = c
  manifestPath : x.manifestPath = dir.join ⟨c.manifestName⟩
  unfinished : x.recording.finished = false
  follows : Follows c dir directory d takes x.recording

section
variable {c : RecorderSettings} {dir : Path} {directory : Name} {d : Disk} {takes : List Take}
  {x x' : Recorder} {r : Recording} {w w' : World} {start : UInt64} {e : Entry} {err : Error}

/-! ## Opening a directory -/

theorem open_eq_ok {w₁ : World} (h : Recorder.open dir c w = (.ok x, w₁)) :
    ∃ d r, w.disk.makeDirectories dir = (.ok (), d) ∧ w₁ = { w with disk := d } ∧
      x = ⟨dir, dir.join ⟨c.manifestName⟩, c, r⟩ ∧
      (d.exists? (dir.join ⟨c.manifestName⟩) = false ∧ r = .empty c.indexExtension (some dir) ∨
        Recording.load (dir.join ⟨c.manifestName⟩) d = .ok r ∧ r.finished = false) := by
  unfold Recorder.open at h
  cases hd : w.disk.makeDirectories dir with
  | mk made d =>
    rw [hd] at h
    cases made with
    | error err => cases h
    | ok u =>
      simp only at h
      split at h
      · cases hl : Recording.load (dir.join ⟨c.manifestName⟩) d with
        | error err => rw [hl] at h; cases h
        | ok r =>
          rw [hl] at h
          simp only at h
          split at h
          · cases h
          · rename_i hf
            cases h
            exact ⟨d, r, rfl, rfl, rfl, .inr ⟨hl, Bool.eq_false_iff.mpr hf⟩⟩
      · rename_i hn
        cases h
        exact ⟨d, _, rfl, rfl, rfl, .inl ⟨Bool.eq_false_iff.mpr hn, rfl⟩⟩

theorem live_empty (hc : c.WellNamed) (hk : Kept c dir directory d) : Live c dir directory d []
    ⟨dir, dir.join ⟨c.manifestName⟩, c, .empty c.indexExtension (some dir)⟩ :=
  ⟨hk, rfl, rfl, rfl, Recording.listed_empty
    (RecorderSettings.namesFiles hc.checked).indexNonempty _, rfl, shortens_home hc dir, .nil,
    fun _ _ _ _ ht => nomatch ht⟩

theorem kept_makeDirectories (hw : w.disk.Sound) (h : w.disk.makeDirectories dir = (.ok (), d))
    (hf : ∀ directory, d.Resolves dir directory → d.FaithfulAt (WritesAt c directory)) :
    ∃ directory, Kept c dir directory d := by
  obtain ⟨hgrows, hthere⟩ := Disk.makeDirectories_ok h
  obtain ⟨directory, hresolves⟩ := hthere.resolves
  exact ⟨directory, hgrows.sound hw, hthere, hresolves, hf directory hresolves⟩

/-! ## Beginning a segment -/

theorem text_of_ofString {name : String} {path : SegmentPath}
    (h : SegmentPath.ofString name = .ok path) : path.text = name := by
  unfold SegmentPath.ofString at h
  split at h
  · cases h
  · split at h
    · cases h; rfl
    · cases h

theorem beginSegment_eq_ok {p : Path} : x.beginSegment start w = (.ok p, x', w') ↔
    ∃ path r w₁, path.text = segmentName x.settings x.recording.segments.length ∧
      x.recording.append path start w = (.ok r, w₁) ∧
      r.store x.manifestPath w₁ = (.ok (), w') ∧ p = r.fileOf path ∧
      x' = { x with recording := r } := by
  unfold beginSegment
  constructor
  · intro h
    cases hp : SegmentPath.ofString (segmentName x.settings x.recording.segments.length) with
    | error err => rw [hp] at h; cases h
    | ok path =>
      rw [hp] at h
      cases ha : x.recording.append path start w with
      | mk result w₁ =>
        cases result with
        | error err => simp only [ha] at h; cases h
        | ok r =>
          simp only [ha] at h
          cases hs : r.store x.manifestPath w₁ with
          | mk stored w₂ =>
            rw [hs] at h
            cases stored with
            | error err => cases h
            | ok u =>
              cases h
              exact ⟨path, r, w₁, text_of_ofString hp, ha, hs, rfl, rfl⟩
  · rintro ⟨path, r, w₁, hp, ha, hs, rfl, rfl⟩
    rw [← hp, SegmentPath.ofString_text]
    simp only [ha, hs]
    rfl

/-- The new segment is the last of the list, with the file that is answered. -/
theorem beginSegment_entry {p : Path} (h : x.beginSegment start w = (.ok p, x', w')) :
    let n := x.recording.segments.length
    ∃ s, x'.recording.segments[n]? = some s ∧ s.path.text = segmentName x.settings n ∧
      s.file = p ∧ p = x.recording.directory.join ⟨segmentName x.settings n⟩ ∧
      s.index = p.indexPath x.recording.extension := by
  obtain ⟨path, r, w₁, hname, happend, _, hp, rfl⟩ := beginSegment_eq_ok.mp h
  obtain ⟨_, y, w₂, _, hr, _⟩ := Recording.append_eq_ok.mp happend
  have hlength := Recording.length_finishLast x.recording w₂
  have hfile : p = x.recording.fileOf path := by
    have hbase : r.base = x.recording.base := by
      rw [hr]
      exact (Recording.finishLast_keeps x.recording w₂).2.1
    rw [hp, Recording.fileOf_eq, Recording.fileOf_eq, Recording.directory_congr hbase]
  refine ⟨x.recording.opened path start y, ?_, hname, hfile.symm, ?_, ?_⟩
  · simp only [hr]
    rw [List.getElem?_append_right (Nat.le_of_eq hlength), hlength, Nat.sub_self]
    rfl
  · rw [hfile, Recording.fileOf_eq, ← hname]
    rfl
  · rw [hfile]
    rfl

theorem Live.begin_ok {p : Path} (h : Live c dir directory w.disk takes x) (hc : c.WellNamed)
    (hb : x.beginSegment start w = (.ok p, x', w')) :
    ∃ held, Live c dir directory w'.disk (takes ++ [⟨start, held⟩]) x' ∧
      Stored w'.disk (dir.join ⟨c.manifestName⟩) (manifestPlace c directory)
        x'.recording.manifest ∧
      ((∀ j, w.disk.node? (indexPlace c directory takes.length) ≠ some (.file j)) → held = []) ∧
      (∀ k, k ≠ takes.length →
        w'.disk.node? (indexPlace c directory k) = w.disk.node? (indexPlace c directory k)) ∧
      x'.recording.base = x.recording.base := by
  obtain ⟨path, r, w₁, hpath, happend, hstore, _, rfl⟩ := beginSegment_eq_ok.mp hb
  rw [h.settings, h.follows.length_eq] at hpath
  rw [h.manifestPath] at hstore
  obtain ⟨i, held, hnode, hheld, hkept, hfinished, hbase, hfollows⟩ :=
    h.follows.append h.kept hc happend hpath
  obtain ⟨hstored, hkept', hext, hsame, hcontent⟩ := hfollows.store hkept hc hstore
  refine ⟨held, ⟨hkept', h.settings, h.manifestPath, hfinished, hfollows.frame hext
    fun k j _ hj => ⟨by rw [hsame]; exact hj, hcontent k j hj⟩⟩, hstored, hheld,
    fun k hk => ?_, hbase⟩
  rw [hsame, hnode, if_neg (fun e => hk (indexPlace_injective e))]

theorem beginSegment_eq_error (h : x.beginSegment start w = (.error err, x', w')) :
    SegmentPath.ofString (segmentName x.settings x.recording.segments.length) = .error err ∧
        x' = x ∧ w' = w ∨
      ∃ path, path.text = segmentName x.settings x.recording.segments.length ∧
        (x.recording.append path start w = (.error err, w') ∧ x' = x ∨
          ∃ r w₁, x.recording.append path start w = (.ok r, w₁) ∧
            r.store x.manifestPath w₁ = (.error err, w') ∧ x' = { x with recording := r }) := by
  unfold beginSegment at h
  cases hp : SegmentPath.ofString (segmentName x.settings x.recording.segments.length) with
  | error e =>
    rw [hp] at h
    cases h
    exact .inl ⟨rfl, rfl, rfl⟩
  | ok path =>
    refine .inr ⟨path, text_of_ofString hp, ?_⟩
    rw [hp] at h
    cases ha : x.recording.append path start w with
    | mk result w₁ =>
      cases result with
      | error e =>
        simp only [ha] at h
        cases h
        exact .inl ⟨rfl, rfl⟩
      | ok r =>
        simp only [ha] at h
        cases hs : r.store x.manifestPath w₁ with
        | mk stored w₂ =>
          rw [hs] at h
          cases stored with
          | ok _ => cases h
          | error e =>
            cases h
            exact .inr ⟨r, w₁, rfl, hs, rfl⟩

/-- A call that fails before it appends a segment cuts off no more than the torn end of the file that
would have been the next index. -/
theorem Live.begin_error (h : Live c dir directory w.disk takes x) (hc : c.WellNamed)
    (hb : x.beginSegment start w = (.error err, x', w'))
    (hlen : x'.recording.segments.length = x.recording.segments.length) : x' = x ∧
      ∃ i, w.disk.ChangesOnly i w'.disk ∧ ∀ n j, n ≠ indexPlace c directory takes.length →
        w.disk.node? n = some (.file j) → w'.disk.content j = w.disk.content j := by
  have hsame : ∃ i, w.disk.ChangesOnly i w.disk ∧ ∀ n j,
      n ≠ indexPlace c directory takes.length → w.disk.node? n = some (.file j) →
        w.disk.content j = w.disk.content j := ⟨0, .refl 0 _, fun _ _ _ _ => rfl⟩
  rcases beginSegment_eq_error hb with ⟨_, rfl, rfl⟩ | ⟨path, hpath, hcase⟩
  · exact ⟨rfl, hsame⟩
  rw [h.settings, h.follows.length_eq] at hpath
  rcases hcase with ⟨happend, rfl⟩ | ⟨r, w₁, happend, _, rfl⟩
  · refine ⟨rfl, ?_⟩
    rcases Recording.append_eq_error happend with rfl | hopen
    · exact hsame
    rcases Index.openRecord_error hopen with hd | ⟨i, hl, hchange, _⟩
    · rw [hd]
      exact hsame
    refine ⟨i, hchange, fun n j hn hj => hchange.content j fun e => hn ?_⟩
    obtain ⟨m, hleads, hm⟩ := Disk.lookUp_eq_file.mp hl
    rw [h.follows.indexPath_eq hpath] at hleads
    have hx := isName_indexName (RecorderSettings.namesFiles hc.checked) takes.length
    exact (h.kept.sound.one_name (e ▸ hj) hm).trans
      (leadsTo_name h.kept.resolves (h.follows.same hc) hx hleads)
  · -- the segment is appended, whatever becomes of the manifest
    obtain ⟨i, held, _, _, _, _, _, hfollows⟩ := h.follows.append h.kept hc happend hpath
    rw [hfollows.length_eq, h.follows.length_eq, List.length_append] at hlen
    simp at hlen

theorem begin_early (hs : x.recording.segments.getLast?.any (start < ·.start) = true) :
    ∃ err, x.beginSegment start w = (.error err, x, w) := by
  unfold beginSegment
  cases SegmentPath.ofString (segmentName x.settings x.recording.segments.length) with
  | error err => exact ⟨err, rfl⟩
  | ok path =>
    cases hr : x.recording.refusal? path start with
    | none =>
      obtain ⟨_, hle, _⟩ := Recording.refusal?_eq_none.mp hr
      cases hl : x.recording.segments.getLast? with
      | none => rw [hl] at hs; cases hs
      | some s =>
        rw [hl, Option.any_some, decide_eq_true_eq] at hs
        exact absurd hs (UInt64.not_lt.mpr (hle s hl))
    | some err =>
      refine ⟨err, ?_⟩
      simp only [Recording.append, hr]

/-! ## Taking a sample -/

theorem Live.sample_ok {full : Bool} (h : Live c dir directory w.disk takes x)
    (hs : x.sample e w = (.ok full, x', w')) : ∃ before t i, takes = before ++ [t] ∧
      w.disk.node? (indexPlace c directory before.length) = some (.file i) ∧
      w.disk.ChangesOnly i w'.disk ∧
      w'.disk.content i = Entry.encodeAll (t.add e).entries ∧
      Index.IsOrdered (t.add e).entries ∧
      Live c dir directory w'.disk (before ++ [t.add e]) x' ∧
      x'.recording.base = x.recording.base := by
  unfold sample at hs
  cases hr : x.recording.record e w with
  | mk result w₁ =>
    rw [hr] at hs
    cases result with
    | error err => cases hs
    | ok r =>
      cases hs
      obtain ⟨before, t, i, htakes, hn, hchange, hcontent, ho, hfollows⟩ :=
        h.follows.record_ok h.kept.sound h.kept.faithful hr
      have hfields : r.finished = x.recording.finished ∧ r.base = x.recording.base := by
        obtain ⟨init, s, y, y', _, _, _, rfl⟩ := Recording.record_eq_ok hr
        exact ⟨rfl, rfl⟩
      exact ⟨before, t, i, htakes, hn, hchange, hcontent, ho, ⟨h.kept.changesOnly hchange,
        h.settings, h.manifestPath, hfields.1.trans h.unfinished, hfollows⟩, hfields.2⟩

theorem Live.sample_error (h : Live c dir directory w.disk takes x)
    (hs : x.sample e w = (.error err, x', w')) : x' = x ∧
      ∃ i, w.disk.ChangesOnly i w'.disk ∧ w'.disk.content i = w.disk.content i := by
  unfold sample at hs
  cases hr : x.recording.record e w with
  | mk result w₁ =>
    rw [hr] at hs
    cases result with
    | ok r => cases hs
    | error err =>
      cases hs
      exact ⟨rfl, h.follows.record_error h.kept.faithful hr⟩

theorem Live.frame {i : FileId} {d' : Disk} (h : Live c dir directory d takes x)
    (hc : d.ChangesOnly i d')
    (hk : ∀ k j, k < takes.length → d.node? (indexPlace c directory k) = some (.file j) →
      d'.content j = d.content j) : Live c dir directory d' takes x :=
  ⟨h.kept.changesOnly hc, h.settings, h.manifestPath, h.unfinished,
    h.follows.frame_changesOnly hc hk⟩

/-! ## Ending the recording -/

theorem Live.finish_ok (h : Live c dir directory w.disk takes x) (hc : c.WellNamed)
    (hf : x.finish w = (.ok (), r, w')) :
    Stored w'.disk (dir.join ⟨c.manifestName⟩) (manifestPlace c directory) r.manifest ∧
      r.manifest.items.map row = sealed c takes ∧ r.finished = true ∧
      r.base = x.recording.base ∧ Follows c dir directory w'.disk takes r := by
  unfold finish Recording.finish at hf
  rw [h.unfinished] at hf
  simp only [Bool.false_eq_true, if_false] at hf
  obtain ⟨hdisk, hfollows, hsealed⟩ := h.follows.finishLast
  obtain ⟨_, hbase, _⟩ := Recording.finishLast_keeps x.recording w
  let r₁ : Recording := { (x.recording.finishLast w).1 with finished := true }
  have hfollows₁ : Follows c dir directory w.disk takes r₁ :=
    ⟨⟨hfollows.listed.extension, hfollows.listed.inOrder, hfollows.listed.file,
      hfollows.listed.index⟩, hfollows.extension, hfollows.home, hfollows.lists,
      hfollows.indexed⟩
  cases hs : r₁.store x.manifestPath (x.recording.finishLast w).2 with
  | mk stored w₂ =>
    simp only [r₁] at hs
    rw [hs] at hf
    cases hf
    rw [h.manifestPath] at hs
    rw [← hdisk] at hfollows₁
    obtain ⟨hstored, _, hext, hsame, hcontent⟩ :=
      hfollows₁.store (hdisk ▸ h.kept) hc hs
    exact ⟨hstored, hsealed, rfl, hbase, hfollows₁.frame hext fun k j _ hj =>
      ⟨by rw [hsame]; exact hj, hcontent k j hj⟩⟩

end

end Timeshift.Recorder
