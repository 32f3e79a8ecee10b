import Timeshift.Proofs.Manifest.Documented
import Timeshift.Proofs.Recorder.Failing
import Timeshift.Proofs.Recorder.Numbering
import Timeshift.Proofs.Recorder.Resuming
import Timeshift.Proofs.Recording.Making

/-!
# What one session leaves to the next

Recorders that follow one another in a directory may each have other settings, as long as they name
the same manifest. The list goes from one to the next by way of the manifest alone, so what each call
keeps is said of the list, of what can be read at the manifest's place, and of the file that the
recorder writes to, which must not be one of the manifest's.
-/

namespace Timeshift

/-! ## What calls do beside some places -/

theorem Index.letsBe_openRecord {path : Path} {places : Name → Prop} {w w' : World}
    {result : Except Error Index} (hs : w.disk.Sound)
    (hp : ∀ n, w.disk.LeadsTo path n → ¬ places n)
    (h : Index.openRecord path w = (result, w')) : Disk.LetsBe places w.disk w'.disk ∧
      ∀ x, result = .ok x → ∀ i, x.file = some i → w'.disk.Off places i := by
  cases result with
  | ok x =>
    obtain ⟨i, d, hcreate, rfl, _, hchange, _⟩ := Index.openRecord_ok h
    obtain ⟨hopen, hoff⟩ := Disk.letsBe_openCreate hs hcreate hp
    have hwrite := hchange.letsBe hoff.apart
    refine ⟨hopen.trans hwrite, fun x hx j hj => ?_⟩
    cases hx
    cases hj
    exact hoff.letsBe hwrite
  | error err =>
    refine ⟨?_, nofun⟩
    rcases Index.openRecord_error h with hd | ⟨i, hi, hchange, _⟩
    · rw [hd]
      exact .refl places _
    · obtain ⟨n, hleads, hn⟩ := Disk.lookUp_eq_file.mp hi
      exact hchange.letsBe fun m hm hmi => hp n hleads (hs.one_name hmi hn ▸ hm)

namespace Recording

def names (r : Recording) : List String := r.segments.map (·.path.text)

section
variable {r r' : Recording} {path : SegmentPath} {start : UInt64} {e : Entry} {w w' : World}
  {places : Name → Prop}

theorem letsBe_append {result : Except Error Recording} (hs : w.disk.Sound)
    (hp : ∀ n, w.disk.LeadsTo (r.indexOf path) n → ¬ places n)
    (h : r.append path start w = (result, w')) : Disk.LetsBe places w.disk w'.disk := by
  have hdisk := r.disk_append path start w
  rw [h] at hdisk
  rcases hdisk with hd | ⟨_, hd⟩
  · rw [hd]
    exact .refl places _
  · rw [hd]
    exact (Index.letsBe_openRecord hs hp rfl).1

theorem names_record (h : r.record e w = (.ok r', w')) : r'.names = r.names :=
  map_record (fun h => congrArg SegmentPath.text h.path) h

theorem names_finish (r : Recording) (w : World) : (r.finish w).1.names = r.names :=
  map_finish (fun h => congrArg SegmentPath.text h.path) r w

theorem names_append (h : r.append path start w = (.ok r', w')) :
    r'.names = r.names ++ [path.text] := by
  obtain ⟨_, hx⟩ := map_append (fun h => congrArg SegmentPath.text h.path) h
  exact hx

theorem names_lookUp (r : Recording) (time : UInt64) (d : Disk) :
    (r.lookUp time d).2.names = r.names := by
  rcases r.lookUp_recording time d with h | ⟨k, s, hs, h⟩
  · rw [h]
  · rw [h]
    exact map_set hs (congrArg SegmentPath.text (s.query_sameButReader _ d).samePlace.path)

theorem extension_finish (r : Recording) (w : World) :
    (r.finish w).1.extension = r.extension := by
  rcases r.finish_cases w with h | ⟨_, h⟩
  · rw [h]
  · rw [h]
    exact (finishLast_keeps r w).1

end

end Recording

namespace Recorder

/-! ## The places of a manifest -/

def documentPlace (name : String) (directory : Name) : Name := directory ++ [name.toList]

def draftPlace (name : String) (directory : Name) : Name :=
  directory ++ [((⟨name⟩ : Path).withExtension "tmp").text.toList]

def DocumentAt (name : String) (directory : Name) : Name → Prop :=
  Manifest.StoresAt (documentPlace name directory) (draftPlace name directory)

/-- Settings that pass their check and name the same manifest. Its name, and the temporary name that
it is written under, are no name of an index, whichever of the settings the segment and the index
have their names from. -/
structure Shared (settings : RecorderSettings → Prop) (name : String) : Prop where
  checked : ∀ c, settings c → c.fault? = none
  manifestName : ∀ c, settings c → c.manifestName = name
  notIndex : ∀ c c' n, settings c → settings c' →
    name ≠ segmentName c n ++ "." ++ c'.indexExtension
  temporaryNotIndex : ∀ c c' n, settings c → settings c' →
    ((⟨name⟩ : Path).withExtension "tmp").text ≠ segmentName c n ++ "." ++ c'.indexExtension

structure IsPlain (name : String) : Prop where
  isName : Path.IsName name.toList
  notDots : name ≠ ".."

section
variable {settings : RecorderSettings → Prop} {name : String} {directory n : Name} {d : Disk}
  {dir : Path} {c c' : RecorderSettings} {r : Recording} {path : SegmentPath} {k : Nat}

theorem Shared.name_cases (h : Shared settings name) (hc : settings c) :
    IsPlain name ∨ name = "." ∨ name = ".." := by
  by_cases hdot : name = "."
  · exact .inr (.inl hdot)
  by_cases hdots : name = ".."
  · exact .inr (.inr hdots)
  have hn := RecorderSettings.namesFiles (h.checked c hc)
  have hname := h.manifestName c hc
  refine .inl ⟨?_, hdots⟩
  rw [← hname]
  exact hn.isName_manifest (by rw [hname]; exact hdot)

theorem not_leadsTo_dot (p : Path) : ¬ d.LeadsTo (p.join ⟨"."⟩) n := by
  intro h
  obtain ⟨_, _, _, last, hlast, hdot, _⟩ := Disk.leadsTo_iff.mp h
  have hchars : (p.join ⟨"."⟩).chars = p.stem ++ ['.'] := Path.chars_join rfl p
  have hpieces : (p.join ⟨"."⟩).pieces =
      (slashSplit p.stem).dropLast.filter (· ≠ []) ++ [['.']] := by
    unfold Path.pieces
    rw [hchars, (Path.leads_stem p).split (by decide), List.filter_append,
      List.filter_cons_of_pos (by decide)]
    rfl
  rw [hpieces, List.getLast?_concat] at hlast
  exact hdot (Option.some.inj hlast).symm

theorem not_leadsTo_dots (p : Path) : ¬ d.LeadsTo (p.join ⟨".."⟩) n := by
  intro h
  exact ((Disk.leadsTo_join_name (x := "..".toList) ⟨by decide, rfl⟩).mp h).2.1 rfl

theorem leadsTo_document (h : Shared settings name) (hc : settings c)
    (hd : d.Resolves dir directory) (hn : d.LeadsTo (dir.join ⟨name⟩) n) :
    n = documentPlace name directory := by
  rcases h.name_cases hc with hplain | rfl | rfl
  · rw [path_eq] at hn
    exact leadsTo_name hd (.refl dir) hplain.isName hn
  · exact absurd hn (not_leadsTo_dot dir)
  · exact absurd hn (not_leadsTo_dots dir)

theorem leadsTo_draft (hplain : IsPlain name) (hd : d.Resolves dir directory)
    (hn : d.LeadsTo ((dir.join ⟨name⟩).withExtension "tmp") n) : n = draftPlace name directory := by
  obtain ⟨y, hy, htext, htmp⟩ := temporary_join hplain.isName hplain.notDots
  rw [htmp] at hn
  rw [leadsTo_name hd (.refl dir) hy hn, draftPlace, htext, String.toList_ofList]

theorem not_documentAt_of_dot (hdot : name = "." ∨ name = "..") {p : Path} (hn : d.LeadsTo p n) :
    ¬ DocumentAt name directory n := by
  -- these names stand last in no place, and have no extension to exchange
  obtain ⟨_, _, before, last, _, hdot₁, hdot₂, _, _, rfl⟩ := Disk.leadsTo_iff.mp hn
  have hne : before ++ [last] ≠ directory ++ [name.toList] := by
    intro he
    have hlast := (List.append_singleton_inj.mp he).2
    rcases hdot with rfl | rfl
    · exact hdot₁ hlast
    · exact hdot₂ hlast
  have htmp : ((⟨name⟩ : Path).withExtension "tmp").text = name := by
    rcases hdot with rfl | rfl
    · decide +kernel
    · decide +kernel
  rintro (he | he)
  · exact hne he
  · unfold draftPlace at he
    rw [htmp] at he
    exact hne he

theorem not_documentAt_of_elsewhere (hd : ¬ d.Resolves dir directory) {x : List Char}
    (hx : Path.IsName x) (hn : d.LeadsTo (dir.join ⟨String.ofList x⟩) n) :
    ¬ DocumentAt name directory n := by
  obtain ⟨_, _, _, directory', hd', rfl⟩ := (Disk.leadsTo_join_name hx).mp hn
  have hne : ∀ y, directory' ++ [x] ≠ directory ++ [y] := fun y he => by
    rw [(List.append_singleton_inj.mp he).1] at hd'
    exact hd hd'
  rintro (he | he)
  · exact hne _ he
  · exact hne _ he

/-- A manifest of this name is stored by its two places, or not near them. -/
theorem stores_here_or_elsewhere (h : Shared settings name)
    (hc : settings c) (d : Disk) (dir : Path) (directory : Name) :
    ((∀ n, d.LeadsTo (dir.join ⟨name⟩) n → n = documentPlace name directory) ∧
      ∀ n, d.LeadsTo ((dir.join ⟨name⟩).withExtension "tmp") n → n = draftPlace name directory) ∨
    (∀ n, d.LeadsTo (dir.join ⟨name⟩) n → ¬ DocumentAt name directory n) ∧
      ∀ n, d.LeadsTo ((dir.join ⟨name⟩).withExtension "tmp") n → ¬ DocumentAt name directory n := by
  rcases h.name_cases hc with hplain | hdot
  · by_cases hd : d.Resolves dir directory
    · exact .inl ⟨fun n hn => leadsTo_document h hc hd hn, fun n hn => leadsTo_draft hplain hd hn⟩
    · obtain ⟨y, hy, _, htmp⟩ := temporary_join hplain.isName hplain.notDots
      right
      rw [htmp, path_eq name]
      exact ⟨fun n => not_documentAt_of_elsewhere hd hplain.isName,
        fun n => not_documentAt_of_elsewhere hd hy⟩
  · exact .inr ⟨fun n => not_documentAt_of_dot hdot, fun n => not_documentAt_of_dot hdot⟩

/-- The index of a segment is opened at neither of them. -/
theorem index_elsewhere (h : Shared settings name) (hc : settings c) (hc' : settings c')
    (hx : r.extension = c'.indexExtension) (hp : path.text = segmentName c k)
    (hn : d.LeadsTo (r.indexOf path) n) : ¬ DocumentAt name directory n := by
  let mixed : RecorderSettings := { c with indexExtension := c'.indexExtension }
  have hfiles := RecorderSettings.namesFiles (h.checked c hc)
  have hmixed : mixed.NamesFiles := { hfiles with
    index := (RecorderSettings.namesFiles (h.checked c' hc')).index
    indexNonempty := (RecorderSettings.namesFiles (h.checked c' hc')).indexNonempty }
  have hne : path.path.text ≠ "" := path.nonempty
  have hindex : r.indexOf path = r.directory.join ⟨String.ofList (indexName mixed k).toList⟩ := by
    unfold Recording.indexOf
    rw [Recording.fileOf_eq, Path.indexPath_join hne, ← path_eq, hx]
    unfold Path.indexPath SegmentPath.path
    rw [hp]
    rfl
  rw [hindex] at hn
  obtain ⟨_, _, _, _, _, rfl⟩ := (Disk.leadsTo_join_name (isName_indexName hmixed k)).mp hn
  rintro (he | he)
  · exact h.notIndex c c' k hc hc' (String.toList_inj.mp (List.append_singleton_inj.mp he).2).symm
  · unfold draftPlace at he
    have hname := String.toList_inj.mp (List.append_singleton_inj.mp he).2
    exact h.temporaryNotIndex c c' k hc hc' hname.symm

end

/-! ## The list as it is handed on -/

/-- Each place of the list is the number in the name that stands there, and the indexes have the
extension of one of the settings. -/
structure Consistent (settings : RecorderSettings → Prop) (m : Manifest) : Prop where
  numbered : Numbered (m.items.map (·.path.text))
  extension : ∃ c, settings c ∧ m.extension = c.indexExtension

/-- The recorder stores its list as the manifest of this name, and what it writes to is no file that
the manifest is stored by. -/
structure AtWork (settings : RecorderSettings → Prop) (name : String) (directory : Name) (d : Disk)
    (x : Recorder) : Prop where
  among : settings x.settings
  manifestPath : x.manifestPath = x.directory.join ⟨name⟩
  consistent : Consistent settings x.recording.manifest
  off : ∀ i, x.target? = some i → d.Off (DocumentAt name directory) i

structure Handed (settings : RecorderSettings → Prop) (name : String) (directory : Name)
    (o : Option Recorder) (d : Disk) : Prop where
  documented : Manifest.Documented (Consistent settings) (documentPlace name directory)
    (draftPlace name directory) d
  atWork : ∀ x, o = some x → AtWork settings name directory d x

section
variable {settings : RecorderSettings → Prop} {name : String} {directory : Name} {d d' : Disk}
  {dir : Path} {c : RecorderSettings} {x x' : Recorder} {o : Option Recorder} {r : Recording}
  {w w' : World} {path : SegmentPath} {start : UInt64} {e : Entry} {k : Nat}

theorem names_manifest (r : Recording) : r.manifest.items.map (·.path.text) = r.names := by
  rw [Recording.manifest_items, List.map_map]
  rfl

theorem Consistent.congr {m m' : Manifest} (h : Consistent settings m)
    (hn : m'.items.map (·.path.text) = m.items.map (·.path.text))
    (hx : m'.extension = m.extension) : Consistent settings m' :=
  ⟨hn ▸ h.numbered, hx ▸ h.extension⟩

theorem AtWork.letsBe (h : AtWork settings name directory d x)
    (hd : d.LetsBe (DocumentAt name directory) d') : AtWork settings name directory d' x :=
  ⟨h.among, h.manifestPath, h.consistent, fun i hi => (h.off i hi).letsBe hd⟩

theorem target?_eq (x : Recorder) : x.target? =
    ((x.recording.segments.map (·.writer)).getLast?.bind id).bind (·.file) := by
  unfold target?
  rw [List.getLast?_map, Option.bind_map]
  rfl

theorem target?_of_idle (h : ∀ s ∈ x.recording.segments.getLast?, s.writer = none) :
    x.target? = none := by
  unfold target?
  cases hlast : x.recording.segments.getLast? with
  | none => rfl
  | some s =>
    rw [Option.bind_some, h s hlast]
    rfl

theorem AtWork.index_elsewhere (h : AtWork settings name directory d x)
    (hs : Shared settings name) (hp : path.text = segmentName x.settings k) :
    ∀ n, d.LeadsTo (x.recording.indexOf path) n → ¬ DocumentAt name directory n := by
  obtain ⟨c, hc, hx⟩ := h.consistent.extension
  intro n hn
  exact Recorder.index_elsewhere hs h.among hc hx hp hn

theorem Handed.letsBe (h : Handed settings name directory o d)
    (hd : d.LetsBe (DocumentAt name directory) d') : Handed settings name directory o d' :=
  ⟨h.documented.letsBe hd, fun x hx => (h.atWork x hx).letsBe hd⟩

theorem Handed.dropped (h : Handed settings name directory o d) :
    Handed settings name directory none d := ⟨h.documented, nofun⟩

/-- The list may change in what the manifest's names do not show. -/
theorem Handed.keeps (h : Handed settings name directory (some x) d)
    (hn : r.names = x.recording.names) (hx : r.extension = x.recording.extension)
    (ht : ∀ i, target? { x with recording := r } = some i → x.target? = some i) :
    Handed settings name directory (some { x with recording := r }) d := by
  have hw := h.atWork x rfl
  refine ⟨h.documented, ?_⟩
  rintro _ ⟨⟩
  refine ⟨hw.among, hw.manifestPath, hw.consistent.congr ?_ hx, fun i hi => hw.off i (ht i hi)⟩
  rw [names_manifest, names_manifest]
  exact hn

theorem Handed.stored (hs : Shared settings name) {result : Except Error Unit}
    (h : Handed settings name directory (some x) w.disk)
    (hx : x.recording.store x.manifestPath w = (result, w')) :
    Handed settings name directory (some x) w'.disk := by
  have hw := h.atWork x rfl
  have hdisk := x.recording.disk_store x.manifestPath w
  rw [hx, hw.manifestPath] at hdisk
  simp only at hdisk
  rw [hdisk]
  rcases stores_here_or_elsewhere hs hw.among w.disk x.directory directory with
    ⟨hq, hp⟩ | ⟨hq, hp⟩
  · obtain ⟨hdocumented, hoff⟩ := h.documented.store hw.consistent hq hp
    refine ⟨hdocumented, ?_⟩
    rintro _ ⟨⟩
    exact ⟨hw.among, hw.manifestPath, hw.consistent, fun i hi => hoff i (hw.off i hi)⟩
  · exact h.letsBe (Manifest.letsBe_store h.documented.sound _ hq hp)

/-! ## Opening -/

theorem disk_open (dir : Path) (c : RecorderSettings) (w : World) :
    (Recorder.open dir c w).2.disk = (w.disk.makeDirectories dir).2 := by
  unfold Recorder.open
  cases w.disk.makeDirectories dir with
  | mk made d =>
    cases made with
    | error err => rfl
    | ok _ =>
      simp only
      split
      · split
        · rfl
        · split <;> rfl
      · rfl

theorem Handed.opened (hs : Shared settings name) (hc : settings c)
    (h : Handed settings name directory none w.disk) (ho : Recorder.open dir c w = (.ok x, w'))
    (hd : w'.disk.Resolves dir directory) : Handed settings name directory (some x) w'.disk := by
  obtain ⟨d, r, hmake, rfl, rfl, hr⟩ := open_eq_ok ho
  have hname := hs.manifestName c hc
  have hready := h.letsBe ((Disk.makeDirectories_ok hmake).1.letsBe _)
  refine ⟨hready.documented, ?_⟩
  rintro _ ⟨⟩
  rcases hr with ⟨_, rfl⟩ | ⟨hload, _⟩
  · exact ⟨hc, by rw [hname], ⟨numbered_nil, c, hc, rfl⟩, nofun⟩
  · obtain ⟨m, hm, rfl⟩ := Recording.load_eq_ok.mp hload
    obtain ⟨i, text, hi, hcontent, htext⟩ := Manifest.load_file hm
    obtain ⟨n, hleads, hn⟩ := Disk.lookUp_eq_file.mp hi
    rw [hname] at hleads
    rw [leadsTo_document hs hc hd hleads] at hn
    have hconsistent := hready.documented.document hn hcontent htext
    refine ⟨hc, by rw [hname], hconsistent.congr ?_ rfl, fun j hj => ?_⟩
    · rw [Recording.ofManifest_items]
    · have hidle := Recording.idle_ofManifest (Recording.baseOf (dir.join ⟨c.manifestName⟩)) m
      rw [target?_of_idle fun s hs => hidle s (List.mem_of_getLast? hs)] at hj
      cases hj

/-! ## Beginning a segment -/

theorem Handed.appended (hs : Shared settings name)
    (h : Handed settings name directory (some x) w.disk)
    (hp : path.text = segmentName x.settings x.recording.segments.length)
    (ha : x.recording.append path start w = (.ok r, w')) :
    Handed settings name directory (some { x with recording := r }) w'.disk := by
  have hw := h.atWork x rfl
  have helsewhere := hw.index_elsewhere hs hp
  have hletsBe := Recording.letsBe_append h.documented.sound helsewhere ha
  have hnames := Recording.names_append ha
  obtain ⟨_, y, w₁, hopen, rfl, rfl⟩ := Recording.append_eq_ok.mp ha
  refine ⟨(h.letsBe hletsBe).documented, ?_⟩
  rintro _ ⟨⟩
  obtain ⟨c, hc, hx⟩ := hw.consistent.extension
  refine ⟨hw.among, hw.manifestPath, ⟨?_, c, hc, ?_⟩, fun i hi => ?_⟩
  · rw [names_manifest, hnames]
    have hnumbered := hw.consistent.numbered
    rw [names_manifest] at hnumbered
    refine hnumbered.concat ?_
    rw [hp, Recording.names, List.length_map]
    exact numberIn?_segmentName (hs.checked _ hw.among) _
  · exact (Recording.finishLast_keeps x.recording w₁).1.trans hx
  · rw [Recording.disk_finishLast]
    refine (Index.letsBe_openRecord h.documented.sound helsewhere hopen).2 y rfl i ?_
    unfold target? at hi
    simp only [List.getLast?_concat] at hi
    exact hi

theorem Handed.began (hs : Shared settings name) {answer : Except Error Path}
    (h : Handed settings name directory (some x) w.disk)
    (hb : x.beginSegment start w = (answer, x', w')) :
    Handed settings name directory (some x') w'.disk := by
  cases answer with
  | ok p =>
    obtain ⟨path, r, w₁, hp, ha, hstore, _, rfl⟩ := beginSegment_eq_ok.mp hb
    exact (h.appended hs hp ha).stored hs hstore
  | error err =>
    rcases beginSegment_eq_error hb with
      ⟨_, rfl, rfl⟩ | ⟨path, hp, ⟨ha, rfl⟩ | ⟨r, w₁, ha, hstore, rfl⟩⟩
    · exact h
    · exact h.letsBe (Recording.letsBe_append h.documented.sound
        ((h.atWork x' rfl).index_elsewhere hs hp) ha)
    · exact (h.appended hs hp ha).stored hs hstore

/-! ## What else a recorder does -/

theorem Handed.sampled {answer : Except Error Bool}
    (h : Handed settings name directory (some x) w.disk)
    (hx : x.sample e w = (answer, x', w')) :
    Handed settings name directory (some x') w'.disk := by
  have htouch := x.sample_touches e w
  rw [hx] at htouch
  have h' : Handed settings name directory (some x) w'.disk := by
    rcases htouch with hd | ⟨i, hi, hchange⟩
    · exact hd ▸ h
    · exact h.letsBe (hchange.letsBe ((h.atWork x rfl).off i hi).apart)
  unfold Recorder.sample at hx
  split at hx
  · cases hx
    exact h'
  · rename_i r _ hr
    cases hx
    refine h'.keeps (Recording.names_record hr) ?_ ?_
    · obtain ⟨_, _, _, _, _, _, _, rfl⟩ := Recording.record_eq_ok hr
      rfl
    · obtain ⟨init, s, y, y', hs, hy, hwrite, rfl⟩ := Recording.record_eq_ok hr
      rw [Index.write_eq_ok hwrite]
      unfold target?
      simp only [hs, List.getLast?_concat, Option.bind_some, hy]
      exact fun _ => id

theorem Handed.asked (h : Handed settings name directory (some x) w.disk) (time : UInt64) :
    Handed settings name directory
      (some { x with recording := (x.recording.lookUp time w.disk).2 }) w.disk := by
  refine h.keeps (x.recording.names_lookUp time w.disk) ?_ ?_
  · rcases x.recording.lookUp_recording time w.disk with hl | ⟨_, _, _, hl⟩
    · rw [hl]
    · rw [hl]
  · rcases x.recording.lookUp_recording time w.disk with hl | ⟨k, s, hs, hl⟩
    · rw [hl]
      exact fun _ => id
    · rw [hl, target?_eq, target?_eq]
      simp only
      rw [Recording.map_set hs (by rw [s.query_sameButReader _ w.disk])]
      exact fun _ => id

theorem Handed.finished (hs : Shared settings name) {answer : Except Error Unit}
    (h : Handed settings name directory (some x) w.disk)
    (hx : x.finish w = (answer, r, w')) : Handed settings name directory none w'.disk := by
  have hfinish : Handed settings name directory
      (some { x with recording := (x.recording.finish w).1 }) (x.recording.finish w).2.disk := by
    rw [Recording.disk_finish]
    refine h.keeps (x.recording.names_finish w) (x.recording.extension_finish w) fun i hi => ?_
    rcases x.recording.finish_cases w with hf | ⟨_, hf⟩
    · rwa [hf] at hi
    · rw [hf, target?_of_idle (x.recording.idle_finishLast w)] at hi
      cases hi
  cases hstore : (x.recording.finish w).1.store x.manifestPath (x.recording.finish w).2 with
  | mk result v =>
    unfold Recorder.finish at hx
    simp only [hstore, Prod.mk.injEq] at hx
    obtain ⟨_, _, rfl⟩ := hx
    exact (hfinish.stored hs hstore).dropped

end

end Recorder

end Timeshift
