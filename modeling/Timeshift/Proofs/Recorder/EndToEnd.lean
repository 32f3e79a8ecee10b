import Timeshift.Proofs.Recorder.Live

/-!
# A recording from end to end

From an empty directory, over any run of calls in which nothing fails but samples that are turned
away and segments that would start too early, the finished manifest lists what was asked for, and
each index holds the samples that were accepted while its segment was the last.
-/

namespace Timeshift.Recorder

/-- The calls made so far brought the recorder `x` and the world `w` to `y` and `v`, and what they
asked for is `takes`. -/
inductive Ran (x : Recorder) (w : World) : List Take → Recorder → World → Prop
  | start : Ran x w [] x w
  | began {takes : List Take} {y y' : Recorder} {v v' : World} {start : UInt64} {p : Path} :
      Ran x w takes y v → y.beginSegment start v = (.ok p, y', v') →
      Ran x w (takes ++ [⟨start, []⟩]) y' v'
  /-- Before the start of the last segment no other one can start. -/
  | beganEarly {takes : List Take} {y y' : Recorder} {v v' : World} {start : UInt64} {e : Error} :
      Ran x w takes y v → y.recording.segments.getLast?.any (start < ·.start) = true →
      y.beginSegment start v = (.error e, y', v') → Ran x w takes y' v'
  | sampled {takes : List Take} {y y' : Recorder} {v v' : World} {e : Entry} {full : Bool} :
      Ran x w takes y v → y.sample e v = (.ok full, y', v') → Ran x w (note e takes) y' v'
  | turnedAway {takes : List Take} {y y' : Recorder} {v v' : World} {e : Entry} {err : Error} :
      Ran x w takes y v → y.sample e v = (.error err, y', v') → err.isRejection = true →
      Ran x w takes y' v'

def HoldsNoFile (d : Disk) (dir : Path) : Prop :=
  ∀ directory, d.Resolves dir directory → ∀ x i, d.node? (directory ++ [x]) ≠ some (.file i)

section
variable {c : RecorderSettings} {dir : Path} {directory : Name} {takes before : List Take} {t : Take}
  {x y : Recorder} {r : Recording} {w w₁ v w' : World} {e : Entry}

theorem HoldsNoFile.faithfulAt {d : Disk} (h : HoldsNoFile d dir) (hr : d.Resolves dir directory) :
    d.FaithfulAt (WritesAt c directory) := by
  rintro n i (⟨k, rfl⟩ | rfl) hi
  · exact absurd hi (h directory hr _ i)
  · exact absurd hi (h directory hr _ i)

structure Alone (c : RecorderSettings) (dir : Path) (directory : Name) (w : World)
    (takes : List Take) (x : Recorder) : Prop where
  live : Live c dir directory w.disk takes x
  base : x.recording.base = some dir
  alone : ∀ k, takes.length ≤ k → ∀ i, w.disk.node? (indexPlace c directory k) ≠ some (.file i)

theorem Alone.ran (h : Alone c dir directory w [] x) (hc : c.WellNamed)
    (hr : Ran x w takes y v) : Alone c dir directory v takes y := by
  induction hr with
  | start => exact h
  | @began takes y y' v v' start p _ hb ih =>
    obtain ⟨held, hlive, _, hheld, hsame, hbase⟩ := ih.live.begin_ok hc hb
    rw [hheld (ih.alone _ (Nat.le_refl _))] at hlive
    refine ⟨hlive, hbase.trans ih.base, fun k hk j => ?_⟩
    rw [List.length_append, List.length_singleton] at hk
    rw [hsame k (by omega)]
    exact ih.alone k (by omega) j
  | @beganEarly takes y y' v v' start err _ hs hb ih =>
    obtain ⟨err', hb'⟩ := begin_early (w := v) hs
    rw [hb'] at hb
    cases hb
    exact ih
  | @sampled takes y y' v v' e full _ hs ih =>
    obtain ⟨before, t, i, rfl, _, hchange, _, _, hlive, hbase⟩ := ih.live.sample_ok hs
    rw [note_concat]
    refine ⟨hlive, hbase.trans ih.base, fun k hk j => ?_⟩
    rw [Disk.node?_congr hchange.nodes]
    exact ih.alone k (by simpa using hk) j
  | @turnedAway takes y y' v v' e err _ hs _ ih =>
    obtain ⟨rfl, i, hchange, hcontent⟩ := ih.live.sample_error hs
    refine ⟨ih.live.frame hchange fun _ j _ _ => hchange.unchanged hcontent j, ih.base,
      fun k hk j => ?_⟩
    rw [Disk.node?_congr hchange.nodes]
    exact ih.alone k hk j

/-! ## Opening -/

theorem open_alone (hc : c.WellNamed) (hw : w.disk.Sound)
    (hempty : HoldsNoFile (w.disk.makeDirectories dir).2 dir)
    (ho : Recorder.open dir c w = (.ok x, w₁)) : ∃ directory, Alone c dir directory w₁ [] x := by
  obtain ⟨d, r, hd, rfl, rfl, hr⟩ := open_eq_ok ho
  rw [hd] at hempty
  obtain ⟨directory, hk⟩ := kept_makeDirectories (c := c) hw hd fun _ => hempty.faithfulAt
  have hnone := hempty directory hk.resolves
  refine ⟨directory, ?_⟩
  rcases hr with ⟨_, rfl⟩ | ⟨hload, _⟩
  · exact ⟨live_empty hc hk, rfl, fun k _ i => hnone _ i⟩
  · obtain ⟨i, hi⟩ := Recording.load_file hload
    obtain ⟨n, hn, hi⟩ := Disk.lookUp_eq_file.mp hi
    rw [path_eq] at hn
    rw [leadsTo_name hk.resolves (.refl dir) (isName_manifest hc) hn] at hi
    exact absurd hi (hnone _ i)

/-- Whatever run of calls leads there, a recording that is finished is listed and indexed in full. -/
theorem finished_in_full (hc : c.WellNamed) (hw : w.disk.Sound)
    (hempty : HoldsNoFile (w.disk.makeDirectories dir).2 dir)
    (ho : Recorder.open dir c w = (.ok x, w₁)) (hr : Ran x w₁ takes y v)
    (hf : y.finish v = (.ok (), r, w')) :
    ∃ m, Manifest.load (dir.join ⟨c.manifestName⟩) w'.disk = .ok m ∧ m.finished = true ∧
      (m.items.map fun s => (s.path.text, s.start, s.stop)) =
        (takes.mapIdx fun k t => (segmentName c k, t.start, t.stop)) ∧
      ∀ (k : Nat) (t : Take), takes[k]? = some t →
        w'.disk.read ((dir.join ⟨segmentName c k⟩).indexPath c.indexExtension) =
          .ok (Entry.encodeAll t.entries) := by
  obtain ⟨directory, hx⟩ := open_alone hc hw hempty ho
  have hy := hx.ran hc hr
  obtain ⟨hstored, hsealed, hfinished, hbase, hfollows⟩ := hy.live.finish_ok hc hf
  refine ⟨r.manifest, hstored.load, hfinished, hsealed, fun k t ht => ?_⟩
  have hk : k < r.segments.length := by
    rw [hfollows.length_eq]
    exact (List.getElem?_eq_some_iff.mp ht).1
  have hs := List.getElem?_eq_getElem hk
  obtain ⟨i, hi⟩ := hfollows.indexed k _ t hs ht
  have hindex : (dir.join ⟨segmentName c k⟩).indexPath c.indexExtension = r.segments[k].index := by
    have hne : (⟨segmentName c k⟩ : Path).text ≠ "" := fun e =>
      (isName_segmentName (RecorderSettings.namesFiles hc.checked) k).ne_nil
        (String.toList_eq_nil_iff.mpr e)
    have hdir : r.directory = dir := by
      unfold Recording.directory
      rw [hbase, hy.base]
      rfl
    rw [Follows.index_eq hfollows.listed hfollows.extension (List.getElem_mem hk)
      (hfollows.item hs ht).1, hdir, Path.indexPath_join hne]
    rfl
  unfold Disk.read
  rw [hindex, Disk.openRead_eq_ok.mpr hi.lookUp, ok_bind, hi.content]
  rfl

end

def blankWorld : World := ⟨.blank ["work".toList], []⟩

theorem wellNamed_default : ({} : RecorderSettings).WellNamed := by
  have hfirst : ∀ (name : String) (n : Nat), name.toList.head? ≠ some 's' →
      name ≠ indexName {} n := fun name n h e => h (by rw [e]; simp [indexName, segmentName])
  exact ⟨by decide, by decide, by decide, fun n => hfirst _ n (by decide),
    fun n => hfirst _ n (by decide +kernel)⟩

theorem holdsNoFile_blank : HoldsNoFile (blankWorld.disk.makeDirectories ⟨"rec"⟩).2 ⟨"rec"⟩ := by
  intro directory hd x i hi
  have hd' : (blankWorld.disk.makeDirectories ⟨"rec"⟩).2.Resolves ⟨"rec"⟩
      ["work".toList, "rec".toList] := rfl
  have hnodes : (blankWorld.disk.makeDirectories ⟨"rec"⟩).2.nodes =
      (["work".toList, "rec".toList], .directory) :: blankWorld.disk.nodes := by decide +kernel
  rw [hd.unique hd'] at hi
  have hmem := Disk.mem_of_node? hi (List.concat_ne_nil _ _)
  rw [hnodes] at hmem
  simp [blankWorld, Disk.blank] at hmem

def opened : Recorder × World :=
  (⟨⟨"rec"⟩, ⟨"rec/recording.json"⟩, {}, .empty "idx" (some ⟨"rec"⟩)⟩,
    (Recorder.open ⟨"rec"⟩ {} blankWorld).2)

def begun : Recorder × World := (opened.1.beginSegment 10 opened.2).2
def sampled : Recorder × World := (begun.1.sample ⟨12, 0⟩ begun.2).2
def rotated : Recorder × World := (sampled.1.beginSegment 20 sampled.2).2

def finished : Recording × World := (rotated.1.finish rotated.2).2

theorem sampled_isOk : (opened.1.beginSegment 10 opened.2).1.isOk = true ∧
    (begun.1.sample ⟨12, 0⟩ begun.2).1.isOk = true := by decide +kernel

/-- A recording of two segments, the first with a sample. -/
theorem finished_in_full_twice : ∃ (y : Recorder) (v : World) (r : Recording) (w' : World),
    y.finish v = (.ok (), r, w') ∧
    ∃ m, Manifest.load ⟨"rec/recording.json"⟩ w'.disk = .ok m ∧
      (m.items.map fun s => (s.path.text, s.start, s.stop)) =
        [("seg-00000.ts", 10, 12), ("seg-00001.ts", 20, 20)] := by
  have ho : Recorder.open ⟨"rec"⟩ {} blankWorld = (.ok opened.1, opened.2) := rfl
  have hok : (sampled.1.beginSegment 20 sampled.2).1.isOk = true ∧
      (rotated.1.finish rotated.2).1.isOk = true := by decide +kernel
  obtain ⟨_, h₁⟩ := eq_of_isOk (s := begun) rfl sampled_isOk.1
  obtain ⟨_, h₂⟩ := eq_of_isOk (s := sampled) rfl sampled_isOk.2
  obtain ⟨_, h₃⟩ := eq_of_isOk (s := rotated) rfl hok.1
  obtain ⟨_, h₄⟩ := eq_of_isOk (s := finished) rfl hok.2
  have hr := ((Ran.start.began h₁).sampled h₂).began h₃
  obtain ⟨m, hm, _, hitems, _⟩ :=
    finished_in_full wellNamed_default (Disk.sound_blank _) holdsNoFile_blank ho hr h₄
  exact ⟨_, _, _, _, h₄, m, hm, hitems.trans (by decide +kernel)⟩

end Timeshift.Recorder
