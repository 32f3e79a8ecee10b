import Timeshift.Proofs.Recorder.EndToEnd
import Timeshift.Proofs.Recorder.Seeking

/-!
# Seeking while recording

A player has the manifest that was stored when the last segment began, and index files that have
grown since. The live list of the recorder and every list that is loaded from that manifest follow
the same takes at each moment of a run, so they have the same answers.
-/

namespace Timeshift.Recorder

/-- A recorder at work, and the lists that were loaded from its manifest since it last began a
segment. -/
structure Watched where
  recorder : Recorder
  world : World
  views : List Recording

namespace Watched

/-- A call of the recorder, a load of its manifest, or a question to one of the lists. In between
the storage may begin or cease to fail. -/
inductive Step (c : RecorderSettings) (dir : Path) : Watched → Watched → Prop
  | began {s : Watched} {x : Recorder} {w : World} {start : UInt64} {p : Path} :
      s.recorder.beginSegment start s.world = (.ok p, x, w) → Step c dir s ⟨x, w, []⟩
  /-- It failed before a segment was appended. -/
  | refused {s : Watched} {x : Recorder} {w : World} {start : UInt64} {err : Error} :
      s.recorder.beginSegment start s.world = (.error err, x, w) →
      x.recording.segments.length = s.recorder.recording.segments.length →
      Step c dir s ⟨x, w, s.views⟩
  | sampled {s : Watched} {x : Recorder} {w : World} {e : Entry} {answer : Except Error Bool} :
      s.recorder.sample e s.world = (answer, x, w) → Step c dir s ⟨x, w, s.views⟩
  /-- Another recorder goes on, whether or not the index handles of the first were let go. -/
  | reopened {s : Watched} {x : Recorder} {v w : World} : v.disk = s.world.disk →
      Recorder.open dir c v = (.ok x, w) → Step c dir s ⟨x, w, s.views⟩
  | loaded {s : Watched} {r : Recording} :
      Recording.load (dir.join ⟨c.manifestName⟩) s.world.disk = .ok r →
      Step c dir s { s with views := s.views ++ [r] }
  | asked (s : Watched) (time : UInt64) :
      Step c dir s ⟨{ s.recorder with
        recording := (s.recorder.recording.lookUp time s.world.disk).2 }, s.world, s.views⟩
  | viewAsked {s : Watched} {k : Nat} {r : Recording} (time : UInt64) : s.views[k]? = some r →
      Step c dir s { s with views := s.views.set k (r.lookUp time s.world.disk).2 }
  | storage {s : Watched} {w : World} : s.world.disk.ChangesMedia Medium.Faithful w.disk →
      Step c dir s ⟨s.recorder, w, s.views⟩

inductive Run (c : RecorderSettings) (dir : Path) : Watched → Watched → Prop
  | refl (s : Watched) : Run c dir s s
  | step {s₁ s₂ s₃ : Watched} : Run c dir s₁ s₂ → Step c dir s₂ s₃ → Run c dir s₁ s₃

end Watched

structure Listing (c : RecorderSettings) (dir : Path) (directory : Name) (d : Disk)
    (takes : List Take) (m : Manifest) : Prop where
  stored : Stored d (dir.join ⟨c.manifestName⟩) (manifestPlace c directory) m
  unfinished : m.finished = false
  follows : Follows c dir directory d takes
    (.ofManifest (Recording.baseOf (dir.join ⟨c.manifestName⟩)) m)

structure Shown (c : RecorderSettings) (dir : Path) (directory : Name) (takes : List Take)
    (s : Watched) : Prop where
  live : Live c dir directory s.world.disk takes s.recorder
  absent : takes = [] → s.world.disk.exists? (dir.join ⟨c.manifestName⟩) = false
  listed : takes ≠ [] → ∃ m, Listing c dir directory s.world.disk takes m
  views : ∀ r ∈ s.views, Follows c dir directory s.world.disk takes r ∧ r.Idle

section
variable {c : RecorderSettings} {dir : Path} {directory : Name} {d d' : Disk}
  {takes before : List Take} {t : Take} {m : Manifest} {s s' : Watched} {x y : Recorder}
  {r : Recording} {w w' : World} {i : FileId} {e : Entry}

/-! ## The list on the disk -/

theorem Listing.exists? (h : Listing c dir directory d takes m) :
    d.exists? (dir.join ⟨c.manifestName⟩) = true := by
  obtain ⟨i, hn, _⟩ := h.stored.content
  unfold Disk.exists?
  rw [Disk.lookUp_eq_file.mpr ⟨_, h.stored.place, hn⟩]
  rfl

theorem Listing.load_eq (h : Listing c dir directory d takes m)
    (hl : Recording.load (dir.join ⟨c.manifestName⟩) d = .ok r) :
    r = .ofManifest (Recording.baseOf (dir.join ⟨c.manifestName⟩)) m := by
  obtain ⟨m', hm, rfl⟩ := Recording.load_eq_ok.mp hl
  rw [h.stored.load] at hm
  cases hm
  rfl

theorem Listing.load (h : Listing c dir directory d takes m) :
    Recording.load (dir.join ⟨c.manifestName⟩) d =
      .ok (.ofManifest (Recording.baseOf (dir.join ⟨c.manifestName⟩)) m) :=
  Recording.load_eq_ok.mpr ⟨m, h.stored.load, rfl⟩

theorem load_absent {path : Path} (h : d.exists? path = false) : Recording.load path d ≠ .ok r := by
  intro hl
  obtain ⟨i, hi⟩ := Recording.load_file hl
  unfold Disk.exists? at h
  rw [hi] at h
  cases h

/-- A file that is neither the manifest nor the index of a take may change as it likes. -/
theorem Listing.frame (h : Listing c dir directory d takes m) (hc : c.WellNamed)
    (hd : d.ChangesOnly i d') (hk : ∀ n j, n ≠ indexPlace c directory takes.length →
      d.node? n = some (.file j) → d'.content j = d.content j) :
    Listing c dir directory d' takes m := by
  refine ⟨h.stored.frame hd.extends_ fun j hj => ⟨?_, hk _ j (manifestPlace_ne hc _) hj⟩,
    h.unfinished, h.follows.frame_changesOnly hd fun k j hlt hj => hk _ j (fun he => ?_) hj⟩
  · rw [Disk.node?_congr hd.nodes]
    exact hj
  · exact Nat.ne_of_lt hlt (indexPlace_injective he)

theorem Listing.grow (h : Listing c dir directory d (before ++ [t]) m) (hc : c.WellNamed)
    (hs : d.Sound) (hn : d.node? (indexPlace c directory before.length) = some (.file i))
    (hd : d.ChangesOnly i d') (hcontent : d'.content i = Entry.encodeAll (t.add e).entries)
    (ho : Index.IsOrdered (t.add e).entries) :
    Listing c dir directory d' (before ++ [t.add e]) m := by
  refine ⟨h.stored.frame hd.extends_ fun j hj => ⟨?_, hd.content j fun he => ?_⟩, h.unfinished,
    h.follows.grow_idle hs (Recording.idle_ofManifest _ m) hn hd hcontent ho⟩
  · rw [Disk.node?_congr hd.nodes]
    exact hj
  · exact manifestPlace_ne hc _ (hs.one_name (he ▸ hj) hn)

/-! ## What a step keeps -/

theorem Shown.frame (h : Shown c dir directory takes s) (hc : c.WellNamed)
    (hd : s.world.disk.ChangesOnly i w'.disk)
    (hk : ∀ n j, n ≠ indexPlace c directory takes.length →
      s.world.disk.node? n = some (.file j) → w'.disk.content j = s.world.disk.content j) :
    Shown c dir directory takes ⟨s.recorder, w', s.views⟩ := by
  have hk' : ∀ k j, k < takes.length →
      s.world.disk.node? (indexPlace c directory k) = some (.file j) →
        w'.disk.content j = s.world.disk.content j := fun k j hlt hj =>
    hk _ j (fun he => Nat.ne_of_lt hlt (indexPlace_injective he)) hj
  refine ⟨h.live.frame hd hk', fun ht => ?_, fun ht => ?_, fun r hr => ?_⟩
  · unfold Disk.exists?
    rw [hd.lookUp_eq]
    exact h.absent ht
  · obtain ⟨m, hm⟩ := h.listed ht
    exact ⟨m, hm.frame hc hd hk⟩
  · obtain ⟨hfollows, hidle⟩ := h.views r hr
    exact ⟨hfollows.frame_changesOnly hd hk', hidle⟩

theorem Shown.begin_ok {start : UInt64} {p : Path} (h : Shown c dir directory takes s)
    (hc : c.WellNamed) (hb : s.recorder.beginSegment start s.world = (.ok p, x, w)) :
    ∃ held, Shown c dir directory (takes ++ [⟨start, held⟩]) ⟨x, w, []⟩ := by
  obtain ⟨held, hlive, hstored, _⟩ := h.live.begin_ok hc hb
  have hreload := hlive.follows.reload hc (Recording.directory_baseOf _)
    hlive.follows.listed.fault? hlive.follows.extension rfl
  exact ⟨held, hlive, fun ht => absurd ht (List.concat_ne_nil _ _),
    fun _ => ⟨_, hstored, hlive.unfinished, hreload⟩, nofun⟩

theorem Shown.sample_ok {full : Bool} (h : Shown c dir directory takes s) (hc : c.WellNamed)
    (hs : s.recorder.sample e s.world = (.ok full, x, w)) :
    ∃ before t, takes = before ++ [t] ∧
      Shown c dir directory (before ++ [t.add e]) ⟨x, w, s.views⟩ := by
  obtain ⟨before, t, i, rfl, hn, hd, hcontent, ho, hlive, _⟩ := h.live.sample_ok hs
  refine ⟨before, t, rfl, hlive, fun ht => absurd ht (List.concat_ne_nil _ _), fun _ => ?_,
    fun r hr => ?_⟩
  · obtain ⟨m, hm⟩ := h.listed (List.concat_ne_nil _ _)
    exact ⟨m, hm.grow hc h.live.kept.sound hn hd hcontent ho⟩
  · obtain ⟨hfollows, hidle⟩ := h.views r hr
    exact ⟨hfollows.grow_idle h.live.kept.sound hidle hn hd hcontent ho, hidle⟩

theorem Shown.sample_error {err : Error} (h : Shown c dir directory takes s) (hc : c.WellNamed)
    (hs : s.recorder.sample e s.world = (.error err, x, w)) :
    Shown c dir directory takes ⟨x, w, s.views⟩ := by
  obtain ⟨rfl, i, hd, hcontent⟩ := h.live.sample_error hs
  exact h.frame hc hd fun _ j _ _ => hd.unchanged hcontent j

theorem Shown.storage (h : Shown c dir directory takes s)
    (hd : s.world.disk.ChangesMedia Medium.Faithful w.disk) :
    Shown c dir directory takes ⟨s.recorder, w, s.views⟩ := by
  have hsame : ∀ {n j}, s.world.disk.node? n = some (.file j) →
      w.disk.node? n = some (.file j) ∧ w.disk.content j = s.world.disk.content j := by
    intro n j hj
    exact ⟨Disk.node?_congr hd.nodes ▸ hj, hd.content j⟩
  have hfollows : ∀ {r}, Follows c dir directory s.world.disk takes r →
      Follows c dir directory w.disk takes r :=
    fun hr => hr.frame hd.extends_ fun _ _ _ => hsame
  refine ⟨⟨h.live.kept.changesMedia hd, h.live.settings, h.live.manifestPath, h.live.unfinished,
    hfollows h.live.follows⟩, fun ht => ?_, fun ht => ?_, fun r hr => ?_⟩
  · unfold Disk.exists?
    rw [hd.lookUp_eq]
    exact h.absent ht
  · obtain ⟨m, hm⟩ := h.listed ht
    exact ⟨m, hm.stored.frame hd.extends_ fun _ => hsame, hm.unfinished, hfollows hm.follows⟩
  · obtain ⟨hr, hidle⟩ := h.views r hr
    exact ⟨hfollows hr, hidle⟩

theorem Shown.load (h : Shown c dir directory takes s)
    (hl : Recording.load (dir.join ⟨c.manifestName⟩) s.world.disk = .ok r) :
    Follows c dir directory s.world.disk takes r ∧ r.Idle ∧ r.finished = false := by
  by_cases ht : takes = []
  · exact absurd hl (load_absent (h.absent ht))
  · obtain ⟨m, hm⟩ := h.listed ht
    rw [hm.load_eq hl]
    exact ⟨hm.follows, Recording.idle_ofManifest _ m, hm.unfinished⟩

theorem Shown.open_ok {v : World} (h : Shown c dir directory takes s) (hc : c.WellNamed)
    (hv : v.disk = s.world.disk) (ho : Recorder.open dir c v = (.ok x, w)) :
    Shown c dir directory takes ⟨x, w, s.views⟩ := by
  obtain ⟨d, r, hd, rfl, rfl, hr⟩ := open_eq_ok ho
  rw [hv, Disk.makeDirectories_of_hasDirectory h.live.kept.there] at hd
  cases hd
  refine ⟨?_, h.absent, h.listed, h.views⟩
  rcases hr with ⟨hnone, rfl⟩ | ⟨hload, _⟩
  · have ht : takes = [] := Classical.byContradiction fun ht => by
      obtain ⟨m, hm⟩ := h.listed ht
      rw [hm.exists?] at hnone
      cases hnone
    rw [ht]
    exact live_empty hc h.live.kept
  · obtain ⟨hfollows, _, hunfinished⟩ := h.load hload
    exact ⟨h.live.kept, rfl, rfl, hunfinished, hfollows⟩

/-- Every step leaves all lists with the same takes, and no take is ever dropped. -/
theorem Shown.step (h : Shown c dir directory takes s) (hc : c.WellNamed)
    (hs : Watched.Step c dir s s') :
    ∃ takes', Shown c dir directory takes' s' ∧ (takes ≠ [] → takes' ≠ []) := by
  cases hs with
  | began hb =>
    obtain ⟨held, h'⟩ := h.begin_ok hc hb
    exact ⟨_, h', fun _ => List.concat_ne_nil _ _⟩
  | refused hb hlen =>
    obtain ⟨rfl, i, hd, hk⟩ := h.live.begin_error hc hb hlen
    exact ⟨takes, h.frame hc hd hk, id⟩
  | @sampled x w e answer hsample =>
    cases answer with
    | ok full =>
      obtain ⟨before, t, _, h'⟩ := h.sample_ok hc hsample
      exact ⟨_, h', fun _ => List.concat_ne_nil _ _⟩
    | error err => exact ⟨takes, h.sample_error hc hsample, id⟩
  | reopened hv ho => exact ⟨takes, h.open_ok hc hv ho, id⟩
  | @loaded r hl =>
    obtain ⟨hfollows, hidle, _⟩ := h.load hl
    refine ⟨takes, ⟨h.live, h.absent, h.listed, fun v hv => ?_⟩, id⟩
    rcases List.mem_append.mp hv with hv | hv
    · exact h.views v hv
    · rw [List.mem_singleton.mp hv]
      exact ⟨hfollows, hidle⟩
  | asked time =>
    exact ⟨takes, ⟨⟨h.live.kept, h.live.settings, h.live.manifestPath,
      (Recording.lookUp_finished _ time _).trans h.live.unfinished, h.live.follows.lookUp time⟩,
      h.absent, h.listed, h.views⟩, id⟩
  | @viewAsked k r time hr =>
    refine ⟨takes, ⟨h.live, h.absent, h.listed, fun v hv => ?_⟩, id⟩
    rcases List.mem_or_eq_of_mem_set hv with hv | rfl
    · exact h.views v hv
    · obtain ⟨hfollows, hidle⟩ := h.views r (List.mem_of_getElem? hr)
      exact ⟨hfollows.lookUp time, hidle.lookUp time _⟩
  | storage hd => exact ⟨takes, h.storage hd, id⟩

theorem Shown.run (hc : c.WellNamed) (hr : Watched.Run c dir s s') :
    ∀ {takes}, Shown c dir directory takes s →
      ∃ takes', Shown c dir directory takes' s' ∧ (takes ≠ [] → takes' ≠ []) := by
  induction hr with
  | refl => exact fun h => ⟨_, h, id⟩
  | step _ hs ih =>
    intro takes h
    obtain ⟨takes', h', hne⟩ := ih h
    obtain ⟨takes'', h'', hne'⟩ := h'.step hc hs
    exact ⟨takes'', h'', hne' ∘ hne⟩

theorem shown_open {w₁ : World} (hc : c.WellNamed) (hw : w.disk.Sound)
    (hfaithful : ∀ directory, (w.disk.makeDirectories dir).2.Resolves dir directory →
      (w.disk.makeDirectories dir).2.FaithfulAt (WritesAt c directory))
    (hnew : (w.disk.makeDirectories dir).2.exists? (dir.join ⟨c.manifestName⟩) = false)
    (ho : Recorder.open dir c w = (.ok x, w₁)) :
    ∃ directory, Shown c dir directory [] ⟨x, w₁, []⟩ := by
  obtain ⟨d, r, hd, rfl, rfl, hr⟩ := open_eq_ok ho
  rw [hd] at hfaithful hnew
  obtain ⟨directory, hk⟩ := kept_makeDirectories hw hd hfaithful
  rcases hr with ⟨_, rfl⟩ | ⟨hload, _⟩
  · exact ⟨directory, live_empty hc hk, fun _ => hnew, fun h => absurd rfl h, nofun⟩
  · exact absurd hload (load_absent hnew)

end

end Timeshift.Recorder
