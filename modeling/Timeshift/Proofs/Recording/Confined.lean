import Timeshift.Proofs.Recording.Handles

/-!
# A question and the files it looks at

A segment that is not being recorded answers as its index would if it were opened now, and so from
what the index path reads alone. A lookup asks one segment and no other, so whatever is wrong with
the other indexes cannot be told from its answer.
-/

namespace Timeshift

namespace Index

section
variable {path : Path} {d d' : Disk} {time : UInt64}

/-- What an index that is opened for playback answers hangs on what its path reads. -/
theorem openPlayback_bind (f : Path → Bytes → Except Error α) (path : Path) (d : Disk) :
    (openPlayback path d >>= fun x => x.bytes d >>= f x.path) =
      ((d.read path).mapError (.ofOpening path) >>= fun bs =>
        Contents.checked path bs >>= fun _ => f path bs) := by
  unfold openPlayback Disk.read
  cases d.openRead path with
  | error e => rfl
  | ok i =>
    simp only [ok_bind, mapError_ok, pure, Except.pure]
    cases Contents.checked path (d.content i) with
    | error e => rfl
    | ok c => rfl

theorem openPlayback_congr (f : Path → Bytes → Except Error α) (h : d'.read path = d.read path) :
    (openPlayback path d' >>= fun x => x.bytes d' >>= f x.path) =
      (openPlayback path d >>= fun x => x.bytes d >>= f x.path) := by
  rw [openPlayback_bind, openPlayback_bind, h]

theorem openPlayback_lookUp_congr (h : d'.read path = d.read path) (time : UInt64) :
    (openPlayback path d' >>= (·.lookUp time d')) = (openPlayback path d >>= (·.lookUp time d)) :=
  openPlayback_congr (fun path bs => return (← search path bs time).offset) h

theorem openPlayback_first?_congr (h : d'.read path = d.read path) :
    (openPlayback path d' >>= (·.first? d')) = (openPlayback path d >>= (·.first? d)) :=
  openPlayback_congr (fun _ bs => pure (Entry.readAt? bs 0)) h

end

end Index

namespace Segment

/-- The segment is not being recorded, and an index it has open is as opening it would give it. -/
structure Settled (s : Segment) (d : Disk) : Prop where
  writer : s.writer = none
  reader : ∀ x, s.reader = some x → Index.openPlayback s.index d = .ok x

def shut (s : Segment) : Segment := { s with reader := none }

section
variable {s t : Segment} {d d' : Disk}

theorem SameButReader.shut_eq (h : s.SameButReader t) : t.shut = s.shut := by
  rw [h]
  rfl

theorem Settled.handle (h : s.Settled d) : s.handle d = Index.openPlayback s.index d := by
  unfold Segment.handle
  rw [h.writer]
  cases hr : s.reader with
  | some x => rw [h.reader x hr]
  | none => rfl

def startPosition (s : Segment) (d : Disk) : Except Error Position :=
  (Index.openPlayback s.index d >>= (·.first? d)).map (Player.positionOf s)

def positionAt (s : Segment) (clamp : Bool) (time : UInt64) (d : Disk) : Except Error Position :=
  match Index.openPlayback s.index d >>= (·.lookUp time d) with
  | .ok offset => .ok ⟨s.file, offset, false⟩
  | .error e => if e.isNotFound && clamp then s.startPosition d else .error e

theorem startPosition_congr (h : d'.read s.index = d.read s.index) :
    s.startPosition d' = s.startPosition d := by
  unfold startPosition
  rw [Index.openPlayback_first?_congr h]

theorem positionAt_congr (h : d'.read s.index = d.read s.index) (clamp : Bool) (time : UInt64) :
    s.positionAt clamp time d' = s.positionAt clamp time d := by
  unfold positionAt
  rw [Index.openPlayback_lookUp_congr h, startPosition_congr h]

end

end Segment

namespace Recording

def chosen? (r : Recording) (time : UInt64) : Option Segment :=
  (r.segments.filter (·.start ≤ time)).getLast?

/-- What a lookup tells, with nothing said of what the segment has open. -/
def answer (r : Recording) (time : UInt64) (d : Disk) : Except Error (Segment × UInt64) :=
  (r.lookUp time d).1.map fun (s, offset) => (s.shut, offset)

def Settled (r : Recording) (d : Disk) : Prop := ∀ s ∈ r.segments, s.Settled d

section
variable {r : Recording} {s : Segment} {k : Nat} {d d' : Disk} {path : Path} {time : UInt64}

theorem Listed.starts (h : r.Listed) : r.segments.Pairwise fun s t => s.start ≤ t.start := by
  have := h.inOrder.starts
  rwa [manifest_items, List.pairwise_map] at this

theorem load_settled (h : load path d = .ok r) (d' : Disk) : r.Settled d' := by
  obtain ⟨m, _, rfl⟩ := load_eq_ok.mp h
  intro s hs
  obtain ⟨item, _, rfl⟩ := List.mem_map.mp hs
  exact ⟨rfl, nofun⟩

theorem load_congr (h : d'.read path = d.read path) : load path d' = load path d := by
  unfold load Manifest.load Disk.readText
  rw [h]

theorem place?_cases_chosen (ho : r.segments.Pairwise fun s t => s.start ≤ t.start)
    (time : UInt64) : r.place? time = none ∧ r.chosen? time = none ∨
      ∃ k s, r.place? time = some k ∧ r.segments[k]? = some s ∧ r.chosen? time = some s := by
  have hchosen : r.chosen? time = r.segmentAt? time := (segmentAt?_eq ho time).symm
  rw [hchosen]
  unfold segmentAt?
  cases hp : r.place? time with
  | none => exact .inl ⟨rfl, rfl⟩
  | some k =>
    have hs := List.getElem?_eq_getElem (lt_of_place? hp)
    exact .inr ⟨k, _, rfl, hs, by rw [Option.bind_some, hs]⟩

theorem answer_some (hp : r.place? time = some k) (hs : r.segments[k]? = some s) (d : Disk) :
    r.answer time d = (s.query (·.lookUp time d) d).1.map (s.shut, ·) := by
  have hshut := (s.query_sameButReader (·.lookUp time d) d).shut_eq
  unfold Recording.answer
  rw [lookUp_some hp hs]
  simp only
  cases (s.query (·.lookUp time d) d).1 with
  | error e => rfl
  | ok offset => simp only [Except.map, hshut]

theorem answer_congr {r' : Recording}
    (hshut : r'.segments.map Segment.shut = r.segments.map Segment.shut)
    (hasked : ∀ (k : Nat) (s s' : Segment), r.segments[k]? = some s →
      r'.segments[k]? = some s' →
      (s'.query (·.lookUp time d) d).1 = (s.query (·.lookUp time d) d).1) :
    r'.answer time d = r.answer time d := by
  have hstarts : r'.segments.map (·.start) = r.segments.map (·.start) := by
    have := congrArg (List.map (·.start)) hshut
    rwa [List.map_map, List.map_map] at this
  have hplace := place?_congr hstarts time
  cases hp : r.place? time with
  | none =>
    unfold Recording.answer
    rw [lookUp_none hp, lookUp_none (hplace.trans hp), beforeStart_congr hstarts]
  | some k =>
    obtain ⟨s, hs⟩ : ∃ s, r.segments[k]? = some s :=
      ⟨_, List.getElem?_eq_getElem (lt_of_place? hp)⟩
    obtain ⟨s', hs'⟩ : ∃ s', r'.segments[k]? = some s' :=
      ⟨_, List.getElem?_eq_getElem (lt_of_place? (hplace.trans hp))⟩
    have hsame := congrArg (·[k]?) hshut
    simp only [List.getElem?_map, hs, hs', Option.map_some, Option.some.injEq] at hsame
    rw [answer_some hp hs, answer_some (hplace.trans hp) hs', hasked k s s' hs hs', hsame]

theorem Settled.answer (h : r.Settled d) (hp : r.place? time = some k)
    (hs : r.segments[k]? = some s) : r.answer time d =
      (Index.openPlayback s.index d >>= (·.lookUp time d)).map (s.shut, ·) := by
  rw [answer_some hp hs, s.query_fst, (h s (List.mem_of_getElem? hs)).handle]

end

end Recording

namespace Player

section
variable {p : Player} {s : Segment} {k : Nat} {d : Disk} {time : UInt64}

theorem seek_before (h : p.recording.Settled d) (hp : p.recording.place? time = none) :
    (p.seek time d).1 = match p.recording.segments.head? with
      | some s => if p.clamp then s.startPosition d else .error (p.recording.beforeStart time)
      | none => .error (p.recording.beforeStart time) := by
  rw [seek_none hp]
  cases hf : p.recording.segments.head? with
  | none => rfl
  | some s =>
    simp only [(h s (List.mem_of_head? hf)).handle]
    rfl

theorem seek_at (h : p.recording.Settled d) (hp : p.recording.place? time = some k)
    (hs : p.recording.segments[k]? = some s) :
    (p.seek time d).1 = s.positionAt p.clamp time d := by
  rw [seek_some hp hs, (h s (List.mem_of_getElem? hs)).handle]
  rfl

/-- A seek looks at the index of the segment that the time belongs to, and where there is none at
that of the first. -/
theorem seek_congr {d' : Disk} (h : p.recording.Settled d) (h' : p.recording.Settled d')
    (ho : p.recording.segments.Pairwise fun s t => s.start ≤ t.start)
    (hagree : ∀ s ∈ (p.recording.chosen? time).or p.recording.segments.head?,
      d'.read s.index = d.read s.index) :
    (p.seek time d').1 = (p.seek time d).1 := by
  rcases Recording.place?_cases_chosen ho time with ⟨hp, hc⟩ | ⟨k, s, hp, hs, hc⟩
  · rw [hc, Option.none_or] at hagree
    rw [seek_before h' hp, seek_before h hp]
    cases hf : p.recording.segments.head? with
    | none => rfl
    | some s => simp only [Segment.startPosition_congr (hagree s hf)]
  · rw [hc, Option.some_or] at hagree
    rw [seek_at h' hp hs, seek_at h hp hs, Segment.positionAt_congr (hagree s rfl)]

end

end Player

namespace Recording

/-- On two disks that read the same under the manifest's path and under the index path of the
segment that a time belongs to, the time is looked up with the same outcome, and a player that seeks
it starts in the same place. -/
theorem damage_confined {path : Path} {d d' : Disk} {r : Recording}
    (hload : load path d = .ok r) (hread : d'.read path = d.read path) (time : UInt64) :
    load path d' = .ok r ∧
    ((∀ s ∈ r.chosen? time, d'.read s.index = d.read s.index) →
      r.answer time d' = r.answer time d) ∧
    ((∀ s ∈ r.segments, time < s.start) →
      ∃ what, ∀ d : Disk, r.answer time d = .error (.notFound what)) ∧
    ∀ settings : PlayerSettings, ∃ p : Player, Player.open path settings d = .ok p ∧
      Player.open path settings d' = .ok p ∧
      ((∀ s ∈ (r.chosen? time).or r.segments.head?, d'.read s.index = d.read s.index) →
        (p.seek time d').1 = (p.seek time d).1) := by
  have hload' := (load_congr hread).trans hload
  have ho := (Reachable.load hload).listed.starts
  refine ⟨hload', ?_, ?_, ?_⟩
  · intro hagree
    -- where no segment starts early enough no index is opened at all
    rcases place?_cases_chosen ho time with ⟨hp, _⟩ | ⟨k, s, hp, hs, hc⟩
    · unfold answer
      rw [lookUp_none hp, lookUp_none hp]
    · rw [(load_settled hload d').answer hp hs, (load_settled hload d).answer hp hs,
        Index.openPlayback_lookUp_congr (hagree s hc)]
  · intro hlate
    rcases place?_cases ho time with ⟨hp, _⟩ | ⟨a, s, b, hab, _, hle, _⟩
    · unfold answer
      simp only [lookUp_none hp]
      unfold beforeStart
      cases r.segments.head? with
      | some first => exact ⟨_, fun _ => rfl⟩
      | none => exact ⟨_, fun _ => rfl⟩
    · exact absurd hle (UInt64.not_le.mpr (hlate s (by rw [hab]; simp)))
  · intro settings
    refine ⟨⟨r, settings.clamp⟩, ?_, ?_, ?_⟩
    · unfold Player.open
      rw [hload]
      rfl
    · unfold Player.open
      rw [hload']
      rfl
    · have hsettled := load_settled hload
      exact Player.seek_congr (p := ⟨r, settings.clamp⟩) (hsettled d) (hsettled d') ho

/-! ## A recording that has lost one of its indexes -/

def pairManifest : Manifest where
  version := Manifest.currentVersion
  extension := "idx"
  finished := true
  items := [⟨⟨"early.ts", by decide, by decide⟩, 10, 12⟩,
    ⟨⟨"late.ts", by decide, by decide⟩, 20, 22⟩]

def pairPath : Path := ⟨"rec.json"⟩

def pairDisk (text : Bytes) : Disk where
  here := []
  nodes := [(["rec.json".toList], .file 0), (["early.ts.idx".toList], .file 1),
    (["late.ts.idx".toList], .file 2)]
  files := [(0, { content := text }), (1, { content := Entry.encodeAll [⟨12, 7⟩] }),
    (2, { content := Entry.encodeAll [⟨22, 9⟩] })]
  next := 3

def damaged (d : Disk) : Disk := { d with nodes := d.nodes.erase ["late.ts.idx".toList] }

theorem read_pairDisk (text : Bytes) : (pairDisk text).read pairPath = .ok text ∧
    (damaged (pairDisk text)).read pairPath = .ok text := ⟨rfl, rfl⟩

def wholeDisk : Disk := pairDisk (Utf8.encode pairManifest.text)

def pair : Recording := ofManifest (baseOf pairPath) pairManifest

theorem load_pair : load pairPath wholeDisk = .ok pair := by
  have hfault : pairManifest.fault? = none := by decide +kernel
  have hread := (read_pairDisk (Utf8.encode pairManifest.text)).1
  exact load_eq_ok.mpr ⟨_, Manifest.load_of_read hfault hread, rfl⟩

/-- The damage shows for times of the second segment and for no others. -/
theorem damage_confined_pair :
    (∃ p, Player.open pairPath {} wholeDisk = .ok p ∧
      Player.open pairPath {} (damaged wholeDisk) = .ok p ∧
      (p.seek 15 (damaged wholeDisk)).1 = .ok ⟨⟨"early.ts"⟩, 7, false⟩ ∧
      (p.seek 5 (damaged wholeDisk)).1 = .ok ⟨⟨"early.ts"⟩, 7, true⟩) ∧
    (pair.answer 15 (damaged wholeDisk)).map (fun x => (x.1.path.text, x.2)) =
      .ok ("early.ts", 7) ∧
    (pair.answer 25 wholeDisk).map (fun x => (x.1.path.text, x.2)) = .ok ("late.ts", 9) ∧
    (pair.answer 25 (damaged wholeDisk)).map (·.2) = .error (.notFound "late.ts.idx") := by
  have hread : (damaged wholeDisk).read pairPath = wholeDisk.read pairPath := by
    unfold wholeDisk
    rw [(read_pairDisk _).1, (read_pairDisk _).2]
  obtain ⟨_, hanswer, _, hplayer⟩ := damage_confined load_pair hread 15
  obtain ⟨p, hp, hp', hseek⟩ := hplayer {}
  obtain ⟨q, hq, _, hbefore⟩ := (damage_confined load_pair hread 5).2.2.2 {}
  obtain rfl : p = q := Except.ok.inj (hp.symm.trans hq)
  obtain rfl : p = ⟨pair, true⟩ := by
    unfold Player.open at hp
    rw [load_pair] at hp
    exact (Except.ok.inj hp).symm
  refine ⟨⟨_, hp, hp', ?_, ?_⟩, ?_, ?_, ?_⟩
  · rw [hseek (by decide +kernel)]
    decide +kernel
  · rw [hbefore (by decide +kernel)]
    decide +kernel
  · rw [hanswer (by decide +kernel)]
    decide +kernel
  · decide +kernel
  · decide +kernel

end Recording

end Timeshift
