import Timeshift.Proofs.Recorder.Views

/-!
# Interrupting and resuming

A recorder that was dropped and opened again seals its last segment from the index file and not from
what it remembers, and has the ends of its segments from a manifest that was stored when the last of
them began. Beside one that is never interrupted it still follows the same takes on the same disk,
so what it leaves there is the same to the byte.
-/

namespace Timeshift

theorem Recording.disk_release (r : Recording) (w : World) : (r.release w).disk = w.disk := by
  unfold release
  generalize r.segments.filterMap (·.writer) = handles
  induction handles generalizing w with
  | nil => rfl
  | cons x handles ih =>
    rw [List.foldl_cons, ih]
    exact Index.disk_release x w

namespace Recorder

structure Session where
  recorder : Recorder
  world : World
  files : List Path

namespace Session

def start (dir : Path) (c : RecorderSettings) (w : World) : Except Error Session :=
  match Recorder.open dir c w with
  | (.ok x, w) => .ok ⟨x, w, []⟩
  | (.error e, _) => .error e

/-- The recorder is dropped without finishing, and its directory is opened again. -/
def reopen (s : Session) : Except Error Session :=
  match Recorder.open s.recorder.directory s.recorder.settings (s.recorder.release s.world) with
  | (.ok x, w) => .ok ⟨x, w, s.files⟩
  | (.error e, _) => .error e

def resume (s : Session) (interrupted : Bool) : Except Error Session :=
  if interrupted then s.reopen else .ok s

def beginAt (s : Session) (start : UInt64) : Except Error Session :=
  match s.recorder.beginSegment start s.world with
  | (.ok p, x, w) => .ok ⟨x, w, s.files ++ [p]⟩
  | (.error e, _, _) => .error e

def sample (s : Session) (e : Entry) : Session :=
  let (_, x, w) := s.recorder.sample e s.world
  ⟨x, w, s.files⟩

def finish (s : Session) : Except Error (Recording × World × List Path) :=
  match s.recorder.finish s.world with
  | (.ok (), r, w) => .ok (r, w, s.files)
  | (.error e, _, _) => .error e

inductive Call
  | begin (interrupted : Bool) (start : UInt64)
  | sample (e : Entry)

def Call.straight : Call → Call
  | .begin _ start => .begin false start
  | .sample e => .sample e

def call (s : Session) : Call → Except Error Session
  | .begin interrupted start => do (← s.resume interrupted).beginAt start
  | .sample e => .ok (s.sample e)

/-- A recording from its start to its end, interrupted before the calls that say so, and before it
is finished if `last` is set. -/
def run (dir : Path) (c : RecorderSettings) (w : World) (calls : List Call) (last : Bool) :
    Except Error (Recording × World × List Path) := do
  let s ← start dir c w
  let s ← calls.foldlM call s
  (← s.resume last).finish

end Session

def SameFiles (ps qs : List Path) : Prop :=
  ps.length = qs.length ∧
    ∀ (k : Nat) (p q : Path), ps[k]? = some p → qs[k]? = some q → Path.Same p q

/-- The first recorder was never interrupted, the second perhaps, and nothing else is different. -/
structure Twins (c : RecorderSettings) (dir : Path) (directory : Name) (takes : List Take)
    (s t : Session) : Prop where
  first : Shown c dir directory takes ⟨s.recorder, s.world, []⟩
  second : Shown c dir directory takes ⟨t.recorder, t.world, []⟩
  disk : t.world.disk = s.world.disk
  base : s.recorder.recording.base = some dir
  directory : t.recorder.directory = dir
  short : Path.Shortens t.recorder.recording.directory dir
  files : SameFiles s.files t.files

/-- As long as no interruption came after the last segment began. -/
structure Paired (c : RecorderSettings) (dir : Path) (directory : Name) (takes : List Take)
    (s t : Session) : Prop extends Twins c dir directory takes s t where
  active : t.recorder.recording.isRecording = s.recorder.recording.isRecording

section
variable {c : RecorderSettings} {dir : Path} {directory : Name} {d : Disk}
  {takes before : List Take} {t t' : Take} {x x' y : Recorder} {r r' q : Recording}
  {v w w' : World} {path : SegmentPath} {start : UInt64} {e : Entry} {a a' b : Session}

/-! ## Two recordings that follow the same takes -/

theorem Follows.last_content (h : Follows c dir directory d (before ++ [t]) r) :
    ∃ i, d.node? (indexPlace c directory before.length) = some (.file i) ∧
      d.content i = Entry.encodeAll t.entries := by
  have hk : before.length < r.segments.length := by
    rw [h.length_eq]
    simp
  obtain ⟨i, hi⟩ := h.indexed before.length _ t (List.getElem?_eq_getElem hk)
    List.getElem?_concat_length
  exact ⟨i, hi.node, hi.content⟩

theorem Follows.entries_eq (h : Follows c dir directory d (before ++ [t]) r)
    (h' : Follows c dir directory d (before ++ [t']) r') : t'.entries = t.entries := by
  obtain ⟨i, hn, hi⟩ := h.last_content
  obtain ⟨j, hm, hj⟩ := h'.last_content
  rw [hn] at hm
  cases hm
  rw [← Entry.readAll_encodeAll t.entries, ← hi, hj, Entry.readAll_encodeAll]

theorem Follows.sealed_same (h : Follows c dir directory w.disk takes r)
    (h' : Follows c dir directory v.disk takes q) (hf : q.finished = r.finished) :
    (q.finishLast v).1.manifest = (r.finishLast w).1.manifest := by
  obtain ⟨_, hr, hs⟩ := h.finishLast
  obtain ⟨_, hq, hs'⟩ := h'.finishLast
  obtain ⟨_, _, hfinished, _⟩ := Recording.finishLast_keeps r w
  obtain ⟨_, _, hfinished', _⟩ := Recording.finishLast_keeps q v
  apply Recording.manifest_eq
  · rw [hr.extension, hq.extension]
  · rw [hfinished, hfinished', hf]
  · exact (List.map_inj_right fun _ _ => row_injective).mp (hs'.trans hs.symm)

theorem Follows.append_same (h : Follows c dir directory w.disk takes r)
    (h' : Follows c dir directory v.disk takes q) (hk : Kept c dir directory w.disk)
    (hc : c.WellNamed) (hd : v.disk = w.disk) (hf : q.finished = r.finished)
    (hr : r.directory = dir) (hq : Path.Shortens q.directory dir)
    (hp : path.text = segmentName c takes.length) (ha : r.append path start w = (.ok r', w')) :
    ∃ q' v', q.append path start v = (.ok q', v') ∧ v'.disk = w'.disk ∧
      q'.manifest = r'.manifest := by
  obtain ⟨hrefusal, x, w₁, hopen, rfl, rfl⟩ := Recording.append_eq_ok.mp ha
  obtain ⟨i, d, hcreate, _⟩ := Index.openRecord_ok hopen
  obtain ⟨n, hleads, _⟩ := Disk.openCreate_ok hcreate
  have hleads' : v.disk.LeadsTo ((q.fileOf path).indexPath q.extension) n := by
    rw [h.indexPath_eq hp, hr] at hleads
    rw [h'.indexPath_eq hp, hd]
    exact Disk.leadsTo_of_shortens hq
      (isName_indexName (RecorderSettings.namesFiles hc.checked) takes.length) hleads
  obtain ⟨y, v₁, hopen', hdisk⟩ := Index.openRecord_same hleads hleads' hd hopen
  obtain ⟨_, _, _, _, _, _, hr₁⟩ := h.openRecord hk hc hp hopen start
  obtain ⟨_, _, _, _, _, _, hq₁⟩ := h'.openRecord (hd ▸ hk) hc hp hopen' start
  have hsame := hr₁.sealed_same hq₁ hf
  have hrefusal' : q.refusal? path start = none := by
    obtain ⟨_, _, _, hkeeps, _⟩ := Recording.finishLast_keeps r w₁
    obtain ⟨_, _, _, hkeeps', _⟩ := Recording.finishLast_keeps q v₁
    rw [← hkeeps', Recording.refusal?_congr hsame, hkeeps]
    exact hrefusal
  refine ⟨_, _, Recording.append_eq_ok.mpr ⟨hrefusal', y, v₁, hopen', rfl, rfl⟩, ?_, ?_⟩
  · rw [hq₁.finishLast.1, hr₁.finishLast.1, hdisk]
  · rw [Recording.manifest_concat, Recording.manifest_concat, hsame]
    rfl

theorem Follows.record_same (h : Follows c dir directory w.disk takes r)
    (h' : Follows c dir directory v.disk takes q) (hd : v.disk = w.disk)
    (ha : q.isRecording = r.isRecording) (e : Entry) :
    (q.record e v).1.isOk = (r.record e w).1.isOk ∧
      (q.record e v).2.disk = (r.record e w).2.disk := by
  by_cases hr : r.isRecording = true
  · obtain ⟨init, s, x, hs, hx⟩ := Recording.isRecording_iff.mp hr
    obtain ⟨init', s', y, hs', hy⟩ := Recording.isRecording_iff.mp (ha.trans hr)
    obtain ⟨before, t, i, rfl, _, hi⟩ := h.last hs
    obtain ⟨before', t', j, heq, _, hj⟩ := h'.last hs'
    obtain ⟨rfl, ht⟩ := List.append_inj' heq rfl
    cases ht
    have hij : j = i := by
      have hn := hj.node
      rw [hd, hi.node] at hn
      cases hn
      rfl
    subst hij
    obtain ⟨hok, hw⟩ := Recording.record_outcome hs hx e w
    obtain ⟨hok', hv⟩ := Recording.record_outcome hs' hy e v
    rw [hok, hok', hw, hv]
    exact Index.write_same (hi.writer x hx) (hj.writer y hy) hd e
  · obtain ⟨_, hw⟩ := Recording.record_inactive (Recording.idle_of_isRecording hr) e w
    rw [← ha] at hr
    obtain ⟨_, hv⟩ := Recording.record_inactive (Recording.idle_of_isRecording hr) e v
    rw [hw, hv]
    exact ⟨rfl, hd⟩

/-! ## The same call of two recorders -/

theorem begin_keeps {p : Path} (hb : x.beginSegment start w = (.ok p, x', w')) :
    x'.directory = x.directory ∧ x'.recording.base = x.recording.base ∧
      x'.recording.isRecording = true := by
  obtain ⟨path, r, w₁, _, ha, _, _, rfl⟩ := beginSegment_eq_ok.mp hb
  obtain ⟨_, i, w₂, _, rfl, _⟩ := Recording.append_eq_ok.mp ha
  obtain ⟨_, hbase, _⟩ := Recording.finishLast_keeps x.recording w₂
  exact ⟨rfl, hbase, Recording.isRecording_iff.mpr ⟨_, _, i, rfl, rfl⟩⟩

theorem sample_keeps (x : Recorder) (e : Entry) (w : World) :
    (x.sample e w).2.1.directory = x.directory ∧
      (x.sample e w).2.1.recording.base = x.recording.base ∧
      (x.sample e w).2.1.recording.isRecording = x.recording.isRecording := by
  unfold Recorder.sample
  cases hr : x.recording.record e w with
  | mk result w₁ =>
    cases result with
    | error err => exact ⟨rfl, rfl, rfl⟩
    | ok r =>
      obtain ⟨init, s, i, i', hs, hi, _, rfl⟩ := Recording.record_eq_ok hr
      refine ⟨rfl, rfl, ?_⟩
      rw [Recording.isRecording_iff.mpr ⟨init, s, i, hs, hi⟩]
      exact Recording.isRecording_iff.mpr ⟨init, _, i', rfl, rfl⟩

theorem Live.begin_same {p : Path} (h : Live c dir directory w.disk takes x)
    (h' : Live c dir directory v.disk takes y) (hc : c.WellNamed) (hd : v.disk = w.disk)
    (hx : x.recording.directory = dir) (hy : Path.Shortens y.recording.directory dir)
    (hb : x.beginSegment start w = (.ok p, x', w')) :
    ∃ q y' v', y.beginSegment start v = (.ok q, y', v') ∧ v'.disk = w'.disk ∧ Path.Same p q := by
  obtain ⟨path, r, w₁, hp, ha, hs, rfl, rfl⟩ := beginSegment_eq_ok.mp hb
  rw [h.settings, h.follows.length_eq] at hp
  obtain ⟨q, v₁, ha', hd₁, hm⟩ := h.follows.append_same h'.follows h.kept hc hd
    (h'.unfinished.trans h.unfinished.symm) hx hy hp ha
  rw [h.manifestPath] at hs
  obtain ⟨v₂, hs', hd₂⟩ := Recording.store_same hm hd₁ hs
  rw [← h'.manifestPath] at hs'
  have hp' : path.text = segmentName y.settings y.recording.segments.length := by
    rw [h'.settings, h'.follows.length_eq]
    exact hp
  have hb' := beginSegment_eq_ok.mpr ⟨path, q, v₁, hp', ha', hs', rfl, rfl⟩
  refine ⟨_, _, _, hb', hd₂, ?_⟩
  obtain ⟨_, hbase, _⟩ := begin_keeps hb
  obtain ⟨_, hbase', _⟩ := begin_keeps hb'
  rw [Recording.fileOf_eq, Recording.fileOf_eq, Recording.directory_congr hbase,
    Recording.directory_congr hbase', hx]
  exact hy.same.symm.join _

theorem sample_outcome (x : Recorder) (e : Entry) (w : World) :
    (x.sample e w).1.isOk = (x.recording.record e w).1.isOk ∧
      (x.sample e w).2.2 = (x.recording.record e w).2 := by
  unfold Recorder.sample
  cases x.recording.record e w with
  | mk result w₁ =>
    cases result with
    | error err => exact ⟨rfl, rfl⟩
    | ok r => exact ⟨rfl, rfl⟩

theorem Live.sample_same (h : Live c dir directory w.disk takes x)
    (h' : Live c dir directory v.disk takes y) (hd : v.disk = w.disk)
    (ha : y.recording.isRecording = x.recording.isRecording) (e : Entry) :
    (y.sample e v).1.isOk = (x.sample e w).1.isOk ∧
      (y.sample e v).2.2.disk = (x.sample e w).2.2.disk := by
  obtain ⟨hok, hw⟩ := sample_outcome x e w
  obtain ⟨hok', hv⟩ := sample_outcome y e v
  rw [hok, hok', hw, hv]
  exact h.follows.record_same h'.follows hd ha e

theorem Shown.sampled {s : Watched} (h : Shown c dir directory takes s) (hc : c.WellNamed)
    (e : Entry) : Shown c dir directory
      (if (s.recorder.sample e s.world).1.isOk then note e takes else takes)
      ⟨(s.recorder.sample e s.world).2.1, (s.recorder.sample e s.world).2.2, s.views⟩ := by
  cases hs : s.recorder.sample e s.world with
  | mk answer after =>
    cases answer with
    | error err =>
      simp only [Except.isOk, Except.toBool, Bool.false_eq_true, if_false]
      exact h.sample_error hc hs
    | ok full =>
      obtain ⟨before, t, rfl, h'⟩ := h.sample_ok hc hs
      simp only [Except.isOk, Except.toBool, if_true, note_concat]
      exact h'

theorem finish_eq_ok : x.finish w = (.ok (), r, w') ↔ (x.recording.finish w).1 = r ∧
    r.store x.manifestPath (x.recording.finish w).2 = (.ok (), w') := by
  unfold Recorder.finish
  constructor
  · intro h
    simp only [Prod.mk.injEq] at h
    obtain ⟨hs, rfl, hw⟩ := h
    exact ⟨rfl, Prod.ext hs hw⟩
  · rintro ⟨rfl, hs⟩
    simp only [hs]

theorem Live.finish_same (h : Live c dir directory w.disk takes x)
    (h' : Live c dir directory v.disk takes y) (hd : v.disk = w.disk)
    (hf : x.finish w = (.ok (), r, w')) :
    ∃ q v', y.finish v = (.ok (), q, v') ∧ v'.disk = w'.disk ∧ q.manifest = r.manifest := by
  have hsame := h.follows.sealed_same h'.follows (h'.unfinished.trans h.unfinished.symm)
  obtain ⟨hr, hs⟩ := finish_eq_ok.mp hf
  rw [Recording.finish_unfinished h.unfinished] at hr hs
  have hm : ((y.recording.finish v).1).manifest = r.manifest := by
    rw [← hr, Recording.finish_unfinished h'.unfinished]
    exact congrArg (fun m : Manifest => { m with finished := true }) hsame
  have hdisk : (y.recording.finish v).2.disk = (x.recording.finishLast w).2.disk := by
    rw [Recording.finish_unfinished h'.unfinished, h'.follows.finishLast.1, h.follows.finishLast.1,
      hd]
  rw [h.manifestPath] at hs
  obtain ⟨v', hs', hd'⟩ := Recording.store_same hm hdisk hs
  rw [← h'.manifestPath] at hs'
  exact ⟨_, v', finish_eq_ok.mpr ⟨rfl, hs'⟩, hd', hm⟩

/-! ## Opening again -/

theorem Shown.open_eq {s : Watched} (h : Shown c dir directory takes s) (hc : c.WellNamed)
    (hv : v.disk = s.world.disk) : ∃ r, Path.Shortens r.directory dir ∧
      Recorder.open dir c v = (.ok ⟨dir, dir.join ⟨c.manifestName⟩, c, r⟩, v) := by
  have hmake : v.disk.makeDirectories dir = (.ok (), v.disk) := by
    rw [hv]
    exact Disk.makeDirectories_of_hasDirectory h.live.kept.there
  unfold Recorder.open
  rw [hmake]
  by_cases ht : takes = []
  · have hnone := h.absent ht
    rw [← hv] at hnone
    simp only [hnone, Bool.false_eq_true, if_false]
    exact ⟨.empty c.indexExtension (some dir), .refl dir, rfl⟩
  · obtain ⟨m, hm⟩ := h.listed ht
    have hthere := hm.exists?
    have hload := hm.load
    rw [← hv] at hthere hload
    have hbase := Recording.directory_baseOf (dir.join ⟨c.manifestName⟩)
    generalize Recording.baseOf (dir.join ⟨c.manifestName⟩) = base at hload hbase
    have hunfinished : (Recording.ofManifest base m).finished = false := hm.unfinished
    have hhome : (Recording.ofManifest base m).directory = home c dir := hbase
    simp only [hthere, hload, hunfinished, if_true, Bool.false_eq_true, if_false]
    refine ⟨_, ?_, rfl⟩
    rw [hhome]
    exact shortens_home hc dir

theorem Twins.resume (h : Twins c dir directory takes a b) (hc : c.WellNamed)
    (interrupted : Bool) :
    ∃ b', b.resume interrupted = .ok b' ∧ Twins c dir directory takes a b' := by
  unfold Session.resume
  cases interrupted with
  | false => exact ⟨b, rfl, h⟩
  | true =>
    have hd : (b.recorder.release b.world).disk = b.world.disk :=
      Recording.disk_release b.recorder.recording b.world
    obtain ⟨r, hshort, hopen⟩ := h.second.open_eq hc hd
    unfold Session.reopen
    rw [if_pos rfl, h.directory, h.second.live.settings, hopen]
    exact ⟨_, rfl, h.first, h.second.open_ok hc hd hopen, hd.trans h.disk, h.base, rfl, hshort,
      h.files⟩

/-! ## Two runs side by side -/

theorem Session.beginAt_eq_ok : a.beginAt start = .ok b ↔
    ∃ p x w, a.recorder.beginSegment start a.world = (.ok p, x, w) ∧
      b = ⟨x, w, a.files ++ [p]⟩ := by
  unfold Session.beginAt
  constructor
  · intro h
    split at h
    · rename_i hb
      cases h
      exact ⟨_, _, _, hb, rfl⟩
    · cases h
  · intro ⟨p, x, w, hb, hs⟩
    rw [hb, hs]

theorem Session.finish_eq_ok {files : List Path} : a.finish = .ok (r, w, files) ↔
    a.recorder.finish a.world = (.ok (), r, w) ∧ files = a.files := by
  unfold Session.finish
  constructor
  · intro h
    split at h
    · rename_i hf
      cases h
      exact ⟨hf, rfl⟩
    · cases h
  · intro ⟨hf, hs⟩
    rw [hf, hs]

theorem SameFiles.concat {ps qs : List Path} {p p' : Path} (h : SameFiles ps qs)
    (hp : Path.Same p p') : SameFiles (ps ++ [p]) (qs ++ [p']) := by
  constructor
  · rw [List.length_append, List.length_append, h.1]
    rfl
  · exact forall_concat (P := fun _ => Path.Same) h.1 h.2 hp

theorem Twins.beginAt (h : Twins c dir directory takes a b) (hc : c.WellNamed)
    (ha : a.beginAt start = .ok a') :
    ∃ takes' b', b.beginAt start = .ok b' ∧ Paired c dir directory takes' a' b' := by
  obtain ⟨p, x, w, hb, rfl⟩ := Session.beginAt_eq_ok.mp ha
  have hdir : a.recorder.recording.directory = dir := by
    unfold Recording.directory
    rw [h.base]
    rfl
  obtain ⟨q, y, v, hb', hd, hpq⟩ :=
    h.first.live.begin_same h.second.live hc h.disk hdir h.short hb
  obtain ⟨held, hfirst⟩ := h.first.begin_ok hc hb
  obtain ⟨held', hsecond⟩ := h.second.begin_ok hc hb'
  -- both indexes are the same file, and so is what they held before
  have hheld : held' = held := by
    have hfollows := hsecond.live.follows
    rw [hd] at hfollows
    exact hfirst.live.follows.entries_eq hfollows
  rw [hheld] at hsecond
  obtain ⟨_, hbase, hactive⟩ := begin_keeps hb
  obtain ⟨hdirectory', hbase', hactive'⟩ := begin_keeps hb'
  have hshort : Path.Shortens y.recording.directory dir :=
    Recording.directory_congr hbase' ▸ h.short
  exact ⟨_, _, Session.beginAt_eq_ok.mpr ⟨q, y, v, hb', rfl⟩,
    ⟨hfirst, hsecond, hd, hbase.trans h.base, hdirectory'.trans h.directory, hshort,
      h.files.concat hpq⟩, hactive'.trans hactive.symm⟩

theorem Paired.sample (h : Paired c dir directory takes a b) (hc : c.WellNamed) (e : Entry) :
    ∃ takes', Paired c dir directory takes' (a.sample e) (b.sample e) := by
  obtain ⟨hok, hd⟩ := h.first.live.sample_same h.second.live h.disk h.active e
  have hfirst := h.first.sampled hc e
  have hsecond := h.second.sampled hc e
  simp only at hfirst hsecond
  rw [hok] at hsecond
  obtain ⟨_, hbase, hactive⟩ := sample_keeps a.recorder e a.world
  obtain ⟨hdirectory', hbase', hactive'⟩ := sample_keeps b.recorder e b.world
  have hshort : Path.Shortens (b.recorder.sample e b.world).2.1.recording.directory dir :=
    Recording.directory_congr hbase' ▸ h.short
  exact ⟨_, ⟨hfirst, hsecond, hd, hbase.trans h.base, hdirectory'.trans h.directory, hshort,
    h.files⟩, hactive'.trans (h.active.trans hactive.symm)⟩

theorem Paired.call {call : Session.Call} (h : Paired c dir directory takes a b)
    (hc : c.WellNamed) (ha : a.call call.straight = .ok a') :
    ∃ takes' b', b.call call = .ok b' ∧ Paired c dir directory takes' a' b' := by
  cases call with
  | begin interrupted start =>
    obtain ⟨b₁, hresume, h₁⟩ := h.toTwins.resume hc interrupted
    obtain ⟨takes', b', hb, h'⟩ := h₁.beginAt hc ha
    refine ⟨takes', b', ?_, h'⟩
    unfold Session.call
    simp only [hresume, ok_bind]
    exact hb
  | sample e =>
    cases ha
    obtain ⟨takes', h'⟩ := h.sample hc e
    exact ⟨takes', _, rfl, h'⟩

theorem Paired.calls {calls : List Session.Call} (hc : c.WellNamed) :
    ∀ {takes a b}, Paired c dir directory takes a b →
      (calls.map Session.Call.straight).foldlM Session.call a = .ok a' →
      ∃ takes' b', calls.foldlM Session.call b = .ok b' ∧
        Paired c dir directory takes' a' b' := by
  induction calls with
  | nil =>
    intro takes a b h ha
    cases ha
    exact ⟨takes, b, rfl, h⟩
  | cons call calls ih =>
    intro takes a b h ha
    rw [List.map_cons, List.foldlM_cons] at ha
    obtain ⟨a₁, hcall, ha⟩ := bind_eq_ok.mp ha
    obtain ⟨takes₁, b₁, hcall', h₁⟩ := h.call hc hcall
    obtain ⟨takes', b', hb, h'⟩ := ih h₁ ha
    refine ⟨takes', b', ?_, h'⟩
    rw [List.foldlM_cons, hcall', ok_bind]
    exact hb

theorem paired_start (hc : c.WellNamed) (hw : w.disk.Sound)
    (hfaithful : ∀ directory, (w.disk.makeDirectories dir).2.Resolves dir directory →
      (w.disk.makeDirectories dir).2.FaithfulAt (WritesAt c directory))
    (hnew : (w.disk.makeDirectories dir).2.exists? (dir.join ⟨c.manifestName⟩) = false)
    (hs : Session.start dir c w = .ok a) : ∃ directory, Paired c dir directory [] a a := by
  unfold Session.start at hs
  split at hs
  · rename_i x w₁ ho
    cases hs
    obtain ⟨directory, hshown⟩ := shown_open hc hw hfaithful hnew ho
    obtain ⟨d, r, hd, rfl, rfl, ⟨_, rfl⟩ | ⟨hload, _⟩⟩ := open_eq_ok ho
    · exact ⟨directory, ⟨hshown, hshown, rfl, rfl, rfl, .refl dir, rfl, nofun⟩, rfl⟩
    · rw [hd] at hnew
      exact absurd hload (load_absent hnew)
  · cases hs

/-- In a directory that had no manifest, on storage that keeps what is written to it: a run that comes
to its end comes to the same end however often it is interrupted, with the same disk to the byte,
the same list and the same segment files. -/
theorem resumed_same {calls : List Session.Call} {files : List Path} (hc : c.WellNamed)
    (hw : w.disk.Sound)
    (hfaithful : ∀ directory, (w.disk.makeDirectories dir).2.Resolves dir directory →
      (w.disk.makeDirectories dir).2.FaithfulAt (WritesAt c directory))
    (hnew : (w.disk.makeDirectories dir).2.exists? (dir.join ⟨c.manifestName⟩) = false)
    (hr : Session.run dir c w (calls.map Session.Call.straight) false = .ok (r, w', files))
    (last : Bool) :
    ∃ q v files', Session.run dir c w calls last = .ok (q, v, files') ∧ v.disk = w'.disk ∧
      q.manifest = r.manifest ∧ SameFiles files files' := by
  unfold Session.run at hr
  obtain ⟨a₀, hstart, hr⟩ := bind_eq_ok.mp hr
  obtain ⟨a₁, hcalls, hr⟩ := bind_eq_ok.mp hr
  rw [show a₁.resume false = .ok a₁ from rfl, ok_bind] at hr
  obtain ⟨hfinish, rfl⟩ := Session.finish_eq_ok.mp hr
  obtain ⟨directory, h₀⟩ := paired_start hc hw hfaithful hnew hstart
  obtain ⟨takes, b₁, hcalls', h₁⟩ := h₀.calls hc hcalls
  obtain ⟨b₂, hresume, h₂⟩ := h₁.toTwins.resume hc last
  obtain ⟨q, v, hfinish', hd, hm⟩ := h₂.first.live.finish_same h₂.second.live h₂.disk hfinish
  refine ⟨q, v, b₂.files, ?_, hd, hm, h₂.files⟩
  unfold Session.run
  simp only [hstart, hcalls', hresume, ok_bind]
  exact Session.finish_eq_ok.mpr ⟨hfinish', rfl⟩

end

def interruptedTwice : List Session.Call := [.begin true 10, .sample ⟨12, 0⟩, .begin true 20]

theorem resumed_same_twice : ∃ r w files q v files',
    Session.run ⟨"rec"⟩ {} blankWorld (interruptedTwice.map Session.Call.straight) false =
      .ok (r, w, files) ∧
    Session.run ⟨"rec"⟩ {} blankWorld interruptedTwice true = .ok (q, v, files') ∧
    v.disk = w.disk ∧ files = [⟨"rec/seg-00000.ts"⟩, ⟨"rec/seg-00001.ts"⟩] ∧
    SameFiles files files' ∧ q.manifest.finished = true ∧
    (q.manifest.items.map fun s => (s.path.text, s.start, s.stop)) =
      [("seg-00000.ts", 10, 12), ("seg-00001.ts", 20, 20)] := by
  have hstraight : (Session.run ⟨"rec"⟩ {} blankWorld
      (interruptedTwice.map Session.Call.straight) false).map (fun x => (x.2.2,
        x.1.manifest.finished, x.1.manifest.items.map fun s => (s.path.text, s.start, s.stop))) =
      .ok ([⟨"rec/seg-00000.ts"⟩, ⟨"rec/seg-00001.ts"⟩], true,
        [("seg-00000.ts", 10, 12), ("seg-00001.ts", 20, 20)]) := by decide +kernel
  obtain ⟨⟨r, w, files⟩, hr, hx⟩ := map_eq_ok.mp hstraight
  obtain ⟨hfiles, hx⟩ := Prod.mk.inj hx
  obtain ⟨hfinished, hrows⟩ := Prod.mk.inj hx
  obtain ⟨q, v, files', hq, hd, hm, hsame⟩ := resumed_same wellNamed_default (Disk.sound_blank _)
    (fun _ => holdsNoFile_blank.faithfulAt) (by decide +kernel) hr true
  rw [← hm] at hfinished hrows
  exact ⟨r, w, files, q, v, files', hr, hq, hd, hfiles, hsame, hfinished, hrows⟩

end Recorder

end Timeshift
