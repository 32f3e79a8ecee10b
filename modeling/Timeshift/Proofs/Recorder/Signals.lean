import Timeshift.Proofs.Index.Bounds
import Timeshift.Proofs.Recorder.EndToEnd

/-!
# When a segment is full

A segment is due for rotation at a sample that has come so far in bytes or in time. The writer takes
no sample that is earlier than the last one, so if the offsets do not fall either, a segment that is
due stays due: the answers to its accepted samples are `false` up to the first that is due and `true`
from there on.
-/

namespace Timeshift.Recorder

/-! ## The thresholds -/

/-- The sample has come as far as a segment may grow that began at `start`. A threshold of 0 is off. -/
def Due (c : RecorderSettings) (start : UInt64) (e : Entry) : Prop :=
  (c.maxBytes ≠ 0 ∧ c.maxBytes.toNat ≤ e.offset.toNat) ∨
    (c.maxDuration ≠ 0 ∧ start.toNat + c.maxDuration.toNat ≤ e.timestamp.toNat)

instance (c : RecorderSettings) (start : UInt64) (e : Entry) : Decidable (Due c start e) :=
  inferInstanceAs (Decidable (_ ∨ _))

def saturatingSub (a b : UInt64) : UInt64 := if b ≤ a then a - b else 0

/-- The test by a difference that stops at 0, and then the span that is reported, which has to be
one. -/
def checkedFull (c : RecorderSettings) (start : UInt64) (e : Entry) : Except Index.Trap Bool :=
  if 0 < c.maxBytes ∧ c.maxBytes ≤ e.offset then .ok true
  else if 0 < c.maxDuration ∧ c.maxDuration ≤ saturatingSub e.timestamp start then
    (Index.Checked.sub e.timestamp start).map fun _ => true
  else .ok false

section
variable {c : RecorderSettings} {start : UInt64} {e f : Entry}

theorem toNat_saturatingSub (a b : UInt64) :
    (saturatingSub a b).toNat = a.toNat - b.toNat := by
  unfold saturatingSub
  by_cases hle : b ≤ a
  · rw [if_pos hle, UInt64.toNat_sub_of_le _ _ hle]
  · have hlt : a.toNat < b.toNat := UInt64.lt_iff_toNat_lt.mp (UInt64.not_le.mp hle)
    rw [if_neg hle, Nat.sub_eq_zero_of_le (Nat.le_of_lt hlt)]
    rfl

/-- A difference that stops at 0 reaches what is above 0 only if it is one. -/
theorem le_saturatingSub {a b m : UInt64} (hm : 0 < m) :
    m ≤ saturatingSub a b ↔ b ≤ a ∧ m ≤ a - b := by
  unfold saturatingSub
  by_cases hle : b ≤ a
  · simp [hle]
  · simp [hle, UInt64.not_le.mpr hm]

theorem isFull_iff_saturatingSub : isFull c start e = true ↔
    0 < c.maxBytes ∧ c.maxBytes ≤ e.offset ∨
      0 < c.maxDuration ∧ c.maxDuration ≤ saturatingSub e.timestamp start := by
  unfold isFull
  simp only [Bool.or_eq_true, Bool.and_eq_true, decide_eq_true_eq, and_assoc]
  exact or_congr_right (and_congr_right fun hset => (le_saturatingSub hset).symm)

/-- Neither a sample before the start nor a threshold beyond the greatest time does any harm. -/
theorem isFull_iff : isFull c start e = true ↔ Due c start e := by
  rw [isFull_iff_saturatingSub, Due, UInt64.pos_iff_ne_zero, UInt64.pos_iff_ne_zero, UInt64.le_iff_toNat_le]
  apply or_congr_right
  apply and_congr_right
  intro hset
  have hpos : 0 < c.maxDuration.toNat := UInt64.lt_iff_toNat_lt.mp (UInt64.pos_iff_ne_zero.mpr hset)
  rw [UInt64.le_iff_toNat_le, toNat_saturatingSub]
  omega

theorem checkedFull_eq (c : RecorderSettings) (start : UInt64) (e : Entry) :
    checkedFull c start e = .ok (isFull c start e) := by
  unfold checkedFull
  by_cases hbytes : 0 < c.maxBytes ∧ c.maxBytes ≤ e.offset
  · rw [if_pos hbytes, isFull_iff_saturatingSub.mpr (.inl hbytes)]
  · rw [if_neg hbytes]
    by_cases hspan : 0 < c.maxDuration ∧ c.maxDuration ≤ saturatingSub e.timestamp start
    · obtain ⟨span, hsub, _⟩ :=
        Index.Checked.sub_eq_ok ((le_saturatingSub hspan.1).mp hspan.2).1
      rw [if_pos hspan, hsub, isFull_iff_saturatingSub.mpr (.inr hspan)]
      rfl
    · have hnot : isFull c start e = false := by
        rw [Bool.eq_false_iff, Ne, isFull_iff_saturatingSub]
        exact not_or.mpr ⟨hbytes, hspan⟩
      rw [if_neg hspan, hnot]

theorem Due.mono (h : Due c start e) (ho : e.offset ≤ f.offset)
    (ht : e.timestamp ≤ f.timestamp) : Due c start f := by
  rcases h with ⟨hset, h⟩ | ⟨hset, h⟩
  · exact .inl ⟨hset, Nat.le_trans h (UInt64.le_iff_toNat_le.mp ho)⟩
  · exact .inr ⟨hset, Nat.le_trans h (UInt64.le_iff_toNat_le.mp ht)⟩

/-- A property that is not lost again holds from its first place on. -/
theorem map_eq_replicate {α : Type} {p : α → Bool} {xs : List α}
    (h : xs.Pairwise fun a b => p a = true → p b = true) :
    xs.map p = List.replicate (xs.findIdx p) false ++
      List.replicate (xs.length - xs.findIdx p) true := by
  induction xs with
  | nil => rfl
  | cons x xs ih =>
    obtain ⟨hx, hxs⟩ := List.pairwise_cons.mp h
    cases hp : p x with
    | true =>
      have hall : xs.map p = List.replicate xs.length true :=
        List.map_eq_replicate_iff.mpr fun y hy => hx y hy hp
      simp [List.findIdx_cons, hp, hall, List.replicate_succ]
    | false => simp [List.findIdx_cons, hp, ih hxs, List.replicate_succ]

end

/-! ## A recorder and its answers -/

structure Signal where
  place : Nat
  sample : Entry
  full : Bool
  deriving DecidableEq

inductive Event
  | begin (start : UInt64)
  | sample (e : Entry)
  | lookUp (time : UInt64)
  | entriesOf (k : Nat)
  | meanwhile (w : World)

structure Log where
  recorder : Recorder
  world : World
  signals : List Signal

namespace Log

def withRecording (l : Log) (r : Recording) : Log :=
  { l with recorder := { l.recorder with recording := r } }

def step (l : Log) : Event → Log
  | .begin start =>
    let (_, x, w) := l.recorder.beginSegment start l.world
    { l with recorder := x, world := w }
  | .sample e =>
    match l.recorder.sample e l.world with
    | (.error _, x, w) => { l with recorder := x, world := w }
    | (.ok full, x, w) => ⟨x, w, l.signals ++ [⟨x.recording.segments.length - 1, e, full⟩]⟩
  | .lookUp time => l.withRecording (l.recorder.recording.lookUp time l.world.disk).2
  | .entriesOf k =>
    l.withRecording (l.recorder.recording.query k (·.entries l.world.disk)).2
  | .meanwhile w => { l with world := w }

def run (l : Log) (events : List Event) : Log := events.foldl step l

def signalsOf (l : Log) (k : Nat) : List Signal := l.signals.filter (·.place = k)

end Log

def Onward (y y' : Index) : Prop := ∀ t ∈ y.tail, ∃ t' ∈ y'.tail, t.timestamp ≤ t'.timestamp

structure Keeps (r r' : Recording) : Prop where
  length : r.segments.length ≤ r'.segments.length
  segment : ∀ (k : Nat) (s : Segment), r.segments[k]? = some s →
    ∃ s', r'.segments[k]? = some s' ∧ s'.start = s.start ∧
      ∀ y', s'.writer = some y' → ∃ y, s.writer = some y ∧ Onward y y'

/-- Every answer says whether its segment is full, and no writer is behind the samples of its
segment. -/
structure Exact (l : Log) : Prop where
  answered : ∀ g ∈ l.signals, ∃ s, l.recorder.recording.segments[g.place]? = some s ∧
    g.full = isFull l.recorder.settings s.start g.sample
  ascending : l.signals.Pairwise fun g h =>
    g.place = h.place → g.sample.timestamp ≤ h.sample.timestamp
  writer : ∀ g ∈ l.signals, ∀ s y, l.recorder.recording.segments[g.place]? = some s →
    s.writer = some y → ∃ t ∈ y.tail, g.sample.timestamp ≤ t.timestamp

section
variable {r r' : Recording} {s t : Segment} {l : Log} {x : Recorder} {e : Entry} {k : Nat}
  {w w' : World} {path : SegmentPath} {start : UInt64} {gs : List Signal}

/-! ## What a call keeps -/

theorem Onward.refl (y : Index) : Onward y y := fun t ht => ⟨t, ht, UInt64.le_refl _⟩

theorem Onward.trans {y₁ y₂ y₃ : Index} (h : Onward y₁ y₂) (h' : Onward y₂ y₃) :
    Onward y₁ y₃ := by
  intro t ht
  obtain ⟨t', ht', hle⟩ := h t ht
  obtain ⟨t'', ht'', hle'⟩ := h' t' ht'
  exact ⟨t'', ht'', UInt64.le_trans hle hle'⟩

theorem onward_of_write {y y' : Index} (h : y.write e w = (.ok y', w')) : Onward y y' := by
  intro t ht
  rw [Index.write_eq_ok h]
  exact ⟨e, rfl, Index.tail_le_of_write h t ht⟩

theorem Keeps.refl (r : Recording) : Keeps r r :=
  ⟨Nat.le_refl _, fun _ s hs => ⟨s, hs, rfl, fun y hy => ⟨y, hy, .refl y⟩⟩⟩

theorem Keeps.trans {q : Recording} (h : Keeps q r) (h' : Keeps r r') : Keeps q r' := by
  refine ⟨Nat.le_trans h.length h'.length, ?_⟩
  intro k s hs
  obtain ⟨t, ht, hstart, hwriter⟩ := h.segment k s hs
  obtain ⟨u, hu, hstart', hwriter'⟩ := h'.segment k t ht
  refine ⟨u, hu, hstart'.trans hstart, ?_⟩
  intro y₃ hy₃
  obtain ⟨y₂, hy₂, honward'⟩ := hwriter' y₃ hy₃
  obtain ⟨y₁, hy₁, honward⟩ := hwriter y₂ hy₂
  exact ⟨y₁, hy₁, honward.trans honward'⟩

theorem keeps_set (hs : r.segments[k]? = some s) (ht : t.start = s.start)
    (hw : ∀ y', t.writer = some y' → ∃ y, s.writer = some y ∧ Onward y y') :
    Keeps r { r with segments := r.segments.set k t } := by
  refine ⟨by simp, ?_⟩
  intro j u hu
  by_cases hj : j = k
  · subst hj
    rw [hs] at hu
    cases hu
    have hlt := (List.getElem?_eq_some_iff.mp hs).1
    exact ⟨t, by simp [hlt], ht, hw⟩
  · exact ⟨u, by simp [Ne.symm hj, hu], rfl, fun y hy => ⟨y, hy, .refl y⟩⟩

theorem keeps_setLast {init : List Segment} (hr : r.segments = init ++ [s])
    (ht : t.start = s.start)
    (hw : ∀ y', t.writer = some y' → ∃ y, s.writer = some y ∧ Onward y y') :
    Keeps r { r with segments := init ++ [t] } := by
  have hs : r.segments[init.length]? = some s := by rw [hr]; simp
  have hset : init ++ [t] = r.segments.set init.length t := by rw [hr]; simp
  rw [hset]
  exact keeps_set hs ht hw

theorem keeps_concat (r : Recording) (s : Segment) :
    Keeps r { r with segments := r.segments ++ [s] } := by
  refine ⟨by simp, ?_⟩
  intro k t ht
  have hk := (List.getElem?_eq_some_iff.mp ht).1
  exact ⟨t, by rw [List.getElem?_append_left hk, ht], rfl, fun y hy => ⟨y, hy, .refl y⟩⟩

theorem keeps_append (h : r.append path start w = (.ok r', w')) : Keeps r r' := by
  obtain ⟨_, x, w₁, _, rfl, _⟩ := Recording.append_eq_ok.mp h
  have hfinish : Keeps r (r.finishLast w₁).1 := by
    rcases Recording.finishLast_cases r w₁ with ⟨_, hf⟩ | ⟨init, s, hr, hf⟩
    · rw [hf]
      exact .refl r
    · rw [hf]
      apply keeps_setLast hr (s.finish_samePlace w₁).start
      intro y hy
      rw [s.finish_inactive w₁] at hy
      cases hy
  exact hfinish.trans (keeps_concat _ _)

theorem keeps_beginSegment (x : Recorder) (start : UInt64) (w : World) :
    Keeps x.recording (x.beginSegment start w).2.1.recording ∧
      (x.beginSegment start w).2.1.settings = x.settings := by
  unfold beginSegment
  cases SegmentPath.ofString (segmentName x.settings x.recording.segments.length) with
  | error err => exact ⟨.refl _, rfl⟩
  | ok path =>
    cases ha : x.recording.append path start w with
    | mk result w₁ =>
      cases result with
      | error err =>
        simp only [ha]
        exact ⟨.refl _, trivial⟩
      | ok r =>
        simp only [ha]
        exact ⟨keeps_append ha, trivial⟩

theorem keeps_record (h : r.record e w = (.ok r', w')) : Keeps r r' ∧
    ∃ s y, r'.segments[r'.segments.length - 1]? = some s ∧ s.writer = some y ∧
      y.tail = some e := by
  obtain ⟨init, s, y, y', hr, hy, hwrite, rfl⟩ := Recording.record_eq_ok h
  constructor
  · refine keeps_setLast hr (by rfl) ?_
    intro z hz
    cases hz
    exact ⟨y, hy, onward_of_write hwrite⟩
  · refine ⟨{ s with writer := some y', stop := max s.stop e.timestamp }, y', by simp, rfl, ?_⟩
    rw [Index.write_eq_ok hwrite]

theorem keeps_asked {α : Type} {ask : Index → Except Error α} {d : Disk}
    (hs : r.segments[k]? = some s) :
    Keeps r { r with segments := r.segments.set k (s.query ask d).2 } := by
  have hsame := s.query_sameButReader ask d
  apply keeps_set hs hsame.samePlace.start
  intro y hy
  rw [hsame] at hy
  exact ⟨y, hy, .refl y⟩

theorem keeps_lookUp (r : Recording) (time : UInt64) (d : Disk) :
    Keeps r (r.lookUp time d).2 := by
  rcases r.lookUp_recording time d with h | ⟨k, s, hs, h⟩
  · rw [h]
    exact .refl r
  · rw [h]
    exact keeps_asked hs

theorem keeps_entriesOf (r : Recording) (k : Nat) (d : Disk) :
    Keeps r (r.query k (·.entries d)).2 := by
  unfold Recording.query
  cases hs : r.segments[k]? with
  | none => exact .refl r
  | some s => exact keeps_asked hs

/-! ## What an event keeps -/

theorem Exact.keeps (h : Exact l) (hk : Keeps l.recorder.recording x.recording)
    (hc : x.settings = l.recorder.settings) (w : World) : Exact ⟨x, w, l.signals⟩ := by
  refine ⟨?_, h.ascending, ?_⟩
  · intro g hg
    obtain ⟨s, hs, hfull⟩ := h.answered g hg
    obtain ⟨s', hs', hstart, _⟩ := hk.segment _ s hs
    exact ⟨s', hs', by rw [hc, hstart, hfull]⟩
  · intro g hg s' y' hs' hy'
    obtain ⟨s, hs, _⟩ := h.answered g hg
    obtain ⟨_, hsame, _, hwriter⟩ := hk.segment _ s hs
    obtain rfl := Option.some.inj (hs'.symm.trans hsame)
    obtain ⟨y, hy, honward⟩ := hwriter y' hy'
    obtain ⟨t, ht, hle⟩ := h.writer g hg s y hs hy
    obtain ⟨t', ht', hle'⟩ := honward t ht
    exact ⟨t', ht', UInt64.le_trans hle hle'⟩

/-- A new answer comes behind all others of its segment, since the writer is behind none of them. -/
theorem Exact.push {y : Index} (h : Exact ⟨x, w, gs⟩) (hs : x.recording.segments[k]? = some s)
    (hy : s.writer = some y) (ht : y.tail = some e) :
    Exact ⟨x, w, gs ++ [⟨k, e, isFull x.settings s.start e⟩]⟩ := by
  refine ⟨?_, ?_, ?_⟩
  · intro g hg
    rcases List.mem_append.mp hg with hg | hg
    · exact h.answered g hg
    · cases List.mem_singleton.mp hg
      exact ⟨s, hs, rfl⟩
  · apply List.pairwise_append.mpr
    refine ⟨h.ascending, List.pairwise_singleton _ _, ?_⟩
    intro g hg g' hg' hplace
    cases List.mem_singleton.mp hg'
    obtain ⟨t, ht', hle⟩ := h.writer g hg s y (hplace ▸ hs) hy
    obtain rfl : e = t := Option.some.inj (ht.symm.trans ht')
    exact hle
  · intro g hg u z hu hz
    rcases List.mem_append.mp hg with hg | hg
    · exact h.writer g hg u z hu hz
    · cases List.mem_singleton.mp hg
      obtain rfl := Option.some.inj (hs.symm.trans hu)
      obtain rfl := Option.some.inj (hy.symm.trans hz)
      exact ⟨e, ht, UInt64.le_refl _⟩

theorem fillsSegment_eq (hs : x.recording.segments[x.recording.segments.length - 1]? = some s)
    (e : Entry) : x.fillsSegment e = isFull x.settings s.start e := by
  unfold fillsSegment
  rw [List.getLast?_eq_getElem?, hs]
  rfl

theorem step_sample_error (h : (l.recorder.sample e l.world).1.isOk = false) :
    ∃ w, l.step (.sample e) = { l with world := w } := by
  unfold sample at h
  simp only [Log.step, sample]
  cases hr : l.recorder.recording.record e l.world with
  | mk result w =>
    rw [hr] at h
    cases result with
    | error err => exact ⟨w, rfl⟩
    | ok r => cases h

theorem Exact.step (h : Exact l) (v : Event) : Exact (l.step v) := by
  cases v with
  | begin start =>
    obtain ⟨hk, hc⟩ := keeps_beginSegment l.recorder start l.world
    exact h.keeps hk hc _
  | sample e =>
    simp only [Log.step, sample]
    cases hr : l.recorder.recording.record e l.world with
    | mk result w =>
      cases result with
      | error err => exact h.keeps (.refl _) rfl w
      | ok r =>
        obtain ⟨hk, s, y, hs, hy, ht⟩ := keeps_record hr
        simp only
        rw [fillsSegment_eq hs]
        exact (h.keeps (x := { l.recorder with recording := r }) hk rfl w).push hs hy ht
  | lookUp time =>
    exact h.keeps (x := (l.withRecording _).recorder) (keeps_lookUp _ time _) rfl _
  | entriesOf k =>
    exact h.keeps (x := (l.withRecording _).recorder) (keeps_entriesOf _ k _) rfl _
  | meanwhile w => exact h.keeps (.refl _) rfl w

theorem settings_step (l : Log) (v : Event) : (l.step v).recorder.settings = l.recorder.settings := by
  cases v with
  | begin start => exact (keeps_beginSegment l.recorder start l.world).2
  | sample e =>
    simp only [Log.step, sample]
    cases hr : l.recorder.recording.record e l.world with
    | mk result w => cases result <;> rfl
  | lookUp time => rfl
  | entriesOf k => rfl
  | meanwhile w => rfl

theorem Exact.run (h : Exact l) (vs : List Event) :
    Exact (l.run vs) ∧ (l.run vs).recorder.settings = l.recorder.settings := by
  induction vs generalizing l with
  | nil => exact ⟨h, rfl⟩
  | cons v vs ih =>
    obtain ⟨hrun, hsettings⟩ := ih (h.step v)
    exact ⟨hrun, hsettings.trans (settings_step l v)⟩

theorem exact_start (x : Recorder) (w : World) : Exact ⟨x, w, []⟩ :=
  ⟨nofun, .nil, nofun⟩

end

/-- Over any run of a recorder, whatever others do to its world, the answers to the accepted samples
of a segment say whether each is due. If the offsets do not fall they are `false` up to the first
that is due and `true` from there on. No span is taken where there is none, and a sample that is not
accepted leaves no trace. -/
theorem signals_exact (x : Recorder) (w : World) (vs : List Event) {k : Nat} {s : Segment}
    (hs : ((Log.run ⟨x, w, []⟩ vs).recorder.recording.segments)[k]? = some s)
    (ho : ((Log.run ⟨x, w, []⟩ vs).signalsOf k).Pairwise fun g h =>
      g.sample.offset ≤ h.sample.offset) :
    let l := Log.run ⟨x, w, []⟩ vs
    let row := l.signalsOf k
    let first := row.findIdx fun g => Due x.settings s.start g.sample
    row.map (·.full) =
        List.replicate first false ++ List.replicate (row.length - first) true ∧
      (∀ g ∈ row, checkedFull x.settings s.start g.sample = .ok g.full) ∧
      ∀ e, (l.recorder.sample e l.world).1.isOk = false →
        ∃ w', l.step (.sample e) = { l with world := w' } := by
  intro l row first
  obtain ⟨hexact, hsettings⟩ := (exact_start x w).run vs
  have hfull : ∀ g ∈ row, g.full = isFull x.settings s.start g.sample := by
    intro g hg
    obtain ⟨hg, hplace⟩ := List.mem_filter.mp hg
    obtain ⟨t, ht, hfull⟩ := hexact.answered g hg
    rw [of_decide_eq_true hplace] at ht
    obtain rfl := Option.some.inj (hs.symm.trans ht)
    rw [hfull, hsettings]
  have hdue : row.map (·.full) = row.map fun g => decide (Due x.settings s.start g.sample) := by
    apply List.map_congr_left
    intro g hg
    rw [hfull g hg, Bool.eq_iff_iff, isFull_iff, decide_eq_true_eq]
  refine ⟨?_, ?_, fun e => step_sample_error⟩
  · rw [hdue]
    apply map_eq_replicate
    -- that the timestamps do not fall need not be assumed: the writer sees to it
    have htimes : row.Pairwise fun g h => g.sample.timestamp ≤ h.sample.timestamp := by
      apply (hexact.ascending.filter _).imp_of_mem
      intro g h hg hh hle
      obtain ⟨_, hg⟩ := List.mem_filter.mp hg
      obtain ⟨_, hh⟩ := List.mem_filter.mp hh
      exact hle ((of_decide_eq_true hg).trans (of_decide_eq_true hh).symm)
    apply (ho.and htimes).imp
    rintro g h ⟨hoffset, htime⟩ hg
    exact decide_eq_true ((of_decide_eq_true hg).mono hoffset htime)
  · intro g hg
    rw [checkedFull_eq, hfull g hg]

def limited : RecorderSettings := { maxBytes := 100, maxDuration := 10 }

def limitedRecorder : Recorder :=
  ⟨⟨"rec"⟩, ⟨"rec/recording.json"⟩, limited, .empty "idx" (some ⟨"rec"⟩)⟩

/-- Two segments that begin 16 before the end of time. The first sample of the first is long before
its start and the second one is turned away. -/
def lateEvents : List Event :=
  [.begin 18446744073709551600, .sample ⟨5, 0⟩, .sample ⟨3, 99⟩,
    .sample ⟨18446744073709551609, 50⟩, .lookUp 18446744073709551605,
    .sample ⟨18446744073709551610, 50⟩, .sample ⟨18446744073709551615, 60⟩,
    .begin 18446744073709551600, .sample ⟨7, 99⟩, .sample ⟨7, 100⟩, .sample ⟨8, 100⟩]

def limitedWorld : World := (Recorder.open ⟨"rec"⟩ limited blankWorld).2

theorem signals_exact_late :
    let l := Log.run ⟨limitedRecorder, limitedWorld, []⟩ lateEvents
    Recorder.open ⟨"rec"⟩ limited blankWorld = (.ok limitedRecorder, limitedWorld) ∧
      l.signals.length = 7 ∧ (l.signalsOf 0).map (·.full) = [false, false, true, true] ∧
      (l.signalsOf 1).map (·.full) = [false, true, true] := by
  have hstarts : ∀ k < 2,
      (Log.run ⟨limitedRecorder, limitedWorld, []⟩ lateEvents).recorder.recording.segments[k]?.map
        (·.start) = some 18446744073709551600 := by decide +kernel
  have hoffsets : ∀ k < 2,
      ((Log.run ⟨limitedRecorder, limitedWorld, []⟩ lateEvents).signalsOf k).Pairwise fun g h =>
        g.sample.offset ≤ h.sample.offset := by decide +kernel
  obtain ⟨s, hs, hstart⟩ := Option.map_eq_some_iff.mp (hstarts 0 (by decide))
  obtain ⟨t, ht, hstart'⟩ := Option.map_eq_some_iff.mp (hstarts 1 (by decide))
  have hfirst := (signals_exact _ _ _ hs (hoffsets 0 (by decide))).1
  have hsecond := (signals_exact _ _ _ ht (hoffsets 1 (by decide))).1
  rw [hstart] at hfirst
  rw [hstart'] at hsecond
  refine ⟨rfl, by decide +kernel, hfirst.trans ?_, hsecond.trans ?_⟩
  · decide +kernel
  · decide +kernel

end Timeshift.Recorder
