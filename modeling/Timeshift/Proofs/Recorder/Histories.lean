import Timeshift.Proofs.Recorder.Handing
import Timeshift.Proofs.Recording.Refusing

/-!
# One session after another

Whatever sessions there were in a directory, each place of the list is the number in the name that
stands there. So the next name is a new one, whatever the settings were that the others were made
with, and no segment is turned away because it is listed.
-/

namespace Timeshift

namespace Recording

section
variable {r : Recording} {path : SegmentPath} {start : UInt64} {err : Error} {w w' : World}

/-- The one message ends in a digit, the other does not. -/
theorem early_ne_listed (path other : SegmentPath) (start previous : UInt64) :
    s!"segment {path} starts at {start} before previous segment start {previous}" ≠
      s!"segment {other} is already in the list" := by
  have hdigits : (toString previous).toList = Nat.toDigits 10 previous.toNat :=
    String.toList_ofList
  obtain ⟨a, ha⟩ := Option.ne_none_iff_exists'.mp (mt List.getLast?_eq_none_iff.mp
    (Nat.toDigits_ne_nil (n := previous.toNat) (b := 10)))
  have hdigit := Nat.isDigit_of_mem_toDigits (by decide) (by decide) (List.mem_of_getLast? ha)
  intro h
  have hlast := congrArg (fun s => s.toList.getLast?) h
  simp only [String.toList_append, List.getLast?_append] at hlast
  rw [hdigits, ha] at hlast
  have hend : some a = some 't' := hlast
  cases hend
  cases hdigit

theorem Refused.listed_of_message {other : SegmentPath}
    (h : Refused r path start (.invalidInput s!"segment {other} is already in the list")) :
    path.text ∈ r.names := by
  generalize herr : Error.invalidInput s!"segment {other} is already in the list" = err at h
  cases h with
  | finished _ => cases herr
  | early _ _ _ => exact absurd (Error.invalidInput.inj herr).symm (early_ne_listed _ _ _ _)
  | listed _ _ hs hpath => exact List.mem_map.mpr ⟨_, hs, congrArg SegmentPath.text hpath⟩

theorem append_not_listed (hn : path.text ∉ r.names)
    (h : r.append path start w = (.error err, w')) (other : SegmentPath) :
    err ≠ .invalidInput s!"segment {other} is already in the list" := by
  rintro rfl
  rcases append_error_cases h with ⟨hdeclined, _⟩ | ⟨_, _, herr, _⟩
  · generalize herr : Error.invalidInput s!"segment {other} is already in the list" = err
      at hdeclined
    cases hdeclined with
    | refused hr => exact hn (herr ▸ hr).listed_of_message
    | unrecordable _ hu =>
      cases hu with
      | @unopened cause _ =>
        exact Error.FromStorage.ne_invalidInput ⟨cause, .inr ⟨_, rfl⟩⟩ _ herr.symm
      | disordered _ _ => cases herr
  · cases herr

end

end Recording

namespace Recorder

/-- Sessions in the directory, one after another and each with its own settings, from the world `w₀`
on: the recorder that is open now, if there is one, and the world now. Others may do anything but
touch the files that the manifest is stored by. -/
inductive History (settings : RecorderSettings → Prop) (name : String) (directory : Name)
    (w₀ : World) : Option Recorder → World → Prop
  | start : History settings name directory w₀ none w₀
  | opened {c : RecorderSettings} {dir : Path} {x : Recorder} {w w' : World} :
      History settings name directory w₀ none w → settings c →
      Recorder.open dir c w = (.ok x, w') → w'.disk.Resolves dir directory →
      History settings name directory w₀ (some x) w'
  | notOpened {c : RecorderSettings} {dir : Path} {err : Error} {w w' : World} :
      History settings name directory w₀ none w → settings c →
      Recorder.open dir c w = (.error err, w') → History settings name directory w₀ none w'
  | began {x x' : Recorder} {start : UInt64} {answer : Except Error Path} {w w' : World} :
      History settings name directory w₀ (some x) w →
      x.beginSegment start w = (answer, x', w') →
      History settings name directory w₀ (some x') w'
  | sampled {x x' : Recorder} {e : Entry} {answer : Except Error Bool} {w w' : World} :
      History settings name directory w₀ (some x) w → x.sample e w = (answer, x', w') →
      History settings name directory w₀ (some x') w'
  | asked {x : Recorder} {w : World} (time : UInt64) :
      History settings name directory w₀ (some x) w → History settings name directory w₀
        (some { x with recording := (x.recording.lookUp time w.disk).2 }) w
  | finished {x : Recorder} {r : Recording} {answer : Except Error Unit} {w w' : World} :
      History settings name directory w₀ (some x) w → x.finish w = (answer, r, w') →
      History settings name directory w₀ none w'
  /-- The recorder is let go, and its recording is not finished. -/
  | dropped {x : Recorder} {w : World} : History settings name directory w₀ (some x) w →
      History settings name directory w₀ none (x.release w)
  /-- The process comes to its end, and nothing more is done. -/
  | stopped {x : Recorder} {w : World} : History settings name directory w₀ (some x) w →
      History settings name directory w₀ none w
  | elsewhere {o : Option Recorder} {w w' : World} : History settings name directory w₀ o w →
      w.disk.LetsBe (DocumentAt name directory) w'.disk → History settings name directory w₀ o w'

section
variable {settings : RecorderSettings → Prop} {name : String} {directory : Name} {w₀ w w' : World}
  {o : Option Recorder} {x x' : Recorder} {start : UInt64} {err : Error}

theorem History.handed (h : History settings name directory w₀ o w) (hs : Shared settings name)
    (h₀ : Handed settings name directory none w₀.disk) :
    Handed settings name directory o w.disk := by
  induction h with
  | start => exact h₀
  | opened _ hc ho hd ih => exact ih.opened hs hc ho hd
  | @notOpened c dir _ w _ _ _ ho ih =>
    have hdisk := disk_open dir c w
    rw [ho] at hdisk
    exact ih.letsBe (hdisk ▸ (Disk.grows_makeDirectories w.disk dir).letsBe _)
  | began _ hb ih => exact ih.began hs hb
  | sampled _ hx ih => exact ih.sampled hx
  | asked time _ ih => exact ih.asked time
  | finished _ hx ih => exact ih.finished hs hx
  | @dropped x w _ ih =>
    have hdisk : (x.release w).disk = w.disk := x.recording.disk_release w
    rw [hdisk]
    exact ih.dropped
  | stopped _ ih => exact ih.dropped
  | elsewhere _ hd ih => exact ih.letsBe hd

theorem handed_start (hw : w₀.disk.Sound)
    (hnew : ∀ i, w₀.disk.node? (documentPlace name directory) ≠ some (.file i))
    (hdraft : ∀ i, w₀.disk.node? (draftPlace name directory) = some (.file i) →
      (w₀.disk.medium i).Honest) : Handed settings name directory none w₀.disk := by
  refine ⟨⟨hw, fun hi => absurd hi (hnew _), fun hi => hdraft _ hi, fun he hi => ?_⟩, nofun⟩
  rw [← he] at hi
  exact absurd hi (hnew _)

/-- A segment with a new name is not turned away because it is listed. -/
theorem beginSegment_not_listed
    (hn : segmentName x.settings x.recording.segments.length ∉ x.recording.names)
    (h : x.beginSegment start w = (.error err, x', w')) (path : SegmentPath) :
    err ≠ .invalidInput s!"segment {path} is already in the list" := by
  rcases beginSegment_eq_error h with ⟨ho, _⟩ | ⟨path', hp, ⟨ha, _⟩ | ⟨r, w₁, _, hs, _⟩⟩
  · unfold SegmentPath.ofString at ho
    split at ho
    · rename_i hempty
      have hlen := congrArg (·.toList.length) hempty
      simp [segmentName] at hlen
    · split at ho
      · cases ho
      · cases ho
        intro herr
        cases herr
  · exact Recording.append_not_listed (hp ▸ hn) ha path
  · exact (Recording.store_error hs).ne_invalidInput _

theorem beginSegment_names {answer : Except Error Path}
    (h : x.beginSegment start w = (answer, x', w')) :
    answer.isOk = false ∧ x'.recording = x.recording ∨ x'.recording.names =
      x.recording.names ++ [segmentName x.settings x.recording.segments.length] := by
  cases answer with
  | ok p =>
    obtain ⟨path, r, w₁, hp, ha, _, _, rfl⟩ := beginSegment_eq_ok.mp h
    exact .inr (hp ▸ Recording.names_append ha)
  | error err =>
    rcases beginSegment_eq_error h with
      ⟨_, rfl, _⟩ | ⟨path, hp, ⟨_, rfl⟩ | ⟨r, w₁, ha, _, rfl⟩⟩
    · exact .inl ⟨rfl, rfl⟩
    · exact .inl ⟨rfl, rfl⟩
    · exact .inr (hp ▸ Recording.names_append ha)

/-- After any sessions that started without a manifest, the recorder that is open lists each segment
at the place that its name has the number of. The next name is not in the list, so no call fails for
that; and a call that does not fail has made it the name at the place of its number. -/
theorem numbering_never_collides (hs : Shared settings name) (hw : w₀.disk.Sound)
    (hnew : ∀ i, w₀.disk.node? (documentPlace name directory) ≠ some (.file i))
    (hdraft : ∀ i, w₀.disk.node? (draftPlace name directory) = some (.file i) →
      (w₀.disk.medium i).Honest)
    (h : History settings name directory w₀ (some x) w) :
    let n := x.recording.segments.length
    let next := segmentName x.settings n
    Numbered x.recording.names ∧ numberIn? next = some n ∧ next ∉ x.recording.names ∧
    ∀ start answer x' w', x.beginSegment start w = (answer, x', w') →
      (∀ path : SegmentPath,
        answer ≠ .error (.invalidInput s!"segment {path} is already in the list")) ∧
      (answer.isOk = false ∧ x'.recording = x.recording ∨
        x'.recording.names = x.recording.names ++ [next]) ∧
      ∀ p, answer = .ok p → ∃ s, x'.recording.segments[n]? = some s ∧ s.file = p ∧
        s.path.text = next := by
  intro n next
  have hat := (h.handed hs (handed_start hw hnew hdraft)).atWork x rfl
  have hnumbered := hat.consistent.numbered
  rw [names_manifest] at hnumbered
  have hnext : numberIn? next = some n := numberIn?_segmentName (hs.checked _ hat.among) n
  have hfresh : next ∉ x.recording.names := by
    refine hnumbered.fresh ?_
    rw [hnext, Recording.names, List.length_map]
  refine ⟨hnumbered, hnext, hfresh, fun start answer x' w' hb => ?_⟩
  refine ⟨?_, beginSegment_names hb, ?_⟩
  · rintro path rfl
    exact beginSegment_not_listed hfresh hb path rfl
  · rintro p rfl
    obtain ⟨s, hentry, hname, hfile, _⟩ := beginSegment_entry hb
    exact ⟨s, hentry, hfile, hname⟩

end

/-! ## Settings that change -/

/-- The names that these settings make look like those of the default settings with a number more. -/
def renamed : RecorderSettings :=
  { segmentStem := "seg-00000", segmentExtension := "m2ts", indexExtension := "pos" }

theorem shared_renamed : Shared (fun c => c = {} ∨ c = renamed) "recording.json" := by
  have hfirst : ∀ (name : String) (c c' : RecorderSettings) (n : Nat), c = {} ∨ c = renamed →
      name.toList.head? ≠ some 's' → name ≠ segmentName c n ++ "." ++ c'.indexExtension := by
    rintro name c c' n (rfl | rfl) h e
    · exact h (by rw [e]; simp [segmentName])
    · exact h (by rw [e]; simp [segmentName, renamed])
  refine ⟨?_, ?_, fun c c' n hc _ => hfirst _ c c' n hc (by decide),
    fun c c' n hc _ => hfirst _ c c' n hc (by decide +kernel)⟩
  · rintro c (rfl | rfl)
    · decide
    · decide +kernel
  · rintro c (rfl | rfl)
    · rfl
    · rfl

def reopened : Except Error Recorder × World :=
  Recorder.open ⟨"rec"⟩ renamed (begun.1.release begun.2)

theorem reopened_isOk :
    (reopened.1.map fun x => (x.settings, x.recording.names)) = .ok (renamed, ["seg-00000.ts"]) ∧
      (reopened.1.map fun x => (x.beginSegment 20 reopened.2).1.isOk) = .ok true ∧
      reopened.2.disk.Resolves ⟨"rec"⟩ ["work".toList, "rec".toList] := by
  unfold Disk.Resolves
  decide +kernel

theorem reopened_history : ∃ x w, reopened = (.ok x, w) ∧
    History (fun c => c = {} ∨ c = renamed) "recording.json" ["work".toList, "rec".toList]
      blankWorld (some x) w ∧
    x.settings = renamed ∧ x.recording.names = ["seg-00000.ts"] ∧
    (x.beginSegment 20 w).1.isOk = true := by
  have ho : Recorder.open ⟨"rec"⟩ {} blankWorld = (.ok opened.1, opened.2) := rfl
  obtain ⟨_, hb⟩ := eq_of_isOk (s := begun) rfl sampled_isOk.1
  obtain ⟨hrecorder, hbegin, hresolves⟩ := reopened_isOk
  cases hr : reopened with
  | mk result w =>
    rw [hr] at hrecorder hbegin hresolves
    cases result with
    | error err => cases hrecorder
    | ok x =>
      obtain ⟨hsettings, hnames⟩ := Prod.mk.inj (Except.ok.inj hrecorder)
      refine ⟨x, w, rfl, ?_, hsettings, hnames, Except.ok.inj hbegin⟩
      apply History.opened _ (.inr rfl) hr hresolves
      exact ((History.start.opened (.inl rfl) ho rfl).began hb).dropped

theorem vacant_blankWorld :
    blankWorld.disk.node? (documentPlace "recording.json" ["work".toList, "rec".toList]) = none ∧
      blankWorld.disk.node? (draftPlace "recording.json" ["work".toList, "rec".toList]) = none := by
  decide +kernel

/-- The second session goes on with the number that comes next. -/
theorem numbering_never_collides_renamed : ∃ x w p x' w', reopened = (.ok x, w) ∧
    x.recording.names = ["seg-00000.ts"] ∧ x.beginSegment 20 w = (.ok p, x', w') ∧
    x'.recording.names = ["seg-00000.ts", "seg-00000-00001.m2ts"] := by
  obtain ⟨x, w, hr, hhistory, hsettings, hnames, hok⟩ := reopened_history
  obtain ⟨hdocument, hdraft⟩ := vacant_blankWorld
  obtain ⟨_, _, _, hcall⟩ := numbering_never_collides shared_renamed (Disk.sound_blank _)
    (fun i hi => by rw [hdocument] at hi; cases hi) (fun i hi => by rw [hdraft] at hi; cases hi)
    hhistory
  obtain ⟨p, hb⟩ := eq_of_isOk rfl hok
  obtain ⟨_, ⟨hfailed, _⟩ | hlist, _⟩ := hcall 20 _ _ _ hb
  · cases hfailed
  · have hlength : x.recording.segments.length = 1 := by
      rw [← List.length_map, ← Recording.names, hnames]
      rfl
    refine ⟨x, w, p, _, _, hr, hnames, hb, ?_⟩
    rw [hlist, hnames, hlength, hsettings]
    decide +kernel

end Recorder

end Timeshift
