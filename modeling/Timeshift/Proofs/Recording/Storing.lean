import Timeshift.Proofs.Disk.Replace
import Timeshift.Proofs.Recording.Steps

/-!
# Storing and loading

A recording that any run of the operations made breaks no rule of a manifest, so what is stored can
be loaded, and gives the same segments in the same places. The directory of a manifest is computed
from its path; it only has to be equal, as a path, to the one that the recording was made with.
-/

namespace Timeshift

namespace Manifest

theorem text_ne_nil (m : Manifest) : Utf8.encode m.text ≠ [] := by
  intro h
  have hdecode := Utf8.decode?_encode m.text
  rw [h, show Utf8.decode? [] = some "" from rfl, Option.some.injEq] at hdecode
  have hread := ofText_text m
  rw [← hdecode] at hread
  have hempty : (ofText "").isOk = false := by decide +kernel
  rw [hread] at hempty
  cases hempty

theorem load_of_text {m : Manifest} {path : Path} {d : Disk} {text : String}
    (h : d.read path = .ok (Utf8.encode text)) (hm : ofText text = .ok m) :
    load path d = match m.fault? with
      | none => .ok m
      | some fault => .error (.corrupt s!"{path}: {fault.message}") := by
  unfold load
  rw [Disk.readText_of_read h, mapError_ok, ok_bind, hm, mapError_ok, ok_bind]
  rfl

theorem load_of_read {m : Manifest} {path : Path} {d : Disk} (hf : m.fault? = none)
    (h : d.read path = .ok (Utf8.encode m.text)) : load path d = .ok m := by
  rw [load_of_text h (ofText_text m), hf]

theorem read_stored {m : Manifest} {path : Path} {d d' : Disk} (hd : d.Sound)
    (hm : ∀ i, d.lookUp (path.withExtension "tmp") = .ok (.file i) → (d.medium i).Honest)
    (h : m.store path d = (.ok (), d')) : d'.read path = .ok (Utf8.encode m.text) := by
  obtain ⟨_, _, i, _, hq, hr, hc⟩ := Disk.replace_ok hd hm (text_ne_nil m) h
  exact Disk.read_eq_ok.mpr ⟨i, hr.lookUp hq, hc⟩

theorem load_stored {m : Manifest} {path : Path} {d d' : Disk} (hf : m.fault? = none)
    (hd : d.Sound)
    (hm : ∀ i, d.lookUp (path.withExtension "tmp") = .ok (.file i) → (d.medium i).Honest)
    (h : m.store path d = (.ok (), d')) :
    d'.read path = .ok (Utf8.encode m.text) ∧ load path d' = .ok m :=
  ⟨read_stored hd hm h, load_of_read hf (read_stored hd hm h)⟩

theorem load_file {m : Manifest} {path : Path} {d : Disk} (h : load path d = .ok m) :
    ∃ i text, d.lookUp path = .ok (.file i) ∧ d.content i = Utf8.encode text ∧
      ofText text = .ok m := by
  obtain ⟨text, htext, h⟩ := bind_eq_ok.mp h
  obtain ⟨m', hm, h⟩ := bind_eq_ok.mp h
  have hsame : m' = m := by
    split at h
    · cases h
      rfl
    · cases h
  obtain ⟨bs, hbs, htext⟩ := bind_eq_ok.mp (mapError_eq_ok.mp htext)
  obtain ⟨i, hi, rfl⟩ := Disk.read_eq_ok.mp hbs
  split at htext
  · rename_i hdecode
    cases htext
    exact ⟨i, text, hi, Utf8.decode?_eq_some.mp hdecode, hsame ▸ mapError_eq_ok.mp hm⟩
  · cases htext

end Manifest

namespace Recording

/-- A recording as the operations make it, each in whatever state it finds the disk. One that fails
leaves the recording as it was. -/
inductive Reachable : Recording → Prop
  | empty {extension : String} (h : extension ≠ "") (base : Option Path) :
      Reachable (empty extension base)
  | load {path : Path} {d : Disk} {r : Recording} : load path d = .ok r → Reachable r
  | append {r r' : Recording} {path : SegmentPath} {start : UInt64} {w w' : World} :
      Reachable r → r.append path start w = (.ok r', w') → Reachable r'
  | record {r r' : Recording} {e : Entry} {w w' : World} :
      Reachable r → r.record e w = (.ok r', w') → Reachable r'
  | finish {r : Recording} (w : World) : Reachable r → Reachable (r.finish w).1

section
variable {r : Recording}

theorem load_fault? {path : Path} {d : Disk} {m : Manifest} (h : Manifest.load path d = .ok m) :
    m.fault? = none := by
  unfold Manifest.load at h
  obtain ⟨text, _, h⟩ := bind_eq_ok.mp h
  obtain ⟨m', _, h⟩ := bind_eq_ok.mp h
  split at h
  · rename_i hf
    cases h
    exact hf
  · cases h

theorem load_file {path : Path} {d : Disk} (h : load path d = .ok r) :
    ∃ i, d.lookUp path = .ok (.file i) := by
  obtain ⟨m, hm, _⟩ := load_eq_ok.mp h
  obtain ⟨i, _, hi, _⟩ := Manifest.load_file hm
  exact ⟨i, hi⟩

theorem store_error {path : Path} {w w' : World} {err : Error}
    (h : r.store path w = (.error err, w')) : err.FromStorage := by
  unfold store at h
  cases hs : r.manifest.store path w.disk with
  | mk result d =>
    rw [hs] at h
    cases h
    exact Disk.replace_error hs

theorem Reachable.listed (h : r.Reachable) : r.Listed := by
  induction h with
  | empty h base => exact listed_empty h base
  | load h =>
    obtain ⟨m, hm, rfl⟩ := load_eq_ok.mp h
    exact listed_ofManifest (load_fault? hm) _
  | append _ h ih => exact ih.append h
  | record _ h ih => exact ih.record h
  | finish w _ ih => exact ih.finish w

theorem Listed.fault? (h : r.Listed) : r.manifest.fault? = none :=
  Manifest.fault?_eq_none.mpr ⟨rfl, h.extension, h.inOrder⟩

/-! ## The places of the segments -/

/-- The directory that relative paths start from; without one that is the empty path. -/
def directory (r : Recording) : Path := r.base.getD ⟨""⟩

theorem directory_congr {r' : Recording} (h : r'.base = r.base) : r'.directory = r.directory := by
  unfold directory
  rw [h]

theorem fileOf_eq (r : Recording) (p : SegmentPath) : r.fileOf p = r.directory.join p.path := by
  unfold fileOf directory
  cases r.base with
  | some d => rfl
  | none =>
    simp only [Option.getD_none, Path.join]
    split
    · rfl
    · simp

theorem directory_baseOf (path : Path) : (baseOf path).getD ⟨""⟩ = path.parent?.getD ⟨""⟩ := by
  unfold baseOf
  cases path.parent? with
  | none => rfl
  | some p =>
    by_cases h : p.text = ""
    · rw [Path.eq_of_text_empty h]
      rfl
    · rw [Option.filter_some, if_pos (by simpa using h)]

structure Restored (s t : Segment) : Prop where
  path : t.path = s.path
  start : t.start = s.start
  stop : t.stop = s.stop
  file : Path.Same t.file s.file
  index : Path.Same t.index s.index
  inactive : t.isActive = false

/-- Whatever run made the recording, storing it where it belongs and loading that gives it back, with
no segment active. Stored again it comes out the same. -/
theorem load_store {path : Path} {w w' : World} (hr : r.Reachable)
    (hp : Path.Same (path.parent?.getD ⟨""⟩) r.directory) (hd : w.disk.Sound)
    (hm : ∀ i, w.disk.lookUp (path.withExtension "tmp") = .ok (.file i) →
      (w.disk.medium i).Honest)
    (hs : r.store path w = (.ok (), w')) :
    w'.disk.read path = .ok (Utf8.encode r.manifest.text) ∧
      ∃ r' : Recording, load path w'.disk = .ok r' ∧ r'.extension = r.extension ∧
        r'.finished = r.finished ∧ r'.segments.length = r.segments.length ∧
        (∀ (k : Nat) (s t : Segment), r.segments[k]? = some s → r'.segments[k]? = some t →
          Restored s t) ∧
        ∀ q v, r'.store q v = r.store q v := by
  have hl := hr.listed
  unfold store at hs
  cases hst : r.manifest.store path w.disk with
  | mk result d =>
    rw [hst] at hs
    cases hs
    obtain ⟨hread, hload⟩ := Manifest.load_stored hl.fault? hd hm hst
    refine ⟨hread, ofManifest (baseOf path) r.manifest, load_eq_ok.mpr ⟨_, hload, rfl⟩, rfl, rfl,
      ?_, fun k s t hk ht => ?_, fun q v => ?_⟩
    · simp [ofManifest, manifest_items]
    · have hsame : Path.Same ((baseOf path).getD ⟨""⟩) r.directory := by rwa [directory_baseOf]
      have hmem := List.mem_of_getElem? hk
      simp only [ofManifest, manifest_items, List.map_map, List.getElem?_map, hk,
        Option.map_some, Option.some.injEq, Function.comp_apply, Segment.item] at ht
      have hfile : Path.Same (fileOf ⟨[], r.extension, baseOf path, r.finished⟩ s.path) s.file := by
        rw [hl.file s hmem, fileOf_eq, fileOf_eq]
        exact hsame.join _
      have hindex : Path.Same ((fileOf ⟨[], r.extension, baseOf path, r.finished⟩ s.path).indexPath
          r.extension) s.index := by
        have hne : s.path.path.text ≠ "" := s.path.nonempty
        rw [hl.index s hmem, hl.file s hmem, fileOf_eq, fileOf_eq, Path.indexPath_join hne,
          Path.indexPath_join hne]
        exact hsame.join _
      subst ht
      exact ⟨rfl, rfl, rfl, hfile, hindex, rfl⟩
    · -- a store sees nothing of a recording but its manifest
      have hm : (ofManifest (baseOf path) r.manifest).manifest = r.manifest := by
        simp [ofManifest, manifest, Function.comp_def]
      unfold store
      rw [hm]

end

def oddName : SegmentPath := ⟨"\"\\\n.ts", by decide, by decide⟩

def oddRecording : Recording where
  segments := [⟨oddName, ⟨"./\"\\\n.ts"⟩, ⟨"./\"\\\n.ts.idx"⟩, 5, 9, none, none⟩]
  extension := "idx"
  base := some ⟨"."⟩
  finished := true

def oddPath : Path := ⟨".//recording.json"⟩

def oddWorld : World := ⟨.blank ["work".toList], []⟩

theorem reachable_oddRecording : oddRecording.Reachable := by
  have hnew : (empty "idx" (some ⟨"."⟩)).Reachable := .empty (by decide) _
  have happend := @Reachable.append _ _ oddName 5 oddWorld _ hnew rfl
  have hrecord := @Reachable.record _ _ ⟨9, 0⟩
    ((empty "idx" (some ⟨"."⟩)).append oddName 5 oddWorld).2 _ happend rfl
  exact hrecord.finish oddWorld

/-- Such a name is stored and comes back, also where the directory is written in another way. -/
theorem load_store_odd : ∃ w', oddRecording.store oddPath oddWorld = (.ok (), w') ∧
    ∃ r : Recording, load oddPath w'.disk = .ok r ∧ r.segments.length = 1 ∧
      ∀ q v, r.store q v = oddRecording.store q v := by
  have hok : (oddRecording.store oddPath oddWorld).1 = .ok () :=
    eq_ok_of_isOk (by decide +kernel)
  have hnone : (oddWorld.disk.lookUp (oddPath.withExtension "tmp")).isOk = false := by
    decide +kernel
  have hs : oddRecording.store oddPath oddWorld =
      (.ok (), (oddRecording.store oddPath oddWorld).2) := by rw [← hok]
  obtain ⟨_, r, hl, _, _, hn, _, hagain⟩ := load_store reachable_oddRecording (by decide +kernel)
    (Disk.sound_blank _) (fun i h => by rw [h] at hnone; cases hnone) hs
  exact ⟨_, hs, r, hl, hn, hagain⟩

end Recording

end Timeshift
