import Timeshift.Proofs.Disk.Directories
import Timeshift.Proofs.Disk.Stopped
import Timeshift.Proofs.Recording.Storing

/-!
# Storing a manifest is atomic

Whenever the storing of a manifest is stopped, its path can be read as before or holds the new
document in full. This needs the temporary file to be another one: a path with the extension `tmp`
is its own temporary file, and is emptied first.
-/

namespace Timeshift.Manifest

def Stops (m : Manifest) (path : Path) (d d' : Disk) : Prop :=
  d.Stops path (path.withExtension "tmp") (Utf8.encode m.text) d'

def Touched (d : Disk) (path : Path) (n : Name) : Prop :=
  d.LeadsTo (path.withExtension "tmp") n ∨ d.LeadsTo path n

section
variable {m : Manifest} {path : Path} {d d' : Disk}

theorem stops_store (m : Manifest) (path : Path) (d : Disk) :
    m.Stops path d (m.store path d).2 :=
  Disk.stops_replace path (path.withExtension "tmp") (Utf8.encode m.text) d

theorem Stops.spares (h : m.Stops path d d') (hd : d.Sound) :
    Disk.Spares (Touched d path) d d' :=
  (h.outcome hd).spares hd

theorem temporary_ne {n n' : Name} (hpath : path.extension? ≠ some "tmp")
    (hn : d.LeadsTo path n) (hn' : d.LeadsTo (path.withExtension "tmp") n') : n ≠ n' :=
  hn.withExtension_ne hn' (by decide) (by decide) hpath

/-- The path never holds anything but what it held or the new document, and no other file but the
temporary one is ever touched. Each file of the disk has one name (`Disk.Sound.one_name`): hard and
symbolic links, by which the two paths could share a file, are left out. -/
theorem store_atomic (m : Manifest) (path : Path) (hd : d.Sound)
    (hpath : path.extension? ≠ some "tmp")
    (hm : ∀ i, d.lookUp (path.withExtension "tmp") = .ok (.file i) → (d.medium i).Honest) :
    (∀ d', m.Stops path d d' → Disk.Spares (Touched d path) d d' ∧
      ((d'.read path).toOption = (d.read path).toOption ∨
        d'.read path = .ok (Utf8.encode m.text))) ∧
    m.Stops path d (m.store path d).2 ∧
    ∀ d', m.store path d = (.ok (), d') → d'.read path = .ok (Utf8.encode m.text) := by
  refine ⟨fun d' h => ⟨h.spares hd, ?_⟩, stops_store m path d, fun d' h => ?_⟩
  · apply (h.outcome hd).read_path hd _ hm
    intro n n' hn hn'
    exact temporary_ne hpath hn hn'
  · obtain ⟨_, _, i, _, hq, hr, hcontent⟩ := Disk.replace_ok hd hm (text_ne_nil m) h
    exact Disk.read_eq_ok.mpr ⟨i, hr.lookUp hq, hcontent⟩

/-! ## One file on a shelf -/

def shelf (name : String) : Disk where
  here := []
  nodes := [([name.toList], .file 0)]
  files := [(0, { content := [1, 2, 3] })]
  next := 1

theorem sound_shelf (name : String) : (shelf name).Sound := by
  apply Disk.sound_of_nodes
  · rfl
  · intro e he
    rw [List.mem_singleton.mp he]
    rfl
  · intro e he i hi
    rw [List.mem_singleton.mp he] at hi ⊢
    cases hi
    refine ⟨List.cons_ne_nil _ _, Nat.zero_lt_one, fun e' he' _ => ?_⟩
    rw [List.mem_singleton.mp he']

def bare : Manifest := ⟨currentVersion, "idx", false, []⟩

theorem store_atomic_shelf : (shelf "m.json").Sound ∧
    ((shelf "m.json").read ⟨"m.json"⟩).toOption = some [1, 2, 3] ∧
    (∃ d', bare.store ⟨"m.json"⟩ (shelf "m.json") = (.ok (), d') ∧
      d'.read ⟨"m.json"⟩ = .ok (Utf8.encode bare.text)) ∧
    ∀ d', bare.Stops ⟨"m.json"⟩ (shelf "m.json") d' →
      (d'.read ⟨"m.json"⟩).toOption = some [1, 2, 3] ∨
        d'.read ⟨"m.json"⟩ = .ok (Utf8.encode bare.text) := by
  have hread : ((shelf "m.json").read ⟨"m.json"⟩).toOption = some [1, 2, 3] := by decide +kernel
  have hstored : (bare.store ⟨"m.json"⟩ (shelf "m.json")).1.isOk = true := by decide +kernel
  have hnone : ((shelf "m.json").lookUp ((⟨"m.json"⟩ : Path).withExtension "tmp")).isOk = false := by
    decide +kernel
  obtain ⟨hstops, _, hdone⟩ := store_atomic bare ⟨"m.json"⟩ (sound_shelf "m.json")
    (by decide +kernel) fun i hi => by rw [hi] at hnone; cases hnone
  refine ⟨sound_shelf _, hread, ?_, fun d' h => ?_⟩
  · generalize bare.store ⟨"m.json"⟩ (shelf "m.json") = stored at hstored hdone
    obtain ⟨result, d'⟩ := stored
    obtain rfl : result = .ok () := eq_ok_of_isOk hstored
    exact ⟨d', rfl, hdone d' rfl⟩
  · rw [← hread]
    exact (hstops d' h).2

/-- A path that is its own temporary file loses what it held before the document is there. -/
theorem store_not_atomic : (shelf "m.tmp").Sound ∧
    ((shelf "m.tmp").read ⟨"m.tmp"⟩).toOption = some [1, 2, 3] ∧ Utf8.encode bare.text ≠ [] ∧
    ∃ d', bare.Stops ⟨"m.tmp"⟩ (shelf "m.tmp") d' ∧ (d'.read ⟨"m.tmp"⟩).toOption = some [] := by
  refine ⟨sound_shelf _, by decide +kernel, text_ne_nil _, ?_⟩
  refine ⟨_, ⟨[Utf8.encode bare.text], [.create ((⟨"m.tmp"⟩ : Path).withExtension "tmp")], _, ?_,
    rfl, rfl⟩, by decide +kernel⟩
  rw [List.flatten_cons, List.flatten_nil, List.append_nil]

end

end Timeshift.Manifest
