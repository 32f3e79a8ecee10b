import Timeshift.Proofs.Index.Sharing

/-!
# The life of a handle

A handle is open until it is closed and never again after that. Its path and its mode are those it
was opened with. Each operation is asked in whatever world it finds, so that nothing is assumed of
the storage under the file, nor of what others do to it.
-/

namespace Timeshift.Index

inductive Operation
  | length
  | isEmpty
  | first
  | last
  | range
  | entries
  | lookUp (time : UInt64)
  | write (e : Entry)
  | close
  deriving DecidableEq

inductive Answer
  | count (n : Nat)
  | flag (b : Bool)
  | entry (e : Option Entry)
  | range (r : Option (UInt64 × UInt64))
  | entries (es : List Entry)
  | offset (n : UInt64)
  | done
  deriving DecidableEq

def perform (x : Index) (w : World) : Operation → Except Error Answer × Index × World
  | .length => ((x.length w.disk).map .count, x, w)
  | .isEmpty => ((x.isEmpty w.disk).map .flag, x, w)
  | .first => ((x.first? w.disk).map .entry, x, w)
  | .last => ((x.last? w.disk).map .entry, x, w)
  | .range => ((x.range? w.disk).map .range, x, w)
  | .entries => ((x.entries w.disk).map .entries, x, w)
  | .lookUp time => ((x.lookUp time w.disk).map .offset, x, w)
  | .write e =>
    match x.write e w with
    | (.ok x, w) => (.ok .done, x, w)
    | (.error err, w) => (.error err, x, w)
  | .close => ((x.close w.disk).1.map fun _ => .done, (x.close w.disk).2, w)

def after (x : Index) (calls : List (World × Operation)) : Index :=
  calls.foldl (fun x c => (x.perform c.1 c.2).2.1) x

def Spent : Operation → Except Error Answer → Prop
  | .write _, answer => ∃ what, answer = .error (.notWritable what)
  | .close, answer => answer = .ok .done
  | _, answer => answer = .error .closed

section
variable {x : Index} {w : World} {o : Operation} {calls : List (World × Operation)}

/-! ## One operation -/

theorem perform_handle (x : Index) (w : World) (o : Operation) :
    (x.perform w o).2.1.path = x.path ∧ (x.perform w o).2.1.mode = x.mode ∧
      (x.perform w o).2.1.file = if o = .close then none else x.file := by
  cases o with
  | write e =>
    simp only [perform]
    cases hw : x.write e w with
    | mk result w' =>
      cases result with
      | error err => exact ⟨rfl, rfl, rfl⟩
      | ok x' =>
        cases write_eq_ok hw
        exact ⟨rfl, rfl, rfl⟩
  | close =>
    have hclose : (x.close w.disk).2 = { x with file := none } := by
      unfold close
      split <;> rfl
    simp only [perform, hclose]
    exact ⟨trivial, trivial, rfl⟩
  | _ => exact ⟨rfl, rfl, rfl⟩

theorem perform_playback (h : x.mode = .playback) (w : World) (o : Operation) :
    (x.perform w o).2.2 = w := by
  cases o with
  | write e =>
    have hw : x.write e w = (.error (.notWritable s!"{x.path} is open for playback"), w) := by
      unfold write
      rw [h]
    simp only [perform, hw]
  | _ => rfl

theorem close_closed (h : x.file = none) (d : Disk) : x.close d = (.ok (), x) := by
  obtain ⟨path, mode, file, tail, written, recovered⟩ := x
  obtain rfl : file = none := h
  cases mode with
  | record => rfl
  | playback => rfl

theorem close_playback (h : x.mode = .playback) (d : Disk) : (x.close d).1 = .ok () := by
  unfold close
  rw [h]

theorem release_of_close (h : (x.close w.disk).1 = .ok ()) : x.release w = w := by
  unfold release
  rw [h]

theorem perform_closed (h : x.file = none) (w : World) (o : Operation) :
    Spent o (x.perform w o).1 ∧ (x.perform w o).2 = (x, w) := by
  have hbytes : x.bytes w.disk = .error .closed := by
    unfold bytes
    rw [h]
  cases o with
  | write e =>
    obtain ⟨what, hw⟩ : ∃ what, x.write e w = (.error (.notWritable what), w) := by
      unfold write
      rw [h]
      cases x.mode with
      | record => exact ⟨_, rfl⟩
      | playback => exact ⟨_, rfl⟩
    simp only [perform, hw]
    exact ⟨⟨what, rfl⟩, trivial⟩
  | close =>
    simp only [perform, close_closed h]
    exact ⟨rfl, trivial⟩
  | _ =>
    -- every question begins with the bytes of the file
    simp only [perform, length, isEmpty, first?, last?, range?, entries, lookUp, hbytes, error_bind]
    exact ⟨rfl, trivial⟩

theorem perform_rejected {e : Entry} {err : Error}
    (h : (x.perform w (.write e)).1 = .error err) (hr : err.isRejection = true) :
    (x.perform w (.write e)).2 = (x, w) := by
  simp only [perform] at h ⊢
  cases hw : x.write e w with
  | mk result w' =>
    rw [hw] at h
    cases result with
    | ok x' => cases h
    | error err' =>
      cases h
      rw [write_rejected hw hr]

/-! ## A run of operations -/

theorem after_handle (x : Index) (calls : List (World × Operation)) :
    (x.after calls).path = x.path ∧ (x.after calls).mode = x.mode ∧
      ((x.after calls).file = none ↔ x.file = none ∨ ∃ c ∈ calls, c.2 = .close) := by
  induction calls generalizing x with
  | nil => exact ⟨rfl, rfl, by simp [after]⟩
  | cons c calls ih =>
    obtain ⟨hpath, hmode, hfile⟩ := perform_handle x c.1 c.2
    obtain ⟨ihpath, ihmode, ihfile⟩ := ih (x.perform c.1 c.2).2.1
    refine ⟨ihpath.trans hpath, ihmode.trans hmode, ihfile.trans ?_⟩
    rw [hfile]
    by_cases hc : c.2 = .close
    · simp [hc]
    · simp [hc]

theorem open_handle {path : Path} {mode : Mode} {w₀ : World}
    (h : Index.open path mode w₀ = (.ok x, w)) :
    x.path = path ∧ x.mode = mode ∧ x.file ≠ none ∧ (mode = .playback → w = w₀) := by
  unfold Index.open at h
  cases mode with
  | record =>
    obtain ⟨i, d, _, rfl, _⟩ := openRecord_ok h
    exact ⟨rfl, rfl, nofun, nofun⟩
  | playback =>
    obtain ⟨hopen, rfl⟩ := Prod.mk.inj h
    obtain ⟨i, _, _, rfl⟩ := openPlayback_eq_ok.mp hopen
    exact ⟨rfl, rfl, nofun, fun _ => rfl⟩

end

/-- A handle keeps its path and its mode over any run of operations, in whatever worlds they find. It
is closed from the first closing on, whatever came of that: it then answers every question and every
write with a refusal, and neither these nor another closing nor letting it go changes anything. No
operation on a handle for playback changes anything either, and no write that is turned away. -/
theorem handle_lifetime {path : Path} {mode : Mode} {x₀ : Index} {w₀ w₁ : World}
    (h : Index.open path mode w₀ = (.ok x₀, w₁)) (calls : List (World × Operation)) :
    let x := x₀.after calls
    x.path = path ∧ x.mode = mode ∧
      (x.isClosed = true ↔ ∃ c ∈ calls, c.2 = .close) ∧
      (mode = .playback → w₁ = w₀ ∧ ∀ w o, (x.perform w o).2.2 = w ∧ x.release w = w) ∧
      ((∃ c ∈ calls, c.2 = .close) →
        ∀ w o, Spent o (x.perform w o).1 ∧ (x.perform w o).2 = (x, w) ∧ x.release w = w) ∧
      ∀ w e err, (x.perform w (.write e)).1 = .error err → err.isRejection = true →
        (x.perform w (.write e)).2 = (x, w) := by
  intro x
  obtain ⟨hpath, hmode, hopen, hworld⟩ := open_handle h
  obtain ⟨hpath', hmode', hfile⟩ := x₀.after_handle calls
  have hclosed : x.file = none ↔ ∃ c ∈ calls, c.2 = .close := by
    rw [hfile]
    exact or_iff_right hopen
  refine ⟨hpath'.trans hpath, hmode'.trans hmode, ?_, ?_, ?_, ?_⟩
  · rw [← hclosed]
    exact Option.isNone_iff_eq_none
  · rintro rfl
    have hplayback : x.mode = .playback := hmode'.trans hmode
    refine ⟨hworld rfl, fun w o => ⟨perform_playback hplayback w o, ?_⟩⟩
    exact release_of_close (close_playback hplayback w.disk)
  · intro hany w o
    have hnone := hclosed.mpr hany
    obtain ⟨hspent, hsame⟩ := perform_closed hnone w o
    refine ⟨hspent, hsame, release_of_close ?_⟩
    rw [close_closed hnone]
  · intro w e err herr hr
    exact perform_rejected herr hr

def nullWorld : World := ⟨.blank ["work".toList], []⟩

def nullHandle : Index := ⟨⟨"/dev/null"⟩, .record, some 0, none, 0, 0⟩

def nullCalls : List (World × Operation) := [(nullWorld, .write ⟨5, 0⟩), (nullWorld, .close)]

/-- The device can be opened and never synced, so both calls fail; the second one closes the handle. -/
theorem handle_lifetime_null :
    Index.open ⟨"/dev/null"⟩ .record nullWorld = (.ok nullHandle, nullWorld) ∧
      (nullHandle.perform nullWorld (.write ⟨5, 0⟩)).1 = .error (.io .invalidArgument) ∧
      (nullHandle.perform nullWorld .close).1 = .error (.io .invalidArgument) ∧
      (nullHandle.after nullCalls).isClosed = true ∧
      ((nullHandle.after nullCalls).perform nullWorld .entries).1 = .error .closed ∧
      ((nullHandle.after nullCalls).perform nullWorld .close).1 = .ok .done := by
  have hopen : Index.open ⟨"/dev/null"⟩ .record nullWorld = (.ok nullHandle, nullWorld) := rfl
  have hclose : ∃ c ∈ nullCalls, c.2 = .close := ⟨(nullWorld, .close), by simp [nullCalls], rfl⟩
  obtain ⟨_, _, hclosed, _, hspent, _⟩ := handle_lifetime hopen nullCalls
  refine ⟨hopen, by decide +kernel, by decide +kernel, hclosed.mpr hclose, ?_, ?_⟩
  · exact (hspent hclose nullWorld .entries).1
  · exact (hspent hclose nullWorld .close).1

end Timeshift.Index
