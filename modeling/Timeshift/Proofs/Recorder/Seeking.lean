import Timeshift.Proofs.Recorder.Follows
import Timeshift.Proofs.Recording.Asking

/-!
# Seeking in recordings of the same takes

Where a time leads hangs on the starts of the segments and on the index files alone. So all
recordings that follow the same takes give the same answers, through whatever handles they have
open, and their errors differ at most in what they name.
-/

namespace Timeshift

def SameAnswer : Except Error (Segment × UInt64) → Except Error (Segment × UInt64) → Prop
  | .ok (s, m), .ok (t, n) => s.path = t.path ∧ m = n
  | .error e, .error f => e.ctorIdx = f.ctorIdx
  | _, _ => False

theorem SameAnswer.map_eq_ok {a b : Except Error (Segment × UInt64)} {p : SegmentPath × UInt64}
    (h : SameAnswer a b) (ha : a.map (fun x => (x.1.path, x.2)) = .ok p) :
    b.map (fun x => (x.1.path, x.2)) = .ok p := by
  obtain ⟨⟨s, m⟩, rfl, rfl⟩ := Timeshift.map_eq_ok.mp ha
  cases b with
  | ok b => exact congrArg Except.ok (Prod.ext h.1.symm h.2.symm)
  | error e => exact h.elim

namespace Index

end Index

namespace Recorder

section
variable {c : RecorderSettings} {dir : Path} {directory : Name} {d : Disk} {takes : List Take}
  {r r' : Recording}

theorem Follows.lookUp (h : Follows c dir directory d takes r) (time : UInt64) :
    Follows c dir directory d takes (r.lookUp time d).2 := by
  cases hp : r.place? time with
  | none =>
    rw [Recording.lookUp_none hp]
    exact h
  | some k =>
    have hk := Recording.lt_of_place? hp
    have hs := List.getElem?_eq_getElem hk
    have ht := List.getElem?_eq_getElem (h.length_eq ▸ hk)
    obtain ⟨i, hi⟩ := h.indexed k _ _ hs ht
    rw [Recording.lookUp_some hp hs]
    exact h.set hk (Segment.query_sameButReader _ _ d) fun t ht' => by
      rw [ht] at ht'
      cases ht'
      exact ⟨i, (hi.query _).2⟩

end

end Recorder

end Timeshift
