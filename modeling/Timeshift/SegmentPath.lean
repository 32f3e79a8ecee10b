import Timeshift.Error
import Timeshift.Text.Utf8

/-!
# Segment paths

A recording names its segment files in a bounded field. The bound is checked when the path is made,
so an over-long name is an error and never a clipped file name.
-/

namespace Timeshift

structure SegmentPath where
  text : String
  nonempty : text ≠ ""
  /-- Bytes, not characters. -/
  bounded : text.utf8ByteSize ≤ 256
  deriving DecidableEq

namespace SegmentPath

def limit : Nat := 256

instance : ToString SegmentPath := ⟨text⟩

def ofString (text : String) : Except Error SegmentPath :=
  if h : text = "" then .error (.invalidInput "segment path is empty")
  else if hb : text.utf8ByteSize ≤ 256 then .ok ⟨text, h, hb⟩
  else .error (.pathTooLong text.utf8ByteSize limit)

/-- The path that a name on disk stands for; a manifest holds text, so it has to be text. -/
def ofBytes (bs : Bytes) : Except Error SegmentPath :=
  match Utf8.decode? bs with
  | some text => ofString text
  | none => .error (.invalidInput s!"non UTF-8 path: {String.ofList (Utf8.lossy bs)}")

def path (p : SegmentPath) : Path := ⟨p.text⟩

theorem ofString_text (p : SegmentPath) : ofString p.text = .ok p := by
  simp [ofString, p.nonempty, p.bounded]

end SegmentPath

end Timeshift
