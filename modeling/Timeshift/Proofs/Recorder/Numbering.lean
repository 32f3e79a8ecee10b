import Timeshift.Proofs.Recorder.Apart

/-!
# The numbers in the names

The number of a segment can be read off its name without the settings that made it: there is no dot
in the extension and no dash among the digits. A list where each place is the number in the name that
stands there does not have the next number, so the next name is a new one under any settings.
-/

namespace Timeshift

namespace Recorder

/-- The number in the name of a segment file: the digits between the last dash and the extension. -/
def numberIn? (name : String) : Option Nat :=
  let stem := (Path.splitExtension name.toList).1
  let digits := (stem.reverse.takeWhile (· ≠ '-')).reverse
  if '-' ∈ stem ∧ digits ≠ [] ∧ digits.all Char.isDigit then
    some (Nat.ofDigitChars 10 digits 0)
  else none

def Numbered (names : List String) : Prop :=
  ∀ k name, names[k]? = some name → numberIn? name = some k

section
variable {c : RecorderSettings} {names : List String} {name : String} {n : Nat}

theorem dash_not_mem_paddedNumber (n : Nat) : '-' ∉ paddedNumber n :=
  fun h => absurd (isDigit_paddedNumber h) (by decide)

theorem paddedNumber_ne_nil (n : Nat) : paddedNumber n ≠ [] := by
  intro h
  have hlen := congrArg List.length h
  simp only [paddedNumber, List.length_leftpad, List.length_nil] at hlen
  omega

theorem numberIn?_segmentName (h : c.fault? = none) (n : Nat) :
    numberIn? (segmentName c n) = some n := by
  have hdigits : ((c.segmentStem.toList ++ '-' :: paddedNumber n).reverse.takeWhile
      (· ≠ '-')).reverse = paddedNumber n := by
    rw [List.reverse_append, List.reverse_cons, List.append_assoc, List.takeWhile_append_of_pos,
      List.singleton_append, List.takeWhile_cons_of_neg (by simp), List.append_nil,
      List.reverse_reverse]
    intro a ha
    rw [List.mem_reverse] at ha
    exact decide_eq_true fun e => dash_not_mem_paddedNumber n (e ▸ ha)
  unfold numberIn?
  rw [splitExtension_segmentName h]
  simp only [hdigits]
  rw [if_pos ⟨by simp, paddedNumber_ne_nil n, List.all_eq_true.mpr fun _ => isDigit_paddedNumber⟩,
    ofDigitChars_paddedNumber]

example : numberIn? "cam-2.v1-123456.m4s" = some 123456 := by decide +kernel

theorem numbered_nil : Numbered [] := fun _ _ h => nomatch h

theorem Numbered.concat (h : Numbered names) (hn : numberIn? name = some names.length) :
    Numbered (names ++ [name]) := by
  intro k x hx
  rcases Nat.lt_trichotomy k names.length with hk | rfl | hk
  · rw [List.getElem?_append_left hk] at hx
    exact h k x hx
  · rw [List.getElem?_concat_length, Option.some.injEq] at hx
    rw [← hx, hn]
  · rw [List.getElem?_eq_none (by simp; omega)] at hx
    cases hx

theorem Numbered.fresh (h : Numbered names) (hn : numberIn? name = some names.length) :
    name ∉ names := by
  intro hmem
  obtain ⟨k, hk, rfl⟩ := List.mem_iff_getElem.mp hmem
  rw [h k _ (List.getElem?_eq_getElem hk)] at hn
  exact Nat.ne_of_lt hk (Option.some.inj hn)

end

end Recorder

end Timeshift
