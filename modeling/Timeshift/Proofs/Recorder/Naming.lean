import Timeshift.Proofs.Path.Names
import Timeshift.Recorder

/-!
# The names of a recording's files

Settings that pass their check give every segment and every index a name of its own, and each is
the name of one entry of the recording's directory.
-/

namespace Timeshift

namespace RecorderSettings

/-- What the check of the settings comes to, for the names that are made from them. -/
structure NamesFiles (c : RecorderSettings) : Prop where
  index : '/' ∉ c.indexExtension.toList
  extension : '/' ∉ c.segmentExtension.toList
  stem : '/' ∉ c.segmentStem.toList
  manifest : '/' ∉ c.manifestName.toList
  nonempty : c.manifestName ≠ ""
  indexNonempty : c.indexExtension ≠ ""

section
variable {c : RecorderSettings}

theorem hasSlash_eq_false {s : String} : hasSlash s = false ↔ '/' ∉ s.toList := by
  unfold hasSlash
  rw [List.any_eq_false]
  exact ⟨fun h hm => h '/' hm (decide_eq_true rfl),
    fun h c hc he => h (of_decide_eq_true he ▸ hc)⟩

theorem noSlash_of_isBare {s : String} (h : isBare s = true) : s ≠ "" ∧ '/' ∉ s.toList := by
  simp only [isBare, Bool.and_eq_true, decide_eq_true_eq, Bool.not_eq_true', List.any_eq_false,
    Bool.or_eq_true, not_or] at h
  exact ⟨h.1, fun hm => (h.2 '/' hm).2 rfl⟩

theorem namesFiles (h : c.fault? = none) : c.NamesFiles := by
  unfold fault? at h
  split at h
  · cases h
  rename_i h₁
  split at h
  · cases h
  rename_i h₂
  split at h
  · cases h
  split at h
  · cases h
  rename_i h₃
  split at h
  · cases h
  rename_i h₄
  simp only [Bool.not_eq_true', Bool.not_eq_false] at h₁ h₂
  simp only [Bool.or_eq_true, decide_eq_true_eq, not_or, Bool.not_eq_true] at h₃
  exact ⟨(noSlash_of_isBare h₁).2, (noSlash_of_isBare h₂).2,
    hasSlash_eq_false.mp (Bool.eq_false_iff.mpr h₄), hasSlash_eq_false.mp h₃.2, h₃.1,
    (noSlash_of_isBare h₁).1⟩

theorem NamesFiles.isName_manifest (h : c.NamesFiles) (hd : c.manifestName ≠ ".") :
    Path.IsName c.manifestName.toList := by
  refine ⟨h.manifest, ?_⟩
  simp only [Path.isTrivial, Bool.or_eq_false_iff, decide_eq_false_iff_not]
  exact ⟨fun he => h.nonempty (String.toList_eq_nil_iff.mp he),
    fun he => hd (String.toList_inj.mp he)⟩

end

end RecorderSettings

namespace Recorder

section
variable {c : RecorderSettings} {m n : Nat}

def indexName (c : RecorderSettings) (n : Nat) : String :=
  segmentName c n ++ "." ++ c.indexExtension

/-! ## One name for each number -/

theorem ofDigitChars_paddedNumber (n : Nat) : Nat.ofDigitChars 10 (paddedNumber n) 0 = n := by
  unfold paddedNumber List.leftpad
  rw [Nat.ofDigitChars_append, Nat.ofDigitChars_replicate_zero, Nat.mul_zero,
    Nat.ofDigitChars_ten_toDigits]

theorem isDigit_paddedNumber {a : Char} (h : a ∈ paddedNumber n) : a.isDigit = true := by
  unfold paddedNumber List.leftpad at h
  rcases List.mem_append.mp h with h | h
  · rw [List.eq_of_mem_replicate h]
    rfl
  · exact Nat.isDigit_of_mem_toDigits (by decide) (by decide) h

theorem paddedNumber_injective (h : paddedNumber m = paddedNumber n) : m = n := by
  rw [← ofDigitChars_paddedNumber m, ← ofDigitChars_paddedNumber n, h]

theorem segmentName_injective (h : segmentName c m = segmentName c n) : m = n := by
  have h := congrArg String.toList h
  simp only [segmentName, String.toList_append, List.append_assoc, String.toList_ofList] at h
  exact paddedNumber_injective (List.append_cancel_right
    (List.append_cancel_left (List.append_cancel_left h)))

theorem indexName_injective (h : indexName c m = indexName c n) : m = n := by
  have h := congrArg String.toList h
  simp only [indexName, String.toList_append, List.append_assoc] at h
  exact segmentName_injective (String.toList_inj.mp (List.append_cancel_right h))

/-! ## Names of entries of a directory -/

theorem noSlash_segmentName (h : c.NamesFiles) (n : Nat) : '/' ∉ (segmentName c n).toList := by
  have hd : '/' ∉ paddedNumber n := fun hm => absurd (isDigit_paddedNumber hm) (by decide)
  simp only [segmentName, String.toList_append, String.toList_ofList, List.mem_append, not_or]
  exact ⟨⟨⟨⟨h.stem, by decide⟩, hd⟩, by decide⟩, h.extension⟩

theorem isName_segmentName (h : c.NamesFiles) (n : Nat) :
    Path.IsName (segmentName c n).toList := by
  refine Path.isName_of_length (noSlash_segmentName h n) ?_
  simp [segmentName]
  omega

theorem isName_indexName (h : c.NamesFiles) (n : Nat) : Path.IsName (indexName c n).toList := by
  refine Path.isName_of_length (fun hm => ?_) ?_
  · simp only [indexName, String.toList_append, List.mem_append] at hm
    rcases hm with (hm | hm) | hm
    · exact noSlash_segmentName h n hm
    · exact absurd hm (by decide)
    · exact h.index hm
  · simp [indexName, segmentName]
    omega

end

end Recorder

end Timeshift
