import Timeshift.Path

/-!
# Joining paths

Taken from a directory, a path starts like the directory and goes through its pieces first. So it is
enough to compare directories as paths, and what is done to a name, like giving it another
extension, may be done before or after it is taken from the directory.
-/

namespace Timeshift

/-! ## Splitting at slashes -/

theorem slashSplit_append : ∀ a b : List Char,
    slashSplit (a ++ '/' :: b) = slashSplit a ++ slashSplit b
  | [], b => by simp [slashSplit]
  | c :: a, b => by
    have ih := slashSplit_append a b
    by_cases hc : c = '/'
    · subst hc
      simp [slashSplit, ih]
    · obtain ⟨p, ps, hp⟩ := List.exists_cons_of_ne_nil (slashSplit_ne_nil a)
      rw [hp] at ih
      simp [slashSplit, hc, hp, ih]

theorem slashSplit_of_no_slash : ∀ {x : List Char}, '/' ∉ x → slashSplit x = [x]
  | [], _ => rfl
  | c :: x, h => by
    rw [List.mem_cons, not_or] at h
    simp [slashSplit, Ne.symm h.1, slashSplit_of_no_slash h.2]

theorem slashJoin_append : ∀ {a b : List (List Char)}, a ≠ [] → b ≠ [] →
    slashJoin (a ++ b) = slashJoin a ++ '/' :: slashJoin b
  | [], _, h, _ => absurd rfl h
  | [p], b, _, hb => by
    obtain ⟨q, qs, rfl⟩ := List.exists_cons_of_ne_nil hb
    rfl
  | p :: q :: ps, b, _, hb => by
    have ih := slashJoin_append (a := q :: ps) (by simp) hb
    simp only [List.cons_append] at ih ⊢
    simp [slashJoin, ih]

namespace Path

def parts (cs : List Char) : List (List Char) := (slashSplit cs).filter (!isTrivial ·)

@[simp] theorem parts_nil : parts [] = [] := rfl

theorem parts_append (a b : List Char) : parts (a ++ '/' :: b) = parts a ++ parts b := by
  unfold parts
  rw [slashSplit_append, List.filter_append]

theorem names_eq (p : Path) : p.names = parts (p.chars.drop p.lead.length) := rfl

/-! ## The stem of a directory -/

def stem (p : Path) : List Char :=
  if p.text = "" || p.chars.getLast? = some '/' then p.chars else p.chars ++ ['/']

def Leads (cs : List Char) : Prop := cs = [] ∨ ∃ a, cs = a ++ ['/']

section
variable {p q : Path} {stem x : List Char}

theorem chars_eq_nil : p.chars = [] ↔ p.text = "" := String.toList_eq_nil_iff

theorem eq_of_text_empty (h : p.text = "") : p = ⟨""⟩ := congrArg Path.mk h

theorem chars_ofList (x : List Char) : chars ⟨String.ofList x⟩ = x := String.toList_ofList

theorem join_of_absolute (h : q.isAbsolute = true) (p : Path) : p.join q = q := by
  unfold join
  rw [if_pos h]

theorem chars_join (h : q.isAbsolute = false) (p : Path) :
    (p.join q).chars = p.stem ++ q.chars := by
  unfold join Path.stem
  rw [h, if_neg Bool.false_ne_true]
  split
  · simp [chars]
  · simp [chars]

theorem leads_stem (p : Path) : Leads p.stem := by
  unfold Path.stem
  split
  · rename_i h
    simp only [Bool.or_eq_true, decide_eq_true_eq] at h
    rcases h with h | h
    · exact .inl (chars_eq_nil.mpr h)
    · obtain ⟨a, ha⟩ := List.getLast?_eq_some_iff.mp h
      exact .inr ⟨a, ha⟩
  · exact .inr ⟨_, rfl⟩

theorem stem_eq_nil : p.stem = [] ↔ p.text = "" := by
  unfold Path.stem
  split
  · exact chars_eq_nil
  · rename_i h
    simp only [Bool.or_eq_true, decide_eq_true_eq, not_or] at h
    exact ⟨fun e => absurd e (by simp), fun e => absurd e h.1⟩

theorem Leads.drop {cs : List Char} (h : Leads cs) (n : Nat) : Leads (cs.drop n) := by
  rcases h with rfl | ⟨a, rfl⟩
  · rw [List.drop_nil]; exact .inl rfl
  · rcases Nat.lt_or_ge a.length n with hn | hn
    · exact .inl (List.drop_eq_nil_of_le (by simp; omega))
    · exact .inr ⟨a.drop n, List.drop_append_of_le_length hn⟩

theorem Leads.parts_append {cs : List Char} (h : Leads cs) (x : List Char) :
    parts (cs ++ x) = parts cs ++ parts x := by
  rcases h with rfl | ⟨a, rfl⟩
  · rfl
  · rw [List.append_assoc, List.singleton_append, Path.parts_append, Path.parts_append]
    simp

theorem lead_append (p : Path) : p.lead ++ p.chars.drop p.lead.length = p.chars := by
  unfold lead
  split
  · rename_i h; rw [h]; rfl
  · rename_i h; rw [h]; rfl
  · rename_i h; rw [h]; rfl
  · rfl

theorem lead_length_le (p : Path) : p.lead.length ≤ p.chars.length := by
  rw [← congrArg List.length (lead_append p), List.length_append]
  exact Nat.le_add_right _ _

/-! ## The pieces of a joined path -/

theorem stem_cases (p : Path) : p.stem = p.chars ∨ p.stem = p.chars ++ ['/'] := by
  unfold Path.stem
  split
  · exact .inl rfl
  · exact .inr rfl

theorem lead_of_slash (rest : List Char) (hq : q.text ≠ "") (h : p.chars = q.chars ++ '/' :: rest) :
    p.lead = q.lead := by
  unfold lead
  rw [h]
  match q.chars, mt chars_eq_nil.mp hq with
  | [c], _ =>
    by_cases h₁ : c = '/'
    · subst h₁; rfl
    · by_cases h₂ : c = '.'
      · subst h₂; rfl
      · simp [h₁, h₂]
  | c :: d :: cs, _ =>
    by_cases h₁ : c = '/'
    · subst h₁; rfl
    · by_cases h₂ : c = '.'
      · by_cases h₃ : d = '/'
        · subst h₂ h₃; rfl
        · simp [h₂, h₃]
      · simp [h₁, h₂]

theorem lead_join (hq : q.isAbsolute = false) (hp : p.text ≠ "") : (p.join q).lead = p.lead := by
  have hj := chars_join hq p
  rcases stem_cases p with h | h
  · rw [h] at hj
    rcases leads_stem p with hl | ⟨a, ha⟩
    · exact absurd (stem_eq_nil.mp hl) hp
    · rw [h] at ha
      rw [ha, List.append_assoc, List.singleton_append] at hj
      -- the directory ends in a slash, and the text in front of it decides for both
      by_cases hne : a = []
      · unfold lead
        rw [hj, ha, hne]
        rfl
      · have ha' : (⟨String.ofList a⟩ : Path).text ≠ "" := mt String.ofList_eq_empty_iff.mp hne
        rw [lead_of_slash (p := p.join q) _ ha' (by rw [hj, chars_ofList]),
          lead_of_slash (p := p) [] ha' (by rw [ha, chars_ofList])]
  · rw [h, List.append_assoc, List.singleton_append] at hj
    exact lead_of_slash _ hp hj

theorem parts_drop_stem (p : Path) : parts (p.stem.drop p.lead.length) = p.names := by
  rcases stem_cases p with h | h
  · rw [h, names_eq]
  · rw [h, List.drop_append_of_le_length (lead_length_le p), Path.parts_append, names_eq,
      parts_nil, List.append_nil]

theorem names_join (hq : q.isAbsolute = false) (hp : p.text ≠ "") :
    (p.join q).names = p.names ++ parts q.chars := by
  have hlen : p.lead.length ≤ p.stem.length := by
    have := lead_length_le p
    rcases stem_cases p with h | h
    · rwa [h]
    · rw [h, List.length_append]; omega
  rw [names_eq, lead_join hq hp, chars_join hq, List.drop_append_of_le_length hlen,
    ((leads_stem p).drop _).parts_append, parts_drop_stem]

/-! ## Paths that are equal as paths -/

theorem Same.refl (p : Path) : Same p p := ⟨rfl, rfl⟩

theorem Same.symm (h : Same p q) : Same q p := ⟨h.1.symm, h.2.symm⟩

theorem Same.trans {r : Path} (h₁ : Same p q) (h₂ : Same q r) : Same p r :=
  ⟨h₁.1.trans h₂.1, h₁.2.trans h₂.2⟩

theorem Same.eq_empty (h : Same p ⟨""⟩) : p = ⟨""⟩ := by
  have hlead : p.lead = [] := h.1
  have hnames : parts p.chars = [] := by
    have := h.2
    rw [names_eq, hlead] at this
    exact this
  suffices hc : p.chars = [] from eq_of_text_empty (chars_eq_nil.mp hc)
  match hc : p.chars with
  | [] => rfl
  | c :: cs =>
    unfold lead at hlead
    rw [hc] at hlead hnames
    obtain ⟨x, xs, hx⟩ := List.exists_cons_of_ne_nil (slashSplit_ne_nil cs)
    by_cases h₁ : c = '/'
    · subst h₁; cases hlead
    -- the first piece starts with `c`, so it names nothing only as a lead
    have hsplit : slashSplit (c :: cs) = (c :: x) :: xs := by simp [slashSplit, h₁, hx]
    unfold parts at hnames
    rw [hsplit] at hnames
    by_cases h₂ : c = '.' ∧ x = []
    · obtain ⟨rfl, rfl⟩ := h₂
      have hcs := slashJoin_slashSplit cs
      rw [hx] at hcs
      cases xs with
      | nil => subst hcs; cases hlead
      | cons y ys => subst hcs; cases hlead
    · rw [List.filter_cons_of_pos (by simp [isTrivial, h₂])] at hnames
      cases hnames

theorem Same.join (h : Same p q) (r : Path) : Same (p.join r) (q.join r) := by
  by_cases hr : r.isAbsolute = true
  · rw [join_of_absolute hr, join_of_absolute hr]
    exact .refl r
  · rw [Bool.not_eq_true] at hr
    by_cases hp : p.text = ""
    · rw [eq_of_text_empty hp] at h ⊢
      rw [h.symm.eq_empty]
      exact .refl _
    · have hq : q.text ≠ "" := fun hq => by
        rw [eq_of_text_empty hq] at h
        exact hp (congrArg Path.text h.eq_empty)
      exact ⟨by rw [lead_join hr hp, lead_join hr hq, h.1],
        by rw [names_join hr hp, names_join hr hq, h.2]⟩

theorem indexPath_join (hq : q.text ≠ "") (p : Path) (extension : String) :
    (p.join q).indexPath extension = p.join (q.indexPath extension) := by
  have habs : (q.indexPath extension).isAbsolute = q.isAbsolute := by
    obtain ⟨c, cs, hc⟩ := List.exists_cons_of_ne_nil (mt chars_eq_nil.mp hq)
    have hi : (q.indexPath extension).chars = c :: (cs ++ '.' :: extension.toList) := by
      simp only [indexPath, chars, String.toList_append] at hc ⊢
      rw [hc]
      simp
    unfold isAbsolute
    rw [hi, hc]
    rfl
  unfold join
  rw [habs]
  split
  · rfl
  · split
    · simp [indexPath, String.append_assoc]
    · simp [indexPath, String.append_assoc]

end

end Path

end Timeshift
