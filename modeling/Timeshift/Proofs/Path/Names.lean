import Timeshift.Proofs.Path.Join

/-!
# Names in a directory

A file name is a text without a slash that names something. What is asked of a path whose last part
is such a name can be answered from the directory and the name apart.
-/

namespace Timeshift.Path

/-- A text that stands for one entry of a directory, or for `..`. -/
structure IsName (x : List Char) : Prop where
  noSlash : '/' ∉ x
  nontrivial : isTrivial x = false

section
variable {p q : Path} {x y : List Char} {cs : List Char}

theorem IsName.ne_nil (h : IsName x) : x ≠ [] := by
  rintro rfl
  cases h.nontrivial

theorem IsName.ne_dot (h : IsName x) : x ≠ ['.'] := by
  rintro rfl
  cases h.nontrivial

theorem isName_of_length (hs : '/' ∉ x) (hl : 2 ≤ x.length) : IsName x := by
  refine ⟨hs, ?_⟩
  unfold isTrivial
  match x, hl with
  | _ :: _ :: _, _ => simp

theorem IsName.isAbsolute (h : IsName x) : isAbsolute ⟨String.ofList x⟩ = false := by
  obtain ⟨c, cs, rfl⟩ := List.exists_cons_of_ne_nil h.ne_nil
  have hc : c ≠ '/' := fun e => h.noSlash (by rw [e]; exact List.mem_cons_self)
  simp [Path.isAbsolute, chars, hc]

/-! ## Taken apart -/

theorem Leads.split (h : Leads cs) (hx : '/' ∉ x) :
    slashSplit (cs ++ x) = (slashSplit cs).dropLast ++ [x] := by
  rcases h with rfl | ⟨a, rfl⟩
  · rw [List.nil_append, slashSplit_of_no_slash hx]
    rfl
  · have ha : slashSplit (a ++ ['/']) = slashSplit a ++ [[]] := slashSplit_append a []
    rw [List.append_assoc, List.singleton_append, slashSplit_append, slashSplit_of_no_slash hx, ha,
      List.dropLast_concat]

def front (p : Path) : List (List Char) := (slashSplit (p.stem.drop p.lead.length)).dropLast

theorem lead_of_name (h : IsName p.chars) : p.lead = [] := by
  unfold lead
  match p.chars, h with
  | [], h => exact absurd rfl h.ne_nil
  | [c], h =>
    have h₁ : c ≠ '/' := fun e => h.noSlash (by rw [e]; exact List.mem_cons_self)
    have h₂ : c ≠ '.' := fun e => h.ne_dot (by rw [e])
    simp [h₁, h₂]
  | c :: d :: cs, h =>
    have h₁ : c ≠ '/' := fun e => h.noSlash (by rw [e]; exact List.mem_cons_self)
    have h₂ : d ≠ '/' := fun e => h.noSlash (by rw [e]; simp)
    simp [h₁, h₂]

theorem lead_join_name (hx : IsName x) (p : Path) : (p.join ⟨String.ofList x⟩).lead = p.lead := by
  by_cases hp : p.text = ""
  · have hc : (p.join ⟨String.ofList x⟩).chars = x := by
      rw [chars_join hx.isAbsolute, stem_eq_nil.mpr hp, chars_ofList, List.nil_append]
    rw [lead_of_name (hc.symm ▸ hx), eq_of_text_empty hp]
    rfl
  · exact lead_join hx.isAbsolute hp

theorem lead_length_le_stem (p : Path) : p.lead.length ≤ p.stem.length := by
  have := lead_length_le p
  rcases stem_cases p with h | h
  · rwa [h]
  · rw [h, List.length_append]
    exact Nat.le_add_right_of_le this

theorem body_join_name (hx : IsName x) (p : Path) :
    (p.join ⟨String.ofList x⟩).body = p.front ++ [x] := by
  unfold body front
  rw [lead_join_name hx, chars_join hx.isAbsolute, chars_ofList,
    List.drop_append_of_le_length (lead_length_le_stem p),
    ((leads_stem p).drop _).split hx.noSlash]

theorem exists_leads : ∀ cs : List Char, ∃ a x, cs = a ++ x ∧ Leads a ∧ '/' ∉ x
  | [] => ⟨[], [], rfl, .inl rfl, List.not_mem_nil⟩
  | c :: cs => by
    obtain ⟨a, x, hcs, ha, hx⟩ := exists_leads cs
    rcases ha with rfl | ⟨b, rfl⟩
    · by_cases hc : c = '/'
      · exact ⟨['/'], x, by rw [hc, hcs]; rfl, .inr ⟨[], rfl⟩, hx⟩
      · refine ⟨[], c :: x, by rw [hcs]; rfl, .inl rfl, ?_⟩
        rw [List.mem_cons, not_or]
        exact ⟨Ne.symm hc, hx⟩
    · exact ⟨c :: b ++ ['/'], x, by rw [hcs]; rfl, .inr ⟨c :: b, rfl⟩, hx⟩

theorem Leads.stem (h : Leads cs) : Path.stem ⟨String.ofList cs⟩ = cs := by
  have hc := chars_ofList cs
  unfold Path.stem
  rw [if_pos, hc]
  rw [hc]
  rcases h with rfl | ⟨a, rfl⟩
  · rfl
  · simp

theorem parts_name (hx : IsName x) : parts x = [x] := by
  unfold parts
  rw [slashSplit_of_no_slash hx.noSlash, List.filter_cons_of_pos (by simp [hx.nontrivial])]
  rfl

theorem names_join_name (hx : IsName x) (p : Path) :
    (p.join ⟨String.ofList x⟩).names = p.names ++ [x] := by
  rw [names_eq, lead_join_name hx, chars_join hx.isAbsolute, chars_ofList,
    List.drop_append_of_le_length (lead_length_le_stem p),
    ((leads_stem p).drop _).parts_append, parts_drop_stem, parts_name hx]

theorem fileNameChars?_join_name (hx : IsName x) (p : Path) :
    (p.join ⟨String.ofList x⟩).fileNameChars? = if x = ['.', '.'] then none else some x := by
  unfold fileNameChars?
  rw [names_join_name hx, List.getLast?_concat]
  split
  · rename_i h; simp [h]
  · rename_i h; simp [h]

theorem dropTrivial_concat (hx : isTrivial x = false) (pieces : List (List Char)) :
    dropTrivial (pieces ++ [x]) = pieces ++ [x] := by
  unfold dropTrivial
  rw [List.reverse_concat, List.dropWhile_cons_of_neg (by simp [hx]), List.reverse_cons,
    List.reverse_reverse]

theorem lead_stem (p : Path) : p.lead ++ p.stem.drop p.lead.length = p.stem := by
  rcases stem_cases p with h | h
  · rw [h]
    exact lead_append p
  · rw [h, List.drop_append_of_le_length (lead_length_le p), ← List.append_assoc, lead_append]

theorem slashJoin_front (p : Path) (x : List Char) :
    p.lead ++ slashJoin (p.front ++ [x]) = p.stem ++ x := by
  have hsplit := ((leads_stem p).drop p.lead.length).split (x := []) List.not_mem_nil
  rw [List.append_nil] at hsplit
  have hjoin := slashJoin_slashSplit (p.stem.drop p.lead.length)
  rw [hsplit] at hjoin
  change slashJoin (p.front ++ [[]]) = _ at hjoin
  have hx : slashJoin (p.front ++ [x]) = p.stem.drop p.lead.length ++ x := by
    rw [← hjoin]
    by_cases hf : p.front = []
    · rw [hf]; rfl
    · rw [slashJoin_append hf (by simp), slashJoin_append hf (by simp)]
      simp [slashJoin]
  rw [hx, ← List.append_assoc, lead_stem]

/-! ## Extensions -/

theorem splitExtension_cases (x : List Char) : splitExtension x = (x, none) ∨
    ∃ before after, before ≠ [] ∧ x = before ++ '.' :: after ∧
      splitExtension x = (before, some after) := by
  have hx := List.takeWhile_append_dropWhile (p := fun c : Char => decide (c ≠ '.')) (l := x.reverse)
  unfold splitExtension
  cases hd : x.reverse.dropWhile (· ≠ '.') with
  | nil => exact .inl rfl
  | cons c before =>
    have hc : c = '.' := by
      have := List.head?_dropWhile_not (fun c : Char => decide (c ≠ '.')) x.reverse
      rw [hd] at this
      simpa using this
    subst hc
    cases before with
    | nil => exact .inl rfl
    | cons b before =>
      refine .inr ⟨(b :: before).reverse, (x.reverse.takeWhile (· ≠ '.')).reverse, by simp, ?_, rfl⟩
      rw [hd] at hx
      have := congrArg List.reverse hx
      rw [List.reverse_reverse, List.reverse_append, List.reverse_cons, List.append_assoc,
        List.singleton_append] at this
      exact this.symm

theorem splitExtension_fst (hx : x ≠ []) :
    (splitExtension x).1 ≠ [] ∧ (splitExtension x).1 ⊆ x := by
  rcases splitExtension_cases x with hs | ⟨before, after, hb, hxe, hs⟩
  · rw [hs]
    exact ⟨hx, fun _ h => h⟩
  · rw [hs]
    exact ⟨hb, fun c h => by rw [hxe]; exact List.mem_append_left _ h⟩

/-- A name without its extension. The dot in front of the extension stays. -/
def cutName (x : List Char) : List Char :=
  match (splitExtension x).2 with
  | some after => x.take (x.length - after.length)
  | none => x

theorem IsName.cutName (h : IsName x) : IsName (cutName x) := by
  unfold Path.cutName
  rcases splitExtension_cases x with hs | ⟨before, after, hb, hx, hs⟩
  · rw [hs]
    exact h
  · rw [hs]
    have hlen : x.length - after.length = (before ++ ['.']).length := by
      rw [hx]
      simp
      omega
    have htake : x.take (x.length - after.length) = before ++ ['.'] := by
      rw [hlen, hx, show before ++ '.' :: after = (before ++ ['.']) ++ after by simp,
        List.take_left]
    have hpos := List.length_pos_iff.mpr hb
    simp only [htake]
    refine isName_of_length (fun hm => h.noSlash ?_) (by simp; omega)
    rw [hx, show before ++ '.' :: after = (before ++ ['.']) ++ after by simp]
    exact List.mem_append_left _ hm

theorem join_name_eq (hx : IsName x) {q : Path} (h : q.chars = p.stem ++ x) :
    q = p.join ⟨String.ofList x⟩ := by
  have hj := chars_join hx.isAbsolute p
  rw [chars_ofList, ← h] at hj
  exact congrArg Path.mk (String.toList_inj.mp hj.symm)

theorem cutExtension_join_name (hx : IsName x) (hd : x ≠ ['.', '.']) (p : Path) :
    (p.join ⟨String.ofList x⟩).cutExtension = p.join ⟨String.ofList (cutName x)⟩ := by
  have hj := chars_join hx.isAbsolute p
  rw [chars_ofList] at hj
  refine join_name_eq hx.cutName ?_
  unfold cutExtension extension? cutName
  rw [fileNameChars?_join_name hx, if_neg hd, Option.bind_some]
  rcases splitExtension_cases x with hs | ⟨before, after, hb, hxe, hs⟩
  · rw [hs]
    exact hj
  · have hle : after.length ≤ x.length := by rw [hxe]; simp; omega
    rw [hs]
    simp only [Option.map_some, chars_ofList, String.length_ofList]
    rw [hj, List.length_append, Nat.add_sub_assoc hle, List.take_length_add_append]

/-- A name with another extension. Where cutting its own off leaves `..`, it gets none. -/
def extendName (x extension : List Char) : List Char :=
  if cutName x = ['.', '.'] then ['.', '.'] else (splitExtension (cutName x)).1 ++ '.' :: extension

theorem IsName.extendName (hx : IsName x) {extension : List Char} (he : '/' ∉ extension) :
    IsName (extendName x extension) := by
  have hc := hx.cutName
  unfold Path.extendName
  split
  · rename_i h
    rwa [h] at hc
  · obtain ⟨hne, hsub⟩ := splitExtension_fst hc.ne_nil
    refine isName_of_length (fun hm => ?_) (by simp; have := List.length_pos_iff.mpr hne; omega)
    rcases List.mem_append.mp hm with hm | hm
    · exact hc.noSlash (hsub hm)
    · rcases List.mem_cons.mp hm with hm | hm
      · cases hm
      · exact he hm

theorem withExtension_join (hx : IsName x) (hd : x ≠ ['.', '.']) (extension : String)
    (he : '/' ∉ extension.toList) (p : Path) : (p.join ⟨String.ofList x⟩).withExtension extension =
      p.join ⟨String.ofList (extendName x extension.toList)⟩ := by
  have hc := hx.cutName
  have hy := hx.extendName he
  unfold withExtension
  rw [cutExtension_join_name hx hd]
  unfold extendName at hy ⊢
  split
  · rename_i h
    simp only [fileNameChars?_join_name hc, if_pos h]
    rw [h]
  · rename_i h
    rw [if_neg h] at hy
    simp only [fileNameChars?_join_name hc, if_neg h]
    refine join_name_eq hy ?_
    rw [chars_ofList, body_join_name hc, dropTrivial_concat hc.nontrivial, List.dropLast_concat,
      lead_join_name hc, slashJoin_front]

theorem withExtension_join_name (hx : IsName x) (hd : x ≠ ['.', '.']) (extension : String)
    (he : '/' ∉ extension.toList) : ∃ y, IsName y ∧
      ∀ p : Path, (p.join ⟨String.ofList x⟩).withExtension extension = p.join ⟨String.ofList y⟩ :=
  ⟨_, hx.extendName he, withExtension_join hx hd extension he⟩

theorem splitExtension_append {before after : List Char} (hb : before ≠ []) (ha : '.' ∉ after) :
    splitExtension (before ++ '.' :: after) = (before, some after) := by
  have hall : ∀ c ∈ after.reverse, decide (c ≠ '.') = true := by
    intro c hc
    exact decide_eq_true fun e => ha (e ▸ List.mem_reverse.mp hc)
  have hrev : (before ++ '.' :: after).reverse = after.reverse ++ '.' :: before.reverse := by simp
  unfold splitExtension
  rw [hrev, List.takeWhile_append_of_pos hall, List.dropWhile_append_of_pos hall,
    List.takeWhile_cons_of_neg (by simp), List.dropWhile_cons_of_neg (by simp)]
  obtain ⟨c, cs, hcs⟩ := List.exists_cons_of_ne_nil (mt List.reverse_eq_nil_iff.mp hb)
  simp [hcs, ← List.reverse_eq_iff.mp hcs]

theorem splitExtension_extendName (hx : IsName x) {extension : List Char} (he : '.' ∉ extension)
    (hd : extendName x extension ≠ ['.', '.']) :
    (splitExtension (extendName x extension)).2 = some extension := by
  unfold extendName at hd ⊢
  split
  · rename_i h
    rw [if_pos h] at hd
    exact absurd rfl hd
  · rw [splitExtension_append (splitExtension_fst hx.cutName.ne_nil).1 he]

theorem extension?_join_name (hx : IsName x) (hd : x ≠ ['.', '.']) (p : Path) :
    (p.join ⟨String.ofList x⟩).extension? = (splitExtension x).2.map String.ofList := by
  unfold extension?
  rw [fileNameChars?_join_name hx, if_neg hd]
  rfl

/-! ## The directory back from the path -/

/-- `q` is the directory `p`, perhaps written shorter. -/
structure Shortens (q p : Path) : Prop where
  same : Same q p
  stem : q.stem <+: p.stem

theorem Shortens.refl (p : Path) : Shortens p p := ⟨.refl p, List.prefix_refl _⟩

theorem dropTrivial_append (pieces : List (List Char)) :
    ∃ rest, pieces = dropTrivial pieces ++ rest ∧ ∀ piece ∈ rest, isTrivial piece = true := by
  have h := List.takeWhile_append_dropWhile (p := isTrivial) (l := pieces.reverse)
  refine ⟨(pieces.reverse.takeWhile isTrivial).reverse, ?_, fun piece hp => ?_⟩
  · have := congrArg List.reverse h
    rwa [List.reverse_reverse, List.reverse_append, eq_comm] at this
  · exact List.all_eq_true.mp List.all_takeWhile piece (List.mem_reverse.mp hp)

theorem parts_slashJoin_trivial : ∀ pieces : List (List Char),
    (∀ piece ∈ pieces, isTrivial piece = true) → parts (slashJoin pieces) = []
  | [], _ => rfl
  | [x], h => parts_trivial (h x List.mem_cons_self)
  | x :: y :: pieces, h => by
    have ih := parts_slashJoin_trivial (y :: pieces) fun p hp => h p (List.mem_cons_of_mem _ hp)
    rw [slashJoin, Path.parts_append, parts_trivial (h x List.mem_cons_self), ih]
    rfl
where
  parts_trivial {x : List Char} (h : isTrivial x = true) : parts x = [] := by
    unfold isTrivial at h
    simp only [Bool.or_eq_true, decide_eq_true_eq] at h
    rcases h with rfl | rfl
    · rfl
    · rfl

theorem same_of_slash (rest : List Char) (hq : q.text ≠ "") (h : p.chars = q.chars ++ '/' :: rest)
    (hr : parts rest = []) : Same p q := by
  have hl := lead_of_slash rest hq h
  refine ⟨hl, ?_⟩
  rw [names_eq, names_eq, hl, h, List.drop_append_of_le_length (lead_length_le q),
    Path.parts_append, hr, List.append_nil]

theorem same_stem (p : Path) : Same ⟨String.ofList p.stem⟩ p := by
  by_cases hp : p.text = ""
  · rw [stem_eq_nil.mpr hp, eq_of_text_empty hp]
    exact .refl _
  · rcases stem_cases p with h | h
    · rw [h]
      exact ⟨by simp [lead, chars], by simp [names, body, lead, chars]⟩
    · exact same_of_slash [] hp (by rw [chars_ofList, h]) rfl

theorem parent?_join_name (hx : IsName x) (p : Path) : (p.join ⟨String.ofList x⟩).parent? =
    some ⟨String.ofList (p.lead ++ slashJoin (dropTrivial p.front))⟩ := by
  unfold parent?
  rw [body_join_name hx, dropTrivial_concat hx.nontrivial, lead_join_name hx]
  cases hf : p.front ++ [x] with
  | nil => cases List.concat_ne_nil x _ hf
  | cons piece pieces =>
    simp only
    rw [← hf, List.dropLast_concat]

theorem slashJoin_dropTrivial {pieces : List (List Char)} (h : dropTrivial pieces ≠ []) :
    slashJoin (dropTrivial pieces) ≠ [] := by
  intro hj
  have hlast : dropTrivial pieces ≠ [[]] := by
    unfold dropTrivial
    intro e
    have hd := congrArg List.reverse e
    rw [List.reverse_reverse] at hd
    have := List.head?_dropWhile_not isTrivial pieces.reverse
    rw [hd] at this
    cases this
  match hp : dropTrivial pieces with
  | [] => exact h hp
  | [x] =>
    rw [hp] at hj hlast
    exact hlast (by rw [show x = [] from hj])
  | x :: y :: rest =>
    rw [hp] at hj
    simp [slashJoin] at hj

theorem lead_cases (p : Path) : p.lead = [] ∨ p.lead = ['/'] ∨
    p.lead = ['.'] ∧ ∃ rest, p.stem = '.' :: '/' :: rest := by
  unfold lead Path.stem
  split
  · exact .inr (.inl rfl)
  · rename_i h
    refine .inr (.inr ⟨rfl, [], ?_⟩)
    have hp : p.text ≠ "" := fun e => by rw [chars_eq_nil.mpr e] at h; cases h
    simp [h, hp]
  · rename_i rest h
    refine .inr (.inr ⟨rfl, ?_⟩)
    rw [h]
    split
    · exact ⟨rest, rfl⟩
    · exact ⟨rest ++ ['/'], rfl⟩
  · exact .inl rfl

/-- The directory that a name was taken from can be read off the path. -/
theorem shortens_parent (hx : IsName x) (p : Path) :
    ∃ q, (p.join ⟨String.ofList x⟩).parent? = some q ∧ Shortens q p := by
  refine ⟨_, parent?_join_name hx p, ?_⟩
  obtain ⟨rest, hfront, htrivial⟩ := dropTrivial_append p.front
  have hstem := slashJoin_front p []
  rw [List.append_nil] at hstem
  have hparts : ∀ piece ∈ rest ++ [[]], isTrivial piece = true := fun piece hp => by
    rcases List.mem_append.mp hp with hp | hp
    · exact htrivial piece hp
    · rw [List.mem_singleton.mp hp]; rfl
  by_cases hd : dropTrivial p.front = []
  · -- the directory is only what it starts from
    rw [hd, List.nil_append] at hfront
    have hnames : p.names = [] := by
      rw [← parts_drop_stem, ← hstem, List.drop_left' rfl, hfront]
      exact parts_slashJoin_trivial _ hparts
    rw [hd, slashJoin, List.append_nil]
    rcases lead_cases p with hl | hl | ⟨hl, more, hs⟩
    · rw [hl]
      exact ⟨⟨hl.symm, hnames.symm⟩, List.nil_prefix⟩
    · rw [hl]
      refine ⟨⟨hl.symm, hnames.symm⟩, ?_⟩
      rw [← hstem, hl]
      exact List.prefix_append _ _
    · rw [hl]
      refine ⟨⟨hl.symm, hnames.symm⟩, ?_⟩
      rw [hs]
      exact List.prefix_append ['.', '/'] more
  · rw [hfront, List.append_assoc, slashJoin_append hd (by simp), ← List.append_assoc] at hstem
    have hne : p.lead ++ slashJoin (dropTrivial p.front) ≠ [] := fun e =>
      slashJoin_dropTrivial hd (List.append_eq_nil_iff.mp e).2
    refine ⟨?_, ?_⟩
    · refine (Same.symm ?_).trans (same_stem p)
      refine same_of_slash (slashJoin (rest ++ [[]])) (mt String.ofList_eq_empty_iff.mp hne) ?_
        (parts_slashJoin_trivial _ hparts)
      rw [chars_ofList, chars_ofList, ← hstem]
    · rw [← hstem]
      rcases stem_cases ⟨String.ofList (p.lead ++ slashJoin (dropTrivial p.front))⟩ with h | h
      · rw [h, chars_ofList]
        exact List.prefix_append _ _
      · rw [h, chars_ofList]
        exact (List.prefix_append_right_inj _).mpr (List.prefix_append ['/'] _)

end

end Timeshift.Path
