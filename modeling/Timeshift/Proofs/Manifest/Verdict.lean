import Timeshift.Proofs.Manifest.Atomic

/-!
# What comes of reading a manifest

`Breaks` numbers the rules of a manifest and says of all items, not of neighbours, what it is to
break one. A manifest is refused for the rule with the smallest number among those it breaks, and
is read as it stands if it breaks none. A file that holds no document of a manifest is refused
before that, as damaged if it holds text and as unreadable if it holds none.
-/

namespace Timeshift.Manifest

/-! ## Broken rules -/

inductive Item.Breaks (before : List Item) (s : Item) : Nat → Fault → Prop
  | span : s.stop < s.start → Breaks before s 0 (.endsEarly before.length s.stop s.start)
  | start {t : Item} : t ∈ before → s.start < t.start →
      Breaks before s 1 (.startsEarly before.length)
  | path {t : Item} : t ∈ before → t.path = s.path → Breaks before s 2 (.listedTwice s.path)

/-- `m` breaks the rule with the given number. The version has the first number, then comes the
extension, and then each item in turn with its three rules. -/
inductive Breaks (m : Manifest) : Nat → Fault → Prop
  | version : m.version ≠ currentVersion → Breaks m 0 (.unsupportedVersion m.version)
  | extension : m.extension = "" → Breaks m 1 .emptyExtension
  | item {init rest : List Item} {s : Item} {n : Nat} {fault : Fault} :
      m.items = init ++ s :: rest → s.Breaks init n fault →
      Breaks m (3 * init.length + n + 2) fault

def FirstFault (m : Manifest) (fault : Fault) : Prop :=
  ∃ n, m.Breaks n fault ∧ ∀ n' fault', m.Breaks n' fault' → n ≤ n'

structure WellFormed (m : Manifest) : Prop where
  version : m.version = currentVersion
  extension : m.extension ≠ ""
  inOrder : InOrder m.items

section
variable {m : Manifest} {items before init rest : List Item} {s : Item} {n n' : Nat}
  {fault fault' : Fault} {path : Path} {d d' : Disk} {i : FileId} {text : String} {e : Error}

theorem Item.Breaks.lt_three (h : s.Breaks before n fault) : n < 3 := by
  cases h with
  | span _ => decide
  | start _ _ => decide
  | path _ _ => decide

theorem Item.Breaks.unique (h : s.Breaks before n fault) (h' : s.Breaks before n fault') :
    fault = fault' := by
  cases h with
  | span _ => cases h' with | span _ => rfl
  | start _ _ => cases h' with | start _ _ => rfl
  | path _ _ => cases h' with | path _ _ => rfl

theorem InOrder.not_breaks (h : InOrder (before ++ [s])) : ¬ s.Breaks before n fault := by
  have hs : s ∈ before ++ [s] := List.mem_concat_self
  intro hbreaks
  cases hbreaks with
  | span hlt => exact UInt64.not_le.mpr hlt (h.span s hs)
  | start ht hlt =>
    apply UInt64.not_le.mpr hlt
    exact (List.pairwise_append.mp h.starts).2.2 _ ht s (List.mem_singleton_self s)
  | path ht heq =>
    exact (List.pairwise_append.mp h.distinct).2.2 _ ht s (List.mem_singleton_self s) heq

/-- Two items of one list stand one before the other, or are the same. -/
theorem split_cases {init' rest' : List Item} {s' : Item}
    (h : init ++ s :: rest = init' ++ s' :: rest') :
    init.length < init'.length ∨ init' = init ∧ s' = s ∨
      ∃ more, init = init' ++ [s'] ++ more := by
  rcases Nat.lt_trichotomy init.length init'.length with hlt | heq | hgt
  · exact .inl hlt
  · obtain ⟨hinit, htail⟩ := List.append_inj h heq
    cases htail
    exact .inr (.inl ⟨hinit.symm, rfl⟩)
  · have hwhole : init' ++ [s'] <+: init ++ s :: rest :=
      ⟨rest', by rw [h, List.append_assoc, List.singleton_append]⟩
    have hprefix : init' ++ [s'] <+: init := by
      apply List.prefix_of_prefix_length_le hwhole (List.prefix_append init _)
      rw [List.length_append, List.length_singleton]
      exact hgt
    obtain ⟨more, hmore⟩ := hprefix
    exact .inr (.inr ⟨more, hmore.symm⟩)

theorem InOrder.of_append {more : List Item} (h : InOrder (items ++ more)) : InOrder items :=
  ⟨fun t ht => h.span t (List.mem_append_left _ ht), (List.pairwise_append.mp h.starts).1,
    (List.pairwise_append.mp h.distinct).1⟩

/-- The last of the items before is as late as any of them. -/
theorem any_getLast?_iff (ho : before.Pairwise fun s t => s.start ≤ t.start) :
    before.getLast?.any (s.start < ·.start) = true ↔ ∃ t ∈ before, s.start < t.start := by
  cases hl : before.getLast? with
  | none =>
    rw [List.getLast?_eq_none_iff] at hl
    subst hl
    exact ⟨nofun, nofun⟩
  | some last =>
    rw [Option.any_some, decide_eq_true_eq]
    constructor
    · exact fun hlt => ⟨last, List.mem_of_getLast? hl, hlt⟩
    · rintro ⟨t, ht, hlt⟩
      exact UInt64.lt_of_lt_of_le hlt (start_le_last ho hl t ht)

theorem itemFault?_eq_some (ho : before.Pairwise fun s t => s.start ≤ t.start)
    (h : itemFault? before s = some fault) :
    ∃ n, s.Breaks before n fault ∧ ∀ n' fault', s.Breaks before n' fault' → n ≤ n' := by
  unfold itemFault? at h
  split at h
  · rename_i hspan
    cases h
    exact ⟨0, .span hspan, fun _ _ _ => Nat.zero_le _⟩
  rename_i hspan
  split at h
  · rename_i hstart
    cases h
    obtain ⟨t, ht, hlt⟩ := (any_getLast?_iff ho).mp hstart
    refine ⟨1, .start ht hlt, fun n' fault' h' => ?_⟩
    cases h' with
    | span hlt => exact absurd hlt hspan
    | start _ _ => exact Nat.le_refl 1
    | path _ _ => decide
  rename_i hstart
  split at h
  · rename_i hpath
    cases h
    obtain ⟨t, ht, heq⟩ := List.any_eq_true.mp hpath
    refine ⟨2, .path ht (of_decide_eq_true heq), fun n' fault' h' => ?_⟩
    cases h' with
    | span hlt => exact absurd hlt hspan
    | start ht hlt => exact absurd ((any_getLast?_iff ho).mpr ⟨_, ht, hlt⟩) hstart
    | path _ _ => exact Nat.le_refl 2
  · cases h

/-- The item that a fault is found at follows items that keep the rules. -/
theorem itemsFault?_eq_some : ∀ (items : List Item) {before : List Item}, InOrder before →
    itemsFault? before items = some fault → ∃ init s rest, items = init ++ s :: rest ∧
      InOrder (before ++ init) ∧ itemFault? (before ++ init) s = some fault
  | [], _, _, h => nomatch h
  | s :: items, before, ho, h => by
    unfold itemsFault? at h
    cases hs : itemFault? before s with
    | some found =>
      rw [hs] at h
      cases h
      exact ⟨[], s, items, rfl, by rwa [List.append_nil], by rwa [List.append_nil]⟩
    | none =>
      rw [hs] at h
      obtain ⟨init, t, rest, hitems, hinit, ht⟩ :=
        itemsFault?_eq_some items (inOrder_concat.mpr ⟨ho, hs⟩) h
      rw [List.append_assoc, List.singleton_append] at hinit ht
      exact ⟨s :: init, t, rest, by rw [hitems, List.cons_append], hinit, ht⟩

/-! ## The first broken rule -/

theorem WellFormed.not_breaks (h : m.WellFormed) : ¬ m.Breaks n fault := by
  intro hbreaks
  cases hbreaks with
  | version hne => exact hne h.version
  | extension he => exact h.extension he
  | item hitems hitem =>
    have ho := h.inOrder
    rw [hitems, List.append_cons] at ho
    exact ho.of_append.not_breaks hitem

theorem Breaks.unique (h : m.Breaks n fault) (h' : m.Breaks n' fault') (hn : n = n') :
    fault = fault' := by
  cases h with
  | version _ =>
    cases h' with
    | version _ => rfl
    | extension _ => cases hn
    | item _ _ => omega
  | extension _ =>
    cases h' with
    | version _ => cases hn
    | extension _ => rfl
    | item _ _ => omega
  | item hitems hitem =>
    cases h' with
    | version _ => omega
    | extension _ => omega
    | item hitems' hitem' =>
      have hlt := hitem.lt_three
      have hlt' := hitem'.lt_three
      rcases split_cases (hitems.symm.trans hitems') with hlen | ⟨rfl, rfl⟩ | ⟨more, rfl⟩
      · omega
      · obtain rfl : _ = _ := Nat.add_left_cancel (Nat.add_right_cancel hn)
        exact hitem.unique hitem'
      · simp only [List.length_append, List.length_singleton] at hn
        omega

theorem firstFault_of_item (hv : m.version = currentVersion) (he : m.extension ≠ "")
    (hitems : m.items = init ++ s :: rest) (ho : InOrder init)
    (h : itemFault? init s = some fault) : m.FirstFault fault := by
  obtain ⟨n, hn, hleast⟩ := itemFault?_eq_some ho.starts h
  refine ⟨_, .item hitems hn, fun n' fault' h' => ?_⟩
  have hlt := hn.lt_three
  cases h' with
  | version hne => exact absurd hv hne
  | extension he' => exact absurd he' he
  | item hitems' hitem' =>
    rcases split_cases (hitems.symm.trans hitems') with hlen | ⟨rfl, rfl⟩ | ⟨more, rfl⟩
    · omega
    · have := hleast _ _ hitem'
      omega
    · exact absurd hitem' ho.of_append.not_breaks

theorem fault?_eq_some : m.fault? = some fault ↔ m.FirstFault fault := by
  have hfirst : ∀ fault, m.fault? = some fault → m.FirstFault fault := by
    intro fault h
    unfold fault? at h
    split at h
    · rename_i hv
      cases h
      exact ⟨0, .version hv, fun _ _ _ => Nat.zero_le _⟩
    rename_i hv
    split at h
    · rename_i he
      cases h
      refine ⟨1, .extension he, fun n' fault' h' => ?_⟩
      cases h' with
      | version hne => exact absurd hne hv
      | extension _ => exact Nat.le_refl 1
      | item _ _ => omega
    · rename_i he
      obtain ⟨init, s, rest, hitems, ho, hs⟩ := itemsFault?_eq_some m.items inOrder_nil h
      exact firstFault_of_item (Decidable.not_not.mp hv) he hitems ho hs
  refine ⟨hfirst fault, fun h => ?_⟩
  -- the fault that is found is also a first one, and a rule has one fault
  obtain ⟨n, hn, hleast⟩ := h
  cases hf : m.fault? with
  | none =>
    obtain ⟨hv, he, ho⟩ := fault?_eq_none.mp hf
    exact absurd hn (WellFormed.not_breaks ⟨hv, he, ho⟩)
  | some found =>
    obtain ⟨n', hn', hleast'⟩ := hfirst found hf
    rw [hn'.unique hn (Nat.le_antisymm (hleast' _ _ hn) (hleast _ _ hn'))]

theorem wellFormed_iff : m.WellFormed ↔ m.fault? = none := by
  rw [fault?_eq_none]
  exact ⟨fun h => ⟨h.version, h.extension, h.inOrder⟩, fun ⟨hv, he, ho⟩ => ⟨hv, he, ho⟩⟩

/-! ## Reading a file -/

/-- The answer to a reading of `m`: the manifest as it stands if it keeps every rule, and else the
first rule that it breaks. -/
structure Judges (m : Manifest) (path : Path) (answer : Except Error Manifest) : Prop where
  accepted : answer = .ok m ↔ m.WellFormed
  refused : ∀ fault, m.FirstFault fault →
    answer = .error (.corrupt s!"{path}: {fault.message}")
  faulty : ¬ m.WellFormed → ∃ fault, m.FirstFault fault

inductive Damage (path : Path) (bs : Bytes) : Error → Prop
  | unreadable : (∀ text, bs ≠ Utf8.encode text) → Damage path bs (.io .notUtf8)
  | malformed {text : String} {flaw : Json.Flaw} : bs = Utf8.encode text →
      ofText text = .error flaw → Damage path bs (.corrupt s!"{path}: {flaw.message}")
  | faulty {text : String} {m : Manifest} {fault : Fault} : bs = Utf8.encode text →
      ofText text = .ok m → m.FirstFault fault →
      Damage path bs (.corrupt s!"{path}: {fault.message}")

theorem judges_of_text (hd : d.read path = .ok (Utf8.encode text)) (hm : ofText text = .ok m) :
    m.Judges path (load path d) := by
  rw [load_of_text hd hm]
  constructor
  · rw [wellFormed_iff]
    cases m.fault? with
    | none => exact ⟨fun _ => rfl, fun _ => rfl⟩
    | some fault => exact ⟨nofun, nofun⟩
  · intro fault hfault
    rw [fault?_eq_some.mpr hfault]
  · intro hfaulty
    cases hf : m.fault? with
    | none => exact absurd (wellFormed_iff.mpr hf) hfaulty
    | some fault => exact ⟨fault, fault?_eq_some.mp hf⟩

/-- A document of a manifest is read as it stands if the manifest keeps every rule, and is refused
for the first rule that it breaks if not; and so is what was stored. -/
theorem load_judges (m : Manifest) (path : Path) :
    (∀ d text, d.read path = .ok (Utf8.encode text) → ofText text = .ok m →
      m.Judges path (load path d)) ∧
    ∀ d d', d.Sound →
      (∀ i, d.lookUp (path.withExtension "tmp") = .ok (.file i) → (d.medium i).Honest) →
      m.store path d = (.ok (), d') → m.Judges path (load path d') :=
  ⟨fun _ _ hd hm => judges_of_text hd hm,
    fun _ _ hs hh hst => judges_of_text (read_stored hs hh hst) (ofText_text m)⟩

/-- The third item breaks all three rules of an item. -/
def muddled : Manifest where
  version := currentVersion
  extension := "idx"
  finished := false
  items := [⟨⟨"twice.ts", by decide, by decide⟩, 10, 12⟩,
    ⟨⟨"once.ts", by decide, by decide⟩, 20, 25⟩, ⟨⟨"twice.ts", by decide, by decide⟩, 15, 11⟩]

theorem load_judges_muddled : ¬ muddled.WellFormed ∧ (shelf "m.json").Sound ∧
    ∃ d', muddled.store ⟨"m.json"⟩ (shelf "m.json") = (.ok (), d') ∧
      d'.read ⟨"m.json"⟩ = .ok (Utf8.encode muddled.text) ∧
      load ⟨"m.json"⟩ d' =
        .error (.corrupt "m.json: segment 2 ends (11) before it starts (15)") := by
  have hfault : muddled.fault? = some (.endsEarly 2 11 15) := by decide +kernel
  have hstored : (muddled.store ⟨"m.json"⟩ (shelf "m.json")).1.isOk = true := by decide +kernel
  have hnone : ((shelf "m.json").lookUp ((⟨"m.json"⟩ : Path).withExtension "tmp")).isOk = false := by
    decide +kernel
  have hhonest : ∀ i, (shelf "m.json").lookUp ((⟨"m.json"⟩ : Path).withExtension "tmp") =
      .ok (.file i) → ((shelf "m.json").medium i).Honest := by
    intro i hi
    rw [hi] at hnone
    cases hnone
  refine ⟨?_, sound_shelf _, ?_⟩
  · rw [wellFormed_iff, hfault]
    exact nofun
  · generalize hst : muddled.store ⟨"m.json"⟩ (shelf "m.json") = stored at hstored
    obtain ⟨result, d'⟩ := stored
    obtain rfl : result = .ok () := eq_ok_of_isOk hstored
    obtain ⟨hread, hstore⟩ := load_judges muddled ⟨"m.json"⟩
    have hjudges := hstore _ _ (sound_shelf _) hhonest hst
    have htext := read_stored (sound_shelf _) hhonest hst
    refine ⟨d', rfl, htext, ?_⟩
    rw [(hread d' _ htext (ofText_text _)).refused _ (fault?_eq_some.mp hfault)]
    decide +kernel

/-! ## Damaged files -/

theorem decode?_eq_none {bs : Bytes} :
    Utf8.decode? bs = none ↔ ∀ text, bs ≠ Utf8.encode text := by
  rw [Option.eq_none_iff_forall_ne_some]
  exact forall_congr' fun text => not_congr Utf8.decode?_eq_some

theorem load_of_no_text {bs : Bytes} (hd : d.read path = .ok bs)
    (hbs : ∀ text, bs ≠ Utf8.encode text) : load path d = .error (.io .notUtf8) := by
  unfold load Disk.readText
  rw [hd, ok_bind, decode?_eq_none.mpr hbs]
  rfl

theorem load_of_flaw {flaw : Json.Flaw} (hd : d.read path = .ok (Utf8.encode text))
    (hm : ofText text = .error flaw) :
    load path d = .error (.corrupt s!"{path}: {flaw.message}") := by
  unfold load
  rw [Disk.readText_of_read hd, mapError_ok, ok_bind, hm]
  rfl

theorem load_eq_error {bs : Bytes} (hd : d.read path = .ok bs) :
    load path d = .error e ↔ Damage path bs e := by
  constructor
  · intro hload
    cases htext : Utf8.decode? bs with
    | none =>
      have hbs := decode?_eq_none.mp htext
      rw [load_of_no_text hd hbs] at hload
      cases hload
      exact .unreadable hbs
    | some text =>
      obtain rfl := Utf8.decode?_eq_some.mp htext
      cases hm : ofText text with
      | error flaw =>
        rw [load_of_flaw hd hm] at hload
        cases hload
        exact .malformed rfl hm
      | ok m =>
        rw [load_of_text hd hm] at hload
        split at hload
        · cases hload
        · rename_i hfault
          cases hload
          exact .faulty rfl hm (fault?_eq_some.mp hfault)
  · intro hdamage
    cases hdamage with
    | unreadable hbs => exact load_of_no_text hd hbs
    | malformed hbs hm => exact load_of_flaw (hbs ▸ hd) hm
    | faulty hbs hm hfault => exact (judges_of_text (hbs ▸ hd) hm).refused _ hfault

theorem Damage.cases {bs : Bytes} (h : Damage path bs e) :
    (∃ text, bs = Utf8.encode text) ∧ (∃ what, e = .corrupt what) ∨
      (∀ text, bs ≠ Utf8.encode text) ∧ e = .io .notUtf8 := by
  cases h with
  | unreadable hbs => exact .inr ⟨hbs, rfl⟩
  | malformed hbs _ => exact .inl ⟨⟨_, hbs⟩, _, rfl⟩
  | faulty hbs _ _ => exact .inl ⟨⟨_, hbs⟩, _, rfl⟩

theorem load_recording_eq_error :
    Recording.load path d = .error e ↔ load path d = .error e := by
  unfold Recording.load
  cases load path d with
  | ok m => exact ⟨nofun, nofun⟩
  | error e' => rw [error_bind, Except.error.injEq, Except.error.injEq]

/-- Whatever the bytes of a file are, as a manifest and as a recording it is refused for its first
damage and for nothing else. That is told as damage just where the file holds text. -/
theorem damage_told (h : d.lookUp path = .ok (.file i)) (e : Error) :
    (load path d = .error e ↔ Damage path (d.content i) e) ∧
    (Recording.load path d = .error e ↔ Damage path (d.content i) e) ∧
    (Damage path (d.content i) e →
      (∃ text, d.content i = Utf8.encode text) ∧ (∃ what, e = .corrupt what) ∨
      (∀ text, d.content i ≠ Utf8.encode text) ∧ e = .io .notUtf8) := by
  have hload := load_eq_error (e := e) (Disk.read_eq_ok.mpr ⟨i, h, rfl⟩)
  exact ⟨hload, load_recording_eq_error.trans hload, Damage.cases⟩

end

def held : Path := ⟨"m.json"⟩

def holding (bs : Bytes) : Disk where
  here := []
  nodes := [([held.chars], .file 0)]
  files := [(0, { content := bs })]
  next := 1

theorem lookUp_holding (bs : Bytes) : (holding bs).lookUp held = .ok (.file 0) := rfl

/-- A document that stops short is damaged. -/
theorem damage_told_short : (holding (Utf8.encode "[1,")).lookUp held = .ok (.file 0) ∧
    load held (holding (Utf8.encode "[1,")) = .error (.corrupt "m.json: <json>") ∧
    Recording.load held (holding (Utf8.encode "[1,")) = .error (.corrupt "m.json: <json>") := by
  have hflaw : ofText "[1," = .error .malformed := by decide +kernel
  have hmessage : "m.json: <json>" = s!"{held}: {Json.Flaw.malformed.message}" := by
    decide +kernel
  have hdamage : Damage held ((holding (Utf8.encode "[1,")).content 0)
      (.corrupt "m.json: <json>") := hmessage ▸ .malformed rfl hflaw
  obtain ⟨hload, hrecording, _⟩ :=
    damage_told (lookUp_holding (Utf8.encode "[1,")) (.corrupt "m.json: <json>")
  exact ⟨rfl, hload.mpr hdamage, hrecording.mpr hdamage⟩

/-- A damaged byte makes a file unreadable, which is told as storage that failed. -/
theorem damage_untold : (holding [0xff]).lookUp held = .ok (.file 0) ∧
    load held (holding [0xff]) = .error (.io .notUtf8) ∧
    Recording.load held (holding [0xff]) = .error (.io .notUtf8) := by
  refine ⟨rfl, ?_, ?_⟩
  · decide +kernel
  · decide +kernel

end Timeshift.Manifest
