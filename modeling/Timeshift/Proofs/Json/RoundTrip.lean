import Mathlib.Data.List.Basic
import Timeshift.Json.Record
import Timeshift.Json.Value
import Timeshift.Proofs.Result

/-!
# Reading back indented JSON

Each reader takes the indented form of a value off the front of a text, with blanks before it and
the next comma, line or the end behind it (`Reads`). For arrays and objects the values inside have
only to be read one after another into what is held so far.
-/

namespace Timeshift.Json

/-! ## Strings -/

theorem readChars_escape (c : Char) (rest : List Char) :
    readChars (escape c ++ rest) = push c (readChars rest) := by
  have hsimple : ∀ {d : Char}, d ≠ 'u' → simpleEscape? d = some c →
      readChars ('\\' :: d :: rest) = push c (readChars rest) := fun hd hs => by
    rw [readChars.eq_3 _ _ (fun _ _ _ _ _ h => absurd h hd), hs]
  unfold escape
  by_cases h₁ : c = '"'
  · rw [if_pos h₁]; subst h₁; exact hsimple (by decide) rfl
  rw [if_neg h₁]
  by_cases h₂ : c = '\\'
  · rw [if_pos h₂]; subst h₂; exact hsimple (by decide) rfl
  rw [if_neg h₂]
  by_cases h₃ : c = '\x08'
  · rw [if_pos h₃]; subst h₃; exact hsimple (by decide) rfl
  rw [if_neg h₃]
  by_cases h₄ : c = '\x0c'
  · rw [if_pos h₄]; subst h₄; exact hsimple (by decide) rfl
  rw [if_neg h₄]
  by_cases h₅ : c = '\n'
  · rw [if_pos h₅]; subst h₅; exact hsimple (by decide) rfl
  rw [if_neg h₅]
  by_cases h₆ : c = '\r'
  · rw [if_pos h₆]; subst h₆; exact hsimple (by decide) rfl
  rw [if_neg h₆]
  by_cases h₇ : c = '\t'
  · rw [if_pos h₇]; subst h₇; exact hsimple (by decide) rfl
  rw [if_neg h₇]
  by_cases h₈ : c.toNat < 0x20
  · rw [if_pos h₈]
    have hunit : ∀ n < 0x20,
        codeUnit? '0' '0' (Text.hexDigit (n / 16)) (Text.hexDigit n) = some n ∧
          isLeading n = false ∧ isTrailing n = false := by decide
    obtain ⟨hu, hl, ht⟩ := hunit _ h₈
    show readChars ('\\' :: 'u' :: '0' :: '0' :: Text.hexDigit (c.toNat / 16) ::
      Text.hexDigit c.toNat :: rest) = _
    rw [readChars, hu]
    simp only [hl, ht, Bool.false_eq_true, if_false, Char.ofNat_toNat]
  · rw [if_neg h₈]
    show readChars (c :: rest) = _
    rw [readChars.eq_4 _ _ h₁ (fun _ _ _ _ _ h => absurd h h₂) (fun _ _ h => absurd h h₂)]
    simp [h₂, h₈]

theorem readChars_quoted (rest : List Char) : ∀ cs : List Char,
    readChars (cs.flatMap escape ++ '"' :: rest) = .ok (cs, rest)
  | [] => readChars.eq_1 rest
  | c :: cs => by
    rw [List.flatMap_cons, List.append_assoc, readChars_escape, readChars_quoted rest cs]
    rfl

/-! ## Blanks -/

/-- What may stand behind a value: a comma, a line break or nothing. -/
def Stops (tail : List Char) : Prop := ∀ c ∈ tail.head?, c = ',' ∨ c = '\n'

def Reads {α : Type} (read : Reader α) (text : List Char) (a : α) : Prop :=
  ∀ blank tail, (∀ c ∈ blank, isBlank c = true) → Stops tail →
    read (blank ++ text ++ tail) = .ok (a, tail)

theorem skipBlank_append {blank rest : List Char} (hb : ∀ c ∈ blank, isBlank c = true)
    (hr : ∀ c ∈ rest.head?, isBlank c = false) : skipBlank (blank ++ rest) = rest := by
  unfold skipBlank
  rw [List.dropWhile_append_of_pos hb]
  cases rest with
  | nil => rfl
  | cons c rest => rw [List.dropWhile_cons_of_neg (by rw [hr c rfl]; exact Bool.false_ne_true)]

theorem skipBlank_nonblank {c : Char} {cs : List Char} (h : isBlank c = false) :
    skipBlank (c :: cs) = c :: cs := by
  unfold skipBlank
  rw [List.dropWhile_cons_of_neg (by rw [h]; exact Bool.false_ne_true)]

theorem isBlank_newline (depth : Nat) : ∀ c ∈ newline depth, isBlank c = true := by
  intro c hc
  rcases List.mem_cons.mp hc with rfl | hc
  · rfl
  · rw [List.eq_of_mem_replicate hc]; rfl

theorem readString_quote (s : String) {blank : List Char} (hb : ∀ c ∈ blank, isBlank c = true)
    (tail : List Char) : readString (blank ++ quote s ++ tail) = .ok (s, tail) := by
  have hq : quote s ++ tail = '"' :: (s.toList.flatMap escape ++ '"' :: tail) := by
    simp [quote]
  have hskip : skipBlank (blank ++ quote s ++ tail) = quote s ++ tail := by
    rw [List.append_assoc]
    exact skipBlank_append hb (by rw [hq]; rintro c ⟨⟩; rfl)
  unfold readString
  rw [hskip, hq]
  simp [readChars_quoted, Except.map]

theorem reads_string (s : String) : Reads readString (quote s) s :=
  fun _ tail hb _ => readString_quote s hb tail

/-! ## Numbers and truth values -/

theorem takeWhile_digits {ds tail : List Char} (hd : ∀ c ∈ ds, c.isDigit = true)
    (ht : ∀ c ∈ tail.head?, c.isDigit = false) :
    (ds ++ tail).takeWhile (·.isDigit) = ds ∧ (ds ++ tail).dropWhile (·.isDigit) = tail := by
  rw [List.takeWhile_append_of_pos hd, List.dropWhile_append_of_pos hd]
  cases tail with
  | nil => exact ⟨List.append_nil _, rfl⟩
  | cons c tail =>
    have hc : ¬ c.isDigit = true := by rw [ht c rfl]; exact Bool.false_ne_true
    rw [List.takeWhile_cons_of_neg hc, List.dropWhile_cons_of_neg hc]
    exact ⟨List.append_nil _, rfl⟩

theorem toDigits_head_zero (n : Nat) (h : (Nat.toDigits 10 n).head? = some '0') :
    Nat.toDigits 10 n = ['0'] := by
  induction n using Nat.strongRecOn with
  | ind n ih =>
    by_cases hn : n < 10
    · rw [Nat.toDigits_of_lt_base hn] at h ⊢
      rw [Option.some.inj h]
    · have hlt : n / 10 < n := by omega
      rw [Nat.toDigits_of_base_le (by decide) (by omega)] at h
      have hne : Nat.toDigits 10 (n / 10) ≠ [] := Nat.toDigits_ne_nil
      rw [List.head?_append_of_ne_nil _ hne] at h
      have h0 := ih (n / 10) hlt h
      have hval := Nat.ofDigitChars_ten_toDigits (n := n / 10)
      rw [h0] at hval
      have : n / 10 = 0 := hval.symm
      omega

theorem reads_nat {bound n : Nat} (h : n < bound) :
    Reads (readNat bound) (Nat.toDigits 10 n) n := by
  intro blank tail hb ht
  have hd : ∀ c ∈ Nat.toDigits 10 n, c.isDigit = true := fun c hc =>
    Nat.isDigit_of_mem_toDigits (by decide) (by decide) hc
  have hne : Nat.toDigits 10 n ≠ [] := Nat.toDigits_ne_nil
  have hskip : skipBlank (blank ++ Nat.toDigits 10 n ++ tail) = Nat.toDigits 10 n ++ tail := by
    rw [List.append_assoc]
    refine skipBlank_append hb fun c hc => ?_
    rw [List.head?_append_of_ne_nil _ hne] at hc
    have hc := hd c (List.mem_of_head? hc)
    unfold isBlank
    simp only [Bool.or_eq_false_iff, decide_eq_false_iff_not]
    refine ⟨⟨⟨?_, ?_⟩, ?_⟩, ?_⟩ <;> (rintro rfl; cases hc)
  obtain ⟨htake, hdrop⟩ := takeWhile_digits hd fun (c : Char) (hc : c ∈ tail.head?) => by
    rcases ht c hc with rfl | rfl <;> rfl
  have hcont : continuesNumber tail = false := by
    cases tail with
    | nil => rfl
    | cons c tail => rcases ht c rfl with rfl | rfl <;> rfl
  have hzero : ¬ ((Nat.toDigits 10 n).head? = some '0' ∧ Nat.toDigits 10 n ≠ ['0']) :=
    fun hz => hz.2 (toDigits_head_zero n hz.1)
  unfold readNat
  simp only [hskip, htake, hdrop, Nat.ofDigitChars_ten_toDigits, hcont]
  rw [if_neg]
  simp only [Bool.or_eq_true, decide_eq_true_eq, Bool.and_eq_true, Bool.false_eq_true, or_false]
  rintro ((h₁ | h₂) | h₃)
  · exact hne h₁
  · exact hzero h₂
  · exact absurd h (Nat.not_lt.mpr h₃)

theorem reads_word (n : UInt64) : Reads readWord (Nat.toDigits 10 n.toNat) n := by
  intro blank tail hb ht
  unfold readWord
  rw [reads_nat n.toNat_lt blank tail hb ht]
  simp [Except.map]

theorem reads_bool (depth : Nat) (b : Bool) : Reads readBool ((Json.bool b).lines depth) b := by
  intro blank tail hb _
  cases b with
  | true =>
    have hskip : skipBlank (blank ++ (Json.bool true).lines depth ++ tail) =
        't' :: 'r' :: 'u' :: 'e' :: tail := by
      rw [List.append_assoc]; exact skipBlank_append hb (by rintro c ⟨⟩; rfl)
    unfold readBool
    rw [hskip]
    rfl
  | false =>
    have hskip : skipBlank (blank ++ (Json.bool false).lines depth ++ tail) =
        'f' :: 'a' :: 'l' :: 's' :: 'e' :: tail := by
      rw [List.append_assoc]; exact skipBlank_append hb (by rintro c ⟨⟩; rfl)
    unfold readBool
    rw [hskip]
    rfl

/-! ## Arrays -/

/-- A value starts with none of the characters that its surroundings are made of. -/
theorem lines_head (depth : Nat) (x : Json) :
    ∃ c cs, x.lines depth = c :: cs ∧ isBlank c = false ∧ c ≠ ']' := by
  cases x with
  | null => exact ⟨'n', _, rfl, rfl, by decide⟩
  | bool b =>
    cases b with
    | true => exact ⟨'t', _, rfl, rfl, by decide⟩
    | false => exact ⟨'f', _, rfl, rfl, by decide⟩
  | number n =>
    obtain ⟨c, cs, hc⟩ := List.exists_cons_of_ne_nil (Nat.toDigits_ne_nil (n := n) (b := 10))
    have hd : c.isDigit = true := Nat.isDigit_of_mem_toDigits (b := 10) (n := n) (by decide)
      (by decide) (hc ▸ List.mem_cons_self)
    refine ⟨c, cs, hc, ?_, fun h => by rw [h] at hd; cases hd⟩
    unfold isBlank
    simp only [Bool.or_eq_false_iff, decide_eq_false_iff_not]
    refine ⟨⟨⟨?_, ?_⟩, ?_⟩, ?_⟩ <;> (rintro rfl; cases hd)
  | string s => exact ⟨'"', _, rfl, rfl, by decide⟩
  | array xs =>
    cases xs with
    | nil => exact ⟨'[', _, rfl, rfl, by decide⟩
    | cons x xs => exact ⟨'[', _, rfl, rfl, by decide⟩
  | object ms =>
    cases ms with
    | nil => exact ⟨'\x7b', _, rfl, rfl, by decide⟩
    | cons m ms => exact ⟨'\x7b', _, rfl, rfl, by decide⟩

section
variable {σ : Type}

def ElementsRead (step : σ → Reader σ) (depth : Nat) : σ → List Json → σ → Prop
  | s, [], s' => s = s'
  | s, x :: xs, s' =>
    ∃ s₁, Reads (step s) (x.lines depth) s₁ ∧ ElementsRead step depth s₁ xs s'

theorem stops_elementLines (depth : Nat) (xs : List Json) (rest : List Char) :
    Stops (elementLines depth xs ++ rest) := by
  cases xs with
  | nil => rintro c ⟨⟩; exact .inr rfl
  | cons x xs => rintro c ⟨⟩; exact .inl rfl

theorem length_elementLines (depth : Nat) :
    ∀ xs : List Json, xs.length < (elementLines depth xs).length
  | [] => by simp [elementLines, newline]
  | x :: xs => by
    have := length_elementLines depth xs
    simp only [elementLines, List.length_cons, List.length_append]
    omega

theorem readElements_lines (step : σ → Reader σ) (depth : Nat) (rest : List Char) (s' : σ) :
    ∀ (xs : List Json) (x : Json) (s : σ) (fuel : Nat), xs.length < fuel →
      ElementsRead step (depth + 1) s (x :: xs) s' →
        readElements step fuel s (newline (depth + 1) ++ x.lines (depth + 1) ++
          (elementLines depth xs ++ rest)) = .ok (s', rest)
  | xs, x, s, 0, hf, _ => absurd hf (Nat.not_lt_zero _)
  | xs, x, s, fuel + 1, hf, ⟨s₁, hx, hxs⟩ => by
    rw [readElements, hx _ _ (isBlank_newline _) (stops_elementLines depth xs rest), ok_bind]
    cases xs with
    | nil =>
      have hskip : skipBlank (elementLines depth [] ++ rest) = ']' :: rest := by
        rw [elementLines, List.append_assoc]
        exact skipBlank_append (isBlank_newline depth) (by rintro c ⟨⟩; rfl)
      rw [show s₁ = s' from hxs]
      simp only [hskip]
      rfl
    | cons y ys =>
      have hskip : skipBlank (elementLines depth (y :: ys) ++ rest) = ',' :: (newline (depth + 1) ++
          y.lines (depth + 1) ++ (elementLines depth ys ++ rest)) := by
        rw [elementLines]
        simp only [List.cons_append, List.append_assoc]
        exact skipBlank_nonblank rfl
      simp only [hskip]
      exact readElements_lines step depth rest s' ys y s₁ fuel
        (by simp only [List.length_cons] at hf; omega) hxs

theorem reads_array {step : σ → Reader σ} {depth : Nat} {s s' : σ} {xs : List Json}
    (h : ElementsRead step (depth + 1) s xs s') :
    Reads (readArray step s) ((Json.array xs).lines depth) s' := by
  intro blank tail hb _
  unfold readArray
  cases xs with
  | nil =>
    have hskip : skipBlank (blank ++ (Json.array []).lines depth ++ tail) = '[' :: ']' :: tail := by
      rw [List.append_assoc]; exact skipBlank_append hb (by rintro c ⟨⟩; rfl)
    rw [hskip, show s = s' from h]
    rfl
  | cons x xs =>
    have hskip : skipBlank (blank ++ (Json.array (x :: xs)).lines depth ++ tail) =
        '[' :: (newline (depth + 1) ++ x.lines (depth + 1) ++ (elementLines depth xs ++ tail)) := by
      rw [List.append_assoc, lines]
      simp only [List.cons_append, List.append_assoc]
      exact skipBlank_append hb (by rintro c ⟨⟩; rfl)
    obtain ⟨c, cs, hx, hc, hne⟩ := lines_head (depth + 1) x
    have hfirst : skipBlank (newline (depth + 1) ++ x.lines (depth + 1) ++
        (elementLines depth xs ++ tail)) = c :: (cs ++ (elementLines depth xs ++ tail)) := by
      rw [List.append_assoc, hx]
      exact skipBlank_append (isBlank_newline _) (by rintro d ⟨⟩; exact hc)
    simp only [hskip, hfirst]
    split
    · rename_i heq; cases heq; exact absurd rfl hne
    · refine readElements_lines step depth tail s' xs x s _ ?_ h
      have := length_elementLines depth xs
      simp only [List.length_append]
      omega

/-! ## Objects -/

def MembersRead (step : String → σ → Reader σ) (depth : Nat) : σ → List (String × Json) → σ → Prop
  | s, [], s' => s = s'
  | s, (k, x) :: ms, s' =>
    ∃ s₁, Reads (step k s) (x.lines depth) s₁ ∧ MembersRead step depth s₁ ms s'

theorem stops_memberLines (depth : Nat) (ms : List (String × Json)) (rest : List Char) :
    Stops (memberLines depth ms ++ rest) := by
  cases ms with
  | nil => rintro c ⟨⟩; exact .inr rfl
  | cons m ms => rintro c ⟨⟩; exact .inl rfl

theorem length_memberLines (depth : Nat) :
    ∀ ms : List (String × Json), ms.length < (memberLines depth ms).length
  | [] => by simp [memberLines, newline]
  | (k, x) :: ms => by
    have := length_memberLines depth ms
    simp only [memberLines, List.length_cons, List.length_append]
    omega

theorem readMembers_lines (step : String → σ → Reader σ) (depth : Nat) (rest : List Char) (s' : σ) :
    ∀ (ms : List (String × Json)) (k : String) (x : Json) (s : σ) (fuel : Nat), ms.length < fuel →
      MembersRead step (depth + 1) s ((k, x) :: ms) s' →
        readMembers step fuel s (newline (depth + 1) ++ quote k ++ (':' :: ' ' ::
          x.lines (depth + 1) ++ (memberLines depth ms ++ rest))) = .ok (s', rest)
  | ms, k, x, s, 0, hf, _ => absurd hf (Nat.not_lt_zero _)
  | ms, k, x, s, fuel + 1, hf, ⟨s₁, hx, hms⟩ => by
    have hkey : readString (newline (depth + 1) ++ quote k ++ (':' :: ' ' ::
        x.lines (depth + 1) ++ (memberLines depth ms ++ rest))) =
        .ok (k, ':' :: ' ' :: x.lines (depth + 1) ++ (memberLines depth ms ++ rest)) :=
      readString_quote k (isBlank_newline _) _
    have hcolon : skipBlank (':' :: ' ' :: x.lines (depth + 1) ++ (memberLines depth ms ++ rest)) =
        ':' :: ([' '] ++ x.lines (depth + 1) ++ (memberLines depth ms ++ rest)) :=
      skipBlank_nonblank rfl
    have hvalue := hx [' '] _ (by intro c hc; rw [List.mem_singleton.mp hc]; rfl)
      (stops_memberLines depth ms rest)
    rw [readMembers, hkey, ok_bind]
    simp only [hcolon]
    rw [hvalue, ok_bind]
    cases ms with
    | nil =>
      have hskip : skipBlank (memberLines depth [] ++ rest) = '\x7d' :: rest := by
        rw [memberLines, List.append_assoc]
        exact skipBlank_append (isBlank_newline depth) (by rintro c ⟨⟩; rfl)
      rw [show s₁ = s' from hms]
      simp only [hskip]
      rfl
    | cons m ms =>
      obtain ⟨l, y⟩ := m
      have hskip : skipBlank (memberLines depth ((l, y) :: ms) ++ rest) = ',' ::
          (newline (depth + 1) ++ quote l ++ (':' :: ' ' :: y.lines (depth + 1) ++
            (memberLines depth ms ++ rest))) := by
        rw [memberLines]
        simp only [List.cons_append, List.append_assoc]
        exact skipBlank_nonblank rfl
      simp only [hskip]
      exact readMembers_lines step depth rest s' ms l y s₁ fuel
        (by simp only [List.length_cons] at hf; omega) hms

theorem reads_object {step : String → σ → Reader σ} {depth : Nat} {s s' : σ}
    {ms : List (String × Json)} (h : MembersRead step (depth + 1) s ms s') :
    Reads (readObject step s) ((Json.object ms).lines depth) s' := by
  intro blank tail hb _
  unfold readObject
  cases ms with
  | nil =>
    have hskip : skipBlank (blank ++ (Json.object []).lines depth ++ tail) =
        '\x7b' :: '\x7d' :: tail := by
      rw [List.append_assoc]; exact skipBlank_append hb (by rintro c ⟨⟩; rfl)
    rw [hskip, show s = s' from h]
    rfl
  | cons m ms =>
    obtain ⟨k, x⟩ := m
    have hskip : skipBlank (blank ++ (Json.object ((k, x) :: ms)).lines depth ++ tail) =
        '\x7b' :: (newline (depth + 1) ++ quote k ++ (':' :: ' ' :: x.lines (depth + 1) ++
          (memberLines depth ms ++ tail))) := by
      rw [List.append_assoc, lines]
      simp only [List.cons_append, List.append_assoc]
      exact skipBlank_append hb (by rintro c ⟨⟩; rfl)
    have hfirst : skipBlank (newline (depth + 1) ++ quote k ++ (':' :: ' ' ::
        x.lines (depth + 1) ++ (memberLines depth ms ++ tail))) = '"' :: (k.toList.flatMap escape ++
          '"' :: (':' :: ' ' :: x.lines (depth + 1) ++ (memberLines depth ms ++ tail))) := by
      rw [List.append_assoc, skipBlank_append (isBlank_newline _) (by rintro c ⟨⟩; rfl)]
      simp [quote]
    simp only [hskip, hfirst]
    refine readMembers_lines step depth tail s' ms k x s _ ?_ h
    have := length_memberLines depth ms
    simp only [List.length_append, List.length_cons]
    omega

theorem reads_record (fields : List String) {step : String → σ → Reader σ} {depth : Nat} {s s' : σ}
    {ms : List (String × Json)} (h : MembersRead step (depth + 1) s ms s') :
    Reads (readRecord fields step s) ((Json.object ms).lines depth) s' := by
  intro blank tail hb ht
  have hopen : ∃ cs, skipBlank (blank ++ (Json.object ms).lines depth ++ tail) = '\x7b' :: cs := by
    rw [List.append_assoc]
    cases ms with
    | nil => exact ⟨_, skipBlank_append hb (by rintro c ⟨⟩; rfl)⟩
    | cons m ms => exact ⟨_, skipBlank_append hb (by rintro c ⟨⟩; rfl)⟩
  obtain ⟨cs, hcs⟩ := hopen
  unfold readRecord
  simp only [hcs]
  exact reads_object h blank tail hb ht

end

/-! ## Whole texts -/

theorem readAll_of_reads {α : Type} {read : Reader α} {x : Json} {a : α}
    (h : Reads read (x.lines 0) a) : readAll read x.pretty = .ok a := by
  have := h [] [] (by intro c hc; cases hc) (by rintro c ⟨⟩)
  unfold readAll pretty
  rw [String.toList_ofList, ← List.append_nil (x.lines 0), ← List.nil_append (x.lines 0), this]
  rfl

end Timeshift.Json
