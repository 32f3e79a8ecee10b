import Mathlib.Algebra.Group.Nat.Defs
import Timeshift.Proofs.Index.Handle
import Timeshift.Proofs.Index.Searching

/-!
# Searching any bytes

A file may be rewritten or cut while it is open, so a search may meet records in any order. It finds
some record of the file or none, and which of the two hangs on the first record alone. `Checked`
searches in words of 64 bits and stops at a result that has no room in one and at a read behind the
complete records; on every file it comes to the same answer without a stop.
-/

namespace Timeshift.Index

/-! ## Records in any order -/

/-- Halving ends between its bounds, and not at a place that has the property. -/
theorem bisect_within {p : Nat → Except Error Bool} (lo hi : Nat) (h : lo ≤ hi)
    (hp : ∀ i, lo ≤ i → i < hi → ∃ b, p i = .ok b) :
    ∃ m, bisect p lo hi = .ok m ∧ lo ≤ m ∧ m ≤ hi ∧ (m < hi → p m = .ok false) := by
  fun_induction bisect p lo hi with
  | case1 lo hi hlt mid ih₁ ih₂ =>
    have hmid : mid = lo + (hi - lo) / 2 := rfl
    obtain ⟨b, hb⟩ := hp mid (by omega) (by omega)
    rw [hb, ok_bind]
    cases b with
    | true =>
      rw [if_pos rfl]
      have hright : ∀ i, mid + 1 ≤ i → i < hi → ∃ b, p i = .ok b := by
        intro i hi₁ hi₂
        exact hp i (by omega) hi₂
      obtain ⟨m, hm, hlo, hhi, hnot⟩ := ih₁ (by omega) hright
      exact ⟨m, hm, by omega, hhi, hnot⟩
    | false =>
      rw [if_neg Bool.false_ne_true]
      have hleft : ∀ i, lo ≤ i → i < mid → ∃ b, p i = .ok b := by
        intro i hi₁ hi₂
        exact hp i hi₁ (by omega)
      obtain ⟨m, hm, hlo, hhi, hnot⟩ := ih₂ (by omega) hleft
      refine ⟨m, hm, hlo, by omega, fun _ => ?_⟩
      rcases Nat.lt_or_eq_of_le hhi with hlt | heq
      · exact hnot hlt
      · rw [heq]
        exact hb
  | case2 lo hi hge => exact ⟨lo, rfl, Nat.le_refl _, h, fun hlt => absurd hlt hge⟩

section
variable {bs : Bytes} {time : UInt64} {first : Entry} {early : UInt64 → Bool}

theorem readEntry_early {i : Nat} {e : Entry} (early : UInt64 → Bool)
    (hi : (Entry.readAll bs)[i]? = some e) :
    (do return early (← readEntry bs i).timestamp : Except Error Bool) =
      .ok (early e.timestamp) := by
  rw [readEntry_eq_ok hi]
  rfl

theorem bisect_records (bs : Bytes) (early : UInt64 → Bool) {hi : Nat}
    (hhi : hi ≤ (Entry.readAll bs).length) :
    ∃ m, bisect (fun i => return early (← readEntry bs i).timestamp) 0 hi = .ok m ∧ m ≤ hi ∧
      ∀ e, m < hi → (Entry.readAll bs)[m]? = some e → early e.timestamp = false := by
  obtain ⟨m, hm, _, hle, hnot⟩ := bisect_within
    (p := fun i => return early (← readEntry bs i).timestamp) 0 hi (Nat.zero_le _) fun i _ hi =>
      ⟨_, readEntry_early early (List.getElem?_eq_getElem (Nat.lt_of_lt_of_le hi hhi))⟩
  refine ⟨m, hm, hle, ?_⟩
  intro e hlt he
  have := hnot hlt
  rw [readEntry_early early he] at this
  exact Except.ok.inj this

/-- The first halving does not end in front of the first record, so there is one before its end; the
second stays in front of that one. -/
theorem bisect_twice (hfirst : (Entry.readAll bs)[0]? = some first)
    (hle : first.timestamp ≤ time) : ∃ n found k e,
      bisect (fun i => return decide ((← readEntry bs i).timestamp ≤ time)) 0
        (Entry.readAll bs).length = .ok (n + 1) ∧
      (Entry.readAll bs)[n]? = some found ∧
      bisect (fun i => return decide ((← readEntry bs i).timestamp < found.timestamp)) 0 n =
        .ok k ∧
      (Entry.readAll bs)[k]? = some e := by
  have hpos := (List.getElem?_eq_some_iff.mp hfirst).1
  obtain ⟨m, hupper, hm, hnot⟩ :=
    bisect_records bs (fun t => decide (t ≤ time)) (Nat.le_refl _)
  have hne : m ≠ 0 := by
    rintro rfl
    exact of_decide_eq_false (hnot first hpos hfirst) hle
  obtain ⟨n, rfl⟩ := Nat.exists_eq_succ_of_ne_zero hne
  have hfound := List.getElem?_eq_getElem (l := Entry.readAll bs) (i := n) hm
  obtain ⟨k, htie, hk, _⟩ := bisect_records bs
    (fun t => decide (t < (Entry.readAll bs)[n].timestamp)) (Nat.le_of_succ_le hm)
  have he := List.getElem?_eq_getElem (l := Entry.readAll bs) (i := k) (Nat.lt_of_le_of_lt hk hm)
  exact ⟨n, _, k, _, hupper, hfound, htie, he⟩

theorem search_any (path : Path) (bs : Bytes) (time : UInt64) :
    (∃ e ∈ Entry.readAll bs, search path bs time = .ok e ∧
        ∃ first ∈ (Entry.readAll bs).head?, first.timestamp ≤ time) ∨
      (Entry.readAll bs = [] ∨ ∃ first ∈ (Entry.readAll bs).head?, time < first.timestamp) ∧
        ∃ what, search path bs time = .error (.notFound what) := by
  cases hfirst : (Entry.readAll bs).head? with
  | none =>
    have hnil := List.head?_eq_none_iff.mp hfirst
    exact .inr ⟨.inl hnil, _, search_nil path hnil time⟩
  | some first =>
    have hplace := hfirst
    rw [List.head?_eq_getElem?] at hplace
    by_cases hle : first.timestamp ≤ time
    · left
      obtain ⟨n, found, k, e, hupper, hfound, htie, he⟩ := bisect_twice hplace hle
      exact ⟨e, List.mem_of_getElem? he, search_after path hplace hle hupper hfound htie he, first,
        rfl, hle⟩
    · right
      have hlt := UInt64.not_le.mp hle
      exact ⟨.inr ⟨first, rfl, hlt⟩, _, search_early path hplace hlt⟩

end

/-! ## Counting in words -/

inductive Trap
  /-- A result that has no room in a word. -/
  | overflow
  /-- A read that is not within the complete records. -/
  | outside
  /-- A halving that does not end. -/
  | endless
  deriving DecidableEq

namespace Checked

def add (a b : UInt64) : Except Trap UInt64 :=
  if a.toNat + b.toNat < UInt64.size then .ok (a + b) else .error .overflow

def sub (a b : UInt64) : Except Trap UInt64 := if b ≤ a then .ok (a - b) else .error .overflow

def mul (a b : UInt64) : Except Trap UInt64 :=
  if a.toNat * b.toNat < UInt64.size then .ok (a * b) else .error .overflow

def read (bs : Bytes) (i : UInt64) : Except Trap Entry := do
  let start ← mul i 16
  if start.toNat + Entry.size ≤ bs.length / Entry.size * Entry.size then
    return .decode ((bs.drop start.toNat).take Entry.size)
  throw .outside

def midpoint (lo hi : UInt64) : Except Trap UInt64 := do add lo ((← sub hi lo) / 2)

/-- The first place from `lo` up to `hi` that is not early, if it is found in so many rounds. -/
def halve (bs : Bytes) (early : UInt64 → Bool) : Nat → UInt64 → UInt64 → Except Trap UInt64
  | 0, _, _ => .error .endless
  | rounds + 1, lo, hi =>
    if lo < hi then do
      let mid ← midpoint lo hi
      if early (← read bs mid).timestamp then halve bs early rounds (← add mid 1) hi
      else halve bs early rounds lo mid
    else .ok lo

/-- The search in words. A halving gets as many rounds as a word has bits. -/
def search (path : Path) (bs : Bytes) (time : UInt64) : Except Trap (Except Error Entry) := do
  let count := UInt64.ofNat bs.length / 16
  if count = 0 then return .error (.notFound s!"{path} has no entries")
  let first ← read bs 0
  if time < first.timestamp then
    return .error (.notFound s!"time {time} precedes first entry {first.timestamp} in {path}")
  let upper ← halve bs (fun t => t ≤ time) 64 0 count
  let found ← read bs (← sub upper 1)
  let tie ← halve bs (fun t => t < found.timestamp) 64 0 (← sub upper 1)
  return .ok (← read bs tie)

section
variable {bs : Bytes} {a b lo hi : UInt64} {first e : Entry} {time : UInt64}

theorem add_eq_ok (h : a.toNat + b.toNat < UInt64.size) :
    ∃ c, add a b = .ok c ∧ c.toNat = a.toNat + b.toNat := by
  refine ⟨a + b, if_pos h, ?_⟩
  rw [UInt64.toNat_add]
  exact Nat.mod_eq_of_lt h

theorem sub_eq_ok (h : b ≤ a) : ∃ c, sub a b = .ok c ∧ c.toNat = a.toNat - b.toNat :=
  ⟨a - b, if_pos h, UInt64.toNat_sub_of_le a b h⟩

theorem mul_eq_ok (h : a.toNat * b.toNat < UInt64.size) :
    ∃ c, mul a b = .ok c ∧ c.toNat = a.toNat * b.toNat := by
  refine ⟨a * b, if_pos h, ?_⟩
  rw [UInt64.toNat_mul]
  exact Nat.mod_eq_of_lt h

theorem read_eq_ok (hlen : bs.length < UInt64.size) (he : (Entry.readAll bs)[a.toNat]? = some e) :
    read bs a = .ok e := by
  have ha := (List.getElem?_eq_some_iff.mp he).1
  rw [Entry.length_readAll] at ha
  have hend : (a.toNat + 1) * Entry.size ≤ bs.length / Entry.size * Entry.size :=
    Nat.mul_le_mul_right _ ha
  have hwhole := Nat.div_mul_le_self bs.length Entry.size
  rw [Nat.succ_mul] at hend
  obtain ⟨start, hstart, hvalue⟩ : ∃ start, mul a 16 = .ok start ∧
      start.toNat = a.toNat * Entry.size := by
    apply mul_eq_ok
    apply Nat.lt_of_le_of_lt _ hlen
    exact Nat.le_trans (Nat.le_of_add_right_le hend) hwhole
  have hread := Entry.readAt?_eq bs a.toNat
  rw [he, Entry.readAt?, Nat.succ_mul, if_pos (Nat.le_trans hend hwhole)] at hread
  unfold read
  rw [hstart, ok_bind, hvalue, if_pos hend, Option.some.inj hread]
  rfl

theorem midpoint_eq_ok (h : lo < hi) : ∃ mid, midpoint lo hi = .ok mid ∧
    mid.toNat = lo.toNat + (hi.toNat - lo.toNat) / 2 := by
  have hlt := UInt64.lt_iff_toNat_lt.mp h
  obtain ⟨n, hn, hvalue⟩ := sub_eq_ok (UInt64.le_of_lt h)
  have hhalf : (n / 2).toNat = (hi.toNat - lo.toNat) / 2 := by rw [UInt64.toNat_div, hvalue]; rfl
  obtain ⟨mid, hmid, hsum⟩ : ∃ mid, add lo (n / 2) = .ok mid ∧
      mid.toNat = lo.toNat + (n / 2).toNat := by
    apply add_eq_ok
    have := hi.toNat_lt
    rw [hhalf, UInt64.size]
    omega
  refine ⟨mid, ?_, by rw [hsum, hhalf]⟩
  unfold midpoint
  rw [hn, ok_bind, hmid]

/-- A round leaves at most half of the places. -/
theorem halve_eq_ok (hlen : bs.length < UInt64.size) (early : UInt64 → Bool) (rounds : Nat)
    (lo hi : UInt64) (hle : lo ≤ hi) (hhi : hi.toNat ≤ (Entry.readAll bs).length)
    (hrounds : hi.toNat - lo.toNat < 2 ^ rounds) :
    ∃ m, halve bs early (rounds + 1) lo hi = .ok m ∧
      bisect (fun i => return early (← readEntry bs i).timestamp) lo.toNat hi.toNat =
        .ok m.toNat := by
  induction rounds generalizing lo hi with
  | zero =>
    have heq : lo = hi := by
      apply UInt64.toNat_inj.mp
      have := UInt64.le_iff_toNat_le.mp hle
      omega
    have hlt : ¬ lo.toNat < hi.toNat := by rw [heq]; exact Nat.lt_irrefl _
    rw [halve, if_neg (fun h => hlt (UInt64.lt_iff_toNat_lt.mp h)), bisect, if_neg hlt]
    exact ⟨lo, rfl, rfl⟩
  | succ rounds ih =>
    by_cases hlt : lo < hi
    · have hlt' := UInt64.lt_iff_toNat_lt.mp hlt
      obtain ⟨mid, hmid, hvalue⟩ := midpoint_eq_ok hlt
      have hin : mid.toNat < (Entry.readAll bs).length := by omega
      have he := List.getElem?_eq_getElem hin
      rw [halve, if_pos hlt, hmid, ok_bind, read_eq_ok hlen he, ok_bind, bisect, if_pos hlt']
      simp only [← hvalue, readEntry_early early he, ok_bind]
      by_cases hearly : early (Entry.readAll bs)[mid.toNat].timestamp = true
      · obtain ⟨next, hnext, hnextValue⟩ : ∃ next, add mid 1 = .ok next ∧
            next.toNat = mid.toNat + 1 := by
          -- the place lies below `hi`, so there is a word for the next one
          apply add_eq_ok
          have := hi.toNat_lt
          rw [UInt64.size, show (1 : UInt64).toNat = 1 from rfl]
          omega
        rw [if_pos hearly, if_pos hearly, hnext, ok_bind, ← hnextValue]
        refine ih next hi ?_ hhi ?_
        · apply UInt64.le_iff_toNat_le.mpr
          omega
        · omega
      · rw [if_neg hearly, if_neg hearly]
        refine ih lo mid ?_ ?_ ?_
        · apply UInt64.le_iff_toNat_le.mpr
          omega
        · omega
        · omega
    · have hlt' : ¬ lo.toNat < hi.toNat := fun h => hlt (UInt64.lt_iff_toNat_lt.mpr h)
      rw [halve, if_neg hlt, bisect, if_neg hlt']
      exact ⟨lo, rfl, rfl⟩

/-- A word has bits enough for a halving of all places of a file. -/
theorem halve_of_bisect {n m : Nat} (early : UInt64 → Bool) (hlen : bs.length < UInt64.size)
    (hn : hi.toNat = n) (hle : n ≤ (Entry.readAll bs).length)
    (h : bisect (fun i => return early (← readEntry bs i).timestamp) 0 n = .ok m) :
    ∃ c, halve bs early 64 0 hi = .ok c ∧ c.toNat = m := by
  subst hn
  have hshort : hi.toNat < 2 ^ 63 := by
    rw [Entry.length_readAll, Entry.size] at hle
    rw [UInt64.size] at hlen
    omega
  obtain ⟨c, hc, hvalue⟩ := halve_eq_ok hlen early 63 0 hi UInt64.zero_le hle hshort
  rw [show (0 : UInt64).toNat = 0 from rfl, h] at hvalue
  exact ⟨c, hc, (Except.ok.inj hvalue).symm⟩

theorem search_eq_ok (path : Path) (hlen : bs.length < UInt64.size) (time : UInt64) :
    search path bs time = .ok (Index.search path bs time) := by
  have hcount : (UInt64.ofNat bs.length / 16).toNat = (Entry.readAll bs).length := by
    rw [UInt64.toNat_div, UInt64.toNat_ofNat_of_lt' hlen, Entry.length_readAll]
    rfl
  cases hfirst : (Entry.readAll bs)[0]? with
  | none =>
    rw [← List.head?_eq_getElem?, List.head?_eq_none_iff] at hfirst
    have hzero : UInt64.ofNat bs.length / 16 = 0 := by
      apply UInt64.toNat_inj.mp
      rw [hcount, hfirst]
      rfl
    rw [search_nil path hfirst, search]
    simp only [hzero, if_true]
    rfl
  | some first =>
    have hpos := (List.getElem?_eq_some_iff.mp hfirst).1
    have hne : UInt64.ofNat bs.length / 16 ≠ 0 := by
      intro hzero
      rw [hzero] at hcount
      exact absurd hcount (Nat.ne_of_lt hpos)
    by_cases hlt : time < first.timestamp
    · rw [search_early path hfirst hlt, search]
      simp only [hne, if_false, read_eq_ok (a := 0) hlen hfirst, ok_bind, hlt, if_true]
      rfl
    · have hle := UInt64.not_lt.mp hlt
      -- what the plain search reads on its way bounds every word of this one
      obtain ⟨n, found, k, e, hupper, hfound, htie, he⟩ := bisect_twice hfirst hle
      have hn := (List.getElem?_eq_some_iff.mp hfound).1
      obtain ⟨upper, hcheckedUpper, hupperValue⟩ :=
        halve_of_bisect (fun t => decide (t ≤ time)) hlen hcount (Nat.le_refl _) hupper
      obtain ⟨before, hbefore, hbeforeValue⟩ : ∃ c, sub upper 1 = .ok c ∧ c.toNat = n := by
        have hone : 1 ≤ upper := UInt64.le_iff_toNat_le.mpr (hupperValue ▸ Nat.le_add_left 1 n)
        obtain ⟨c, hc, hvalue⟩ := sub_eq_ok hone
        exact ⟨c, hc, by rw [hvalue, hupperValue]; rfl⟩
      obtain ⟨tie, hcheckedTie, htieValue⟩ :=
        halve_of_bisect (fun t => decide (t < found.timestamp)) hlen hbeforeValue
          (Nat.le_of_lt hn) htie
      rw [search_after path hfirst hle hupper hfound htie he, search]
      simp only [hne, if_false, read_eq_ok (a := 0) hlen hfirst, ok_bind, hlt, hcheckedUpper,
        hbefore, read_eq_ok (a := before) hlen (hbeforeValue.symm ▸ hfound), hcheckedTie,
        read_eq_ok (a := tie) hlen (htieValue.symm ▸ he)]
      rfl

end

def lookUp (x : Index) (time : UInt64) (d : Disk) : Except Trap (Except Error UInt64) := do
  match x.file with
  | some i => return (← search x.path (d.content i) time).map (·.offset)
  | none => return .error .closed

end Checked

/-- On an open handle a lookup comes to an answer whatever the file holds: a record of the file, or
that there is none if the file has none or its first is later than the time. Done in words, where
one has room for the length of the file, it never overflows, reads complete records only, and
ends. -/
theorem lookUp_safe {x : Index} {i : FileId} {d : Disk} (hx : x.file = some i) (time : UInt64) :
    ((d.content i).length < UInt64.size → Checked.lookUp x time d = .ok (x.lookUp time d)) ∧
    ((∃ what, x.lookUp time d = .error (.notFound what)) ↔
      Entry.readAll (d.content i) = [] ∨
        ∃ first ∈ (Entry.readAll (d.content i)).head?, time < first.timestamp) ∧
    ((∃ what, x.lookUp time d = .error (.notFound what)) ∨
      ∃ e ∈ Entry.readAll (d.content i), x.lookUp time d = .ok e.offset) := by
  rw [lookUp_of_file hx]
  refine ⟨?_, ?_⟩
  · intro hlen
    unfold Checked.lookUp
    simp only [hx, Checked.search_eq_ok x.path hlen time]
    rfl
  rcases search_any x.path (d.content i) time with
    ⟨e, he, hs, first, hfirst, hle⟩ | ⟨hnone, what, hs⟩
  · rw [hs]
    refine ⟨⟨nofun, ?_⟩, .inr ⟨e, he, rfl⟩⟩
    rintro (hnil | ⟨first', hfirst', hlt⟩)
    · rw [hnil] at he
      cases he
    · rw [Option.mem_def.mp hfirst] at hfirst'
      cases hfirst'
      exact absurd hlt (UInt64.not_lt.mpr hle)
  · rw [hs]
    exact ⟨⟨fun _ => hnone, fun _ => ⟨what, rfl⟩⟩, .inl ⟨what, rfl⟩⟩

def liveDisk : Disk := ⟨[], [(["live.idx".toList], .file 0)], [(0, {})], 1⟩

/-- The same file with four records out of order and the start of a fifth. -/
def rewritten : Disk :=
  liveDisk.setContent 0 (Entry.encodeAll [⟨5, 0⟩, ⟨9, 188⟩, ⟨3, 376⟩, ⟨7, 564⟩] ++ [1, 2])

/-- A handle that was opened before the file was rewritten finds some record. -/
theorem lookUp_safe_rewritten : ∃ x, openPlayback ⟨"live.idx"⟩ liveDisk = .ok x ∧
    x.lookUp 8 rewritten = .ok 188 ∧ ∃ what, x.lookUp 4 rewritten = .error (.notFound what) := by
  have hopen : openPlayback ⟨"live.idx"⟩ liveDisk =
      .ok ⟨⟨"live.idx"⟩, .playback, some 0, none, 0, 0⟩ := by decide
  have hsafe := lookUp_safe (x := ⟨⟨"live.idx"⟩, .playback, some 0, none, 0, 0⟩) (d := rewritten)
    rfl
  have hwords : Checked.lookUp ⟨⟨"live.idx"⟩, .playback, some 0, none, 0, 0⟩ 8 rewritten =
      .ok (.ok 188) := by decide
  refine ⟨_, hopen, ?_, ?_⟩
  · rw [(hsafe 8).1 (by decide)] at hwords
    exact Except.ok.inj hwords
  · exact (hsafe 4).2.1.mpr (.inr ⟨⟨5, 0⟩, rfl, by decide⟩)

end Timeshift.Index
