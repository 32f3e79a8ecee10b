import Timeshift.Proofs.Disk.Replace

/-!
# A replacement cut short

A replacement may stop after any of its effects, and between any two pieces of what it writes. Only
the temporary file is touched until the last effect, which puts the new content in full under the
name. What stands at no other place changes.
-/

namespace Timeshift

namespace Effect

/-- The effects of `replacing` when the new content reaches the temporary file in pieces. -/
def inPieces (path temporary : Path) (pieces : List Bytes) : List Effect :=
  .create temporary :: (pieces.map .append ++ [.sync, .rename temporary path])

theorem inPieces_whole (path temporary : Path) (bs : Bytes) :
    inPieces path temporary [bs] = replacing path temporary bs := rfl

end Effect

namespace Disk

/-- What a replacement on `d` leaves when it is stopped: of its effects those in front of some point
were reached. One that fails stops it too. -/
def Stops (path temporary : Path) (bs : Bytes) (d d' : Disk) : Prop :=
  ∃ pieces done rest, pieces.flatten = bs ∧
    Effect.inPieces path temporary pieces = done ++ rest ∧
      d' = (Effect.runAll (d, d.next) done).2.1

theorem stops_replace (path temporary : Path) (bs : Bytes) (d : Disk) :
    Stops path temporary bs d (d.replace path temporary bs).2 := by
  refine ⟨[bs], Effect.replacing path temporary bs, [], ?_, ?_, rfl⟩
  · rw [List.flatten_cons, List.flatten_nil, List.append_nil]
  · rw [List.append_nil, Effect.inPieces_whole]

/-! ## The places that are touched -/

structure Spares (places : Name → Prop) (d d' : Disk) : Prop where
  extends_ : Extends d d'
  back : Extends d' d
  node? : ∀ n, ¬places n → d'.node? n = d.node? n
  file : ∀ n i, ¬places n → d.node? n = some (.file i) → d'.file i = d.file i

section
variable {d d' d₁ : Disk} {p q : Path} {s t : Name} {i : FileId} {bs : Bytes}
  {places : Name → Prop}

theorem Spares.refl (places : Name → Prop) (d : Disk) : Spares places d d :=
  ⟨.refl d, .refl d, fun _ _ => rfl, fun _ _ _ _ => rfl⟩

theorem Spares.lookUp (h : Spares places d d') (hq : ∀ n, d.LeadsTo q n → ¬places n) :
    d'.lookUp q = .ok (.file i) ↔ d.lookUp q = .ok (.file i) := by
  rw [lookUp_eq_file, lookUp_eq_file]
  constructor
  · rintro ⟨n, hn, hi⟩
    have hn' := hn.mono h.back
    exact ⟨n, hn', by rw [← h.node? n (hq n hn'), hi]⟩
  · rintro ⟨n, hn, hi⟩
    exact ⟨n, hn.mono h.extends_, by rw [h.node? n (hq n hn), hi]⟩

theorem Spares.file_eq (h : Spares places d d') (hq : ∀ n, d.LeadsTo q n → ¬places n)
    (hi : d.lookUp q = .ok (.file i)) : d'.file i = d.file i := by
  obtain ⟨n, hn, hnode⟩ := lookUp_eq_file.mp hi
  exact h.file n i (hq n hn) hnode

theorem Spares.read (h : Spares places d d') (hq : ∀ n, d.LeadsTo q n → ¬places n) :
    (d'.read q).toOption = (d.read q).toOption := by
  apply toOption_congr
  intro bs
  rw [read_eq_ok, read_eq_ok]
  refine exists_congr fun i => ?_
  rw [h.lookUp hq]
  apply and_congr_right
  intro hi
  unfold content
  rw [h.file_eq hq hi]

theorem ChangesAt.file_eq (h : ChangesAt s i d d') (hs : d.Sound) {n : Name} {j : FileId}
    (hj : d.node? n = some (.file j)) (hn : n ≠ s) : d'.file j = d.file j := by
  obtain ⟨hcontent, hmedium⟩ := h.other hs hj hn
  exact file_congr hcontent hmedium

theorem Written.spares (h : Written s i d d') (hd : d.Sound) (hs : places s) :
    Spares places d d' := by
  obtain ⟨hext, hback⟩ := h.extends_
  refine ⟨hext, hback, fun n hn => ?_, fun n j hn hj => ?_⟩
  · rw [h.node?, if_neg (fun e : n = s => hn (e ▸ hs))]
  · exact h.file_eq hd hj fun e => hn (e ▸ hs)

theorem Replaced.spares (h : Replaced s t i d d') (hd : d.Sound) (hs : places s)
    (ht : places t) : Spares places d d' := by
  refine ⟨h.extends_, ⟨h.here.symm, fun n hn => ?_⟩, fun n hn => ?_, fun n j hn hj => ?_⟩
  · rw [h.node?] at hn
    split at hn
    · cases hn
    · split at hn
      · cases hn
      · exact hn
  · rw [h.node?, if_neg (fun e : n = t => hn (e ▸ ht)), if_neg (fun e : n = s => hn (e ▸ hs))]
  · exact h.file_eq hd hj fun e => hn (e ▸ hs)

/-! ## Stopping -/

inductive Outcome (q p : Path) (bs : Bytes) (d : Disk) : Disk → Prop
  | untouched : Outcome q p bs d d
  | written {s : Name} {i : FileId} {d' : Disk} : d.LeadsTo p s → Written s i d d' →
      Outcome q p bs d d'
  | replaced {s t : Name} {i : FileId} {d' : Disk} : d.LeadsTo p s → d.LeadsTo q t →
      Replaced s t i d d' →
      ((∀ j, d.lookUp p = .ok (.file j) → (d.medium j).Honest) → d'.content i = bs) →
      Outcome q p bs d d'

theorem content_append_ok (hm : (d.medium i).Honest) (hsync : (d.medium i).syncError = none)
    (h : (d.append i bs).1 = .ok ()) : (d.append i bs).2.content i = d.content i ++ bs := by
  by_cases hbs : bs = []
  · unfold append
    rw [if_pos hbs, hbs, List.append_nil]
  · apply content_append_synced hbs hm
    rw [h]
    change (d.append i bs).2.sync i = .ok ()
    unfold sync
    rw [(changesOnly_append i d bs).medium, hsync]
    rfl

/-- Once all is written, only the last effect changes anything. -/
theorem stopped_renaming {done rest : List Effect}
    (h : [Effect.sync, .rename p q] = done ++ rest) :
    (Effect.runAll (d, i) done).2.1 = d ∨
      (d.medium i).syncError = none ∧ d.rename p q = .ok (Effect.runAll (d, i) done).2.1 := by
  -- stopped before the sync, between sync and rename, or after both
  match done, h with
  | [], _ => exact .inl rfl
  | [e], h =>
    obtain ⟨rfl, _⟩ := List.cons.inj h
    left
    simp only [Effect.runAll, Effect.run]
    cases d.sync i with
    | ok _ => rfl
    | error _ => rfl
  | e :: e' :: done, h =>
    obtain ⟨rfl, h'⟩ := List.cons.inj h
    obtain ⟨rfl, hdone⟩ := List.cons.inj h'
    obtain ⟨rfl, _⟩ := List.append_eq_nil_iff.mp hdone.symm
    cases hs : (d.medium i).syncError with
    | some _ =>
      left
      simp only [Effect.runAll, Effect.run, sync, hs, failing]
      rfl
    | none =>
      have hsync : d.sync i = .ok () := by
        unfold sync
        rw [hs]
        rfl
      cases hr : d.rename p q with
      | ok d₁ =>
        right
        simp only [Effect.runAll, Effect.run, hsync, mapError_ok, hr, and_self]
      | error _ =>
        left
        simp only [Effect.runAll, Effect.run, hsync, mapError_ok, hr]

/-- After the temporary file is made, every effect but the last changes only that file. By induction
on the pieces that are still to be written. -/
theorem stopped_writing : ∀ {pieces : List Bytes} {d : Disk} {done rest : List Effect},
    pieces.map Effect.append ++ [.sync, .rename p q] = done ++ rest →
      ChangesOnly i d (Effect.runAll (d, i) done).2.1 ∨
      ∃ d₁, ChangesOnly i d d₁ ∧ (d.medium i).syncError = none ∧
        ((d.medium i).Honest → d₁.content i = d.content i ++ pieces.flatten) ∧
        d₁.rename p q = .ok (Effect.runAll (d, i) done).2.1
  | [], d, done, rest, h => by
    rcases stopped_renaming h with hsame | ⟨hsync, hr⟩
    · rw [hsame]
      exact .inl (.refl i d)
    · exact .inr ⟨d, .refl i d, hsync, fun _ => (List.append_nil _).symm, hr⟩
  | _ :: _, d, [], _, _ => .inl (.refl i d)
  | bs :: pieces, d, e :: done, rest, h => by
    obtain ⟨rfl, h'⟩ := List.cons.inj h
    have happend := changesOnly_append i d bs
    cases ha : (d.append i bs).1 with
    | error _ =>
      left
      simp only [Effect.runAll, Effect.run, ha]
      exact happend
    | ok _ =>
      have hrun : Effect.runAll (d, i) (.append bs :: done) =
          Effect.runAll ((d.append i bs).2, i) done := by
        simp only [Effect.runAll, Effect.run, ha]
        rfl
      rw [hrun]
      rcases stopped_writing h' with hc | ⟨d₁, hc, hsync, hcontent, hr⟩
      · exact .inl (happend.trans hc)
      · rw [happend.medium] at hsync hcontent
        refine .inr ⟨d₁, happend.trans hc, hsync, fun hm => ?_, hr⟩
        rw [hcontent hm, content_append_ok hm hsync ha, List.flatten_cons, List.append_assoc]

/-- Whatever effect a replacement is stopped after, the temporary file was not made, or it holds
something, or it is the file under the name now and holds the new content. -/
theorem Stops.outcome (h : Stops q p bs d d') (hs : d.Sound) : Outcome q p bs d d' := by
  obtain ⟨pieces, done, rest, rfl, heffects, rfl⟩ := h
  match done, heffects with
  | [], _ => exact .untouched
  | e :: done, h =>
    obtain ⟨rfl, h'⟩ := List.cons.inj h
    cases hcreate : d.create p with
    | error err =>
      simp only [Effect.runAll, Effect.run, hcreate]
      exact .untouched
    | ok made =>
      obtain ⟨i, d₁⟩ := made
      obtain ⟨s, hp, hw, hempty⟩ := written_of_create hcreate
      simp only [Effect.runAll, Effect.run, hcreate]
      rcases stopped_writing h' with hc | ⟨d₂, hc, _, hcontent, hr⟩
      · exact .written hp (hw.changes hc)
      · obtain ⟨t, hq, hreplaced, hsame⟩ := (hw.changes hc).rename hs hp hr
        refine .replaced hp hq hreplaced fun hm => ?_
        rw [hsame, hcontent (hw.honest hp hm), hempty, List.nil_append]

theorem Outcome.spares (h : Outcome q p bs d d') (hs : d.Sound) :
    Spares (fun n => d.LeadsTo p n ∨ d.LeadsTo q n) d d' := by
  cases h with
  | untouched => exact .refl _ d
  | written hp hw => exact hw.spares hs (.inl hp)
  | replaced hp hq hr _ => exact hr.spares hs (.inl hp) (.inr hq)

theorem Outcome.sound (h : Outcome q p bs d d') (hs : d.Sound) : d'.Sound := by
  cases h with
  | untouched => exact hs
  | written _ hw => exact hw.sound hs
  | replaced _ hq hr _ => exact hr.sound hs hq

/-- Where the two places differ, the path is read as before or holds the new content. -/
theorem Outcome.read_path (h : Outcome q p bs d d') (hs : d.Sound)
    (hne : ∀ {m n}, d.LeadsTo q m → d.LeadsTo p n → m ≠ n)
    (hm : ∀ j, d.lookUp p = .ok (.file j) → (d.medium j).Honest) :
    (d'.read q).toOption = (d.read q).toOption ∨ d'.read q = .ok bs := by
  cases h with
  | untouched => exact .inl rfl
  | @written s i _ hp hw =>
    left
    have hspares : Spares (fun n => n = s) d d' := hw.spares hs rfl
    apply hspares.read
    intro n hn
    exact hne hn hp
  | replaced hp hq hr hcontent =>
    right
    exact read_eq_ok.mpr ⟨_, hr.lookUp hq, hcontent hm⟩

end

end Disk

end Timeshift
