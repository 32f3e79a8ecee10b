import Timeshift.Proofs.Index.Handle

/-!
# Recovery of a file that was cut

A crash cuts an index anywhere, inside a record too. Opening the file for recording brings it back
to the complete records of the row that was in it; from then on the last of these decides which
writes are accepted.
-/

namespace Timeshift

namespace Entry

theorem encodeAll_take (es : List Entry) (n : Nat) :
    (encodeAll es).take (n * size) = encodeAll (es.take n) := by
  induction es generalizing n with
  | nil => simp
  | cons e es ih =>
    cases n with
    | zero => simp
    | succ n =>
      have hlen : (n + 1) * size = e.encode.length + n * size := by
        rw [length_encode, Nat.succ_mul, Nat.add_comm]
      rw [encodeAll_cons, List.take_succ_cons, encodeAll_cons, hlen, List.take_length_add_append, ih]

/-- A cut row is a shorter row and the beginning of the record that was cut. -/
theorem take_encodeAll (es : List Entry) {n : Nat} (h : n ≤ (encodeAll es).length) :
    ∃ torn, torn.length = n % size ∧
      (encodeAll es).take n = encodeAll (es.take (n / size)) ++ torn := by
  have hn : n / size * size + n % size = n := by rw [Nat.mul_comm]; exact Nat.div_add_mod n size
  refine ⟨((encodeAll es).drop (n / size * size)).take (n % size), ?_, ?_⟩
  · rw [List.length_take, List.length_drop]
    omega
  · rw [← encodeAll_take, ← List.take_add, hn]

theorem readAll_take_encodeAll (es : List Entry) {n : Nat} (h : n ≤ (encodeAll es).length) :
    readAll ((encodeAll es).take n) = es.take (n / size) := by
  obtain ⟨torn, hlen, hcut⟩ := take_encodeAll es h
  rw [hcut]
  apply readAll_append
  rw [hlen]
  exact Nat.mod_lt n (by decide)

end Entry

namespace Index

/-! ## Entries offered one after another -/

def verdict (es : List Entry) (e : Entry) : Except Error Unit :=
  match es.getLast? with
  | some last =>
    if e.timestamp < last.timestamp then
      .error (.timestampRegression e.timestamp last.timestamp)
    else .ok ()
  | none => .ok ()

def verdicts (es : List Entry) : List Entry → List (Except Error Unit)
  | [] => []
  | e :: more =>
    verdict es e :: verdicts (if (verdict es e).isOk then es ++ [e] else es) more

def accepted (es : List Entry) : List Entry → List Entry
  | [] => []
  | e :: more =>
    if (verdict es e).isOk then e :: accepted (es ++ [e]) more else accepted es more

/-- Writes one entry after another. A handle whose write failed goes on as it was. -/
def writeEach (x : Index) (w : World) : List Entry → List (Except Error Unit) × Index × World
  | [] => ([], x, w)
  | e :: more =>
    match x.write e w with
    | (.ok y, w) =>
      let (answers, z, w) := y.writeEach w more
      (.ok () :: answers, z, w)
    | (.error err, w) =>
      let (answers, z, w) := x.writeEach w more
      (.error err :: answers, z, w)

section
variable {path : Path} {x : Index} {i : FileId} {es : List Entry} {e : Entry} {w : World}

theorem verdict_cases (es : List Entry) (e : Entry) :
    verdict es e = .ok () ∧ Admits es e.timestamp ∨
      ∃ last ∈ es.getLast?, e.timestamp < last.timestamp ∧
        verdict es e = .error (.timestampRegression e.timestamp last.timestamp) := by
  unfold verdict Admits
  cases hl : es.getLast? with
  | none => exact .inl ⟨rfl, nofun⟩
  | some last =>
    by_cases h : e.timestamp < last.timestamp
    · exact .inr ⟨last, rfl, h, if_pos h⟩
    · refine .inl ⟨if_neg h, ?_⟩
      intro l hl
      cases hl
      exact UInt64.not_lt.mp h

theorem verdicts_cons (hv : verdict es e = .ok ()) (more : List Entry) :
    verdicts es (e :: more) = .ok () :: verdicts (es ++ [e]) more ∧
      accepted es (e :: more) = e :: accepted (es ++ [e]) more := by
  simp [verdicts, accepted, hv, Except.isOk, Except.toBool]

theorem verdicts_cons_error {err : Error} (hv : verdict es e = .error err) (more : List Entry) :
    verdicts es (e :: more) = .error err :: verdicts es more ∧
      accepted es (e :: more) = accepted es more := by
  simp [verdicts, accepted, hv, Except.isOk, Except.toBool]

theorem write_late {last : Entry} (h : x.Tracks i es) (hl : last ∈ es.getLast?)
    (hlt : e.timestamp < last.timestamp) :
    x.write e w = (.error (.timestampRegression e.timestamp last.timestamp), w) := by
  have hlater : x.later? e.timestamp = some last.timestamp := by
    unfold later?
    rw [h.tail, Option.mem_def.mp hl]
    simpa using hlt
  unfold write
  rw [h.mode, h.file]
  simp only [hlater]

/-- On storage that does not fail a writer gives the verdicts of its row, and its file goes on with
what was accepted. -/
theorem Tracks.writeEach (more : List Entry) (h : x.Tracks i es)
    (hc : w.disk.content i = Entry.encodeAll es) (hm : w.disk.medium i = .regular) :
    (x.writeEach w more).1 = verdicts es more ∧
      (x.writeEach w more).2.1.Tracks i (es ++ accepted es more) ∧
      w.disk.ChangesOnly i (x.writeEach w more).2.2.disk ∧
      (x.writeEach w more).2.2.disk.content i = Entry.encodeAll (es ++ accepted es more) := by
  induction more generalizing x es w with
  | nil =>
    rw [accepted, List.append_nil]
    exact ⟨rfl, h, .refl i _, hc⟩
  | cons e more ih =>
    rcases verdict_cases es e with ⟨hv, ha⟩ | ⟨last, hl, hlt, hv⟩
    · have hw := (write_admitted (w := w) h ha).1 (Disk.append_of_regular hm _)
      obtain ⟨_, htracks, hchange, hcontent⟩ :=
        write_ok h hc (hm ▸ Medium.faithful_regular.exact) hw
      obtain ⟨hanswers, htracks', hchange', hcontent'⟩ :=
        ih htracks hcontent ((hchange.medium i).trans hm)
      obtain ⟨hverdicts, haccepted⟩ := verdicts_cons hv more
      rw [List.append_assoc, List.singleton_append] at htracks' hcontent'
      simp only [Index.writeEach, hw]
      rw [hverdicts, haccepted, hanswers]
      exact ⟨rfl, htracks', hchange.trans hchange', hcontent'⟩
    · have hw := write_late (w := w) h hl hlt
      obtain ⟨hanswers, hrest⟩ := ih h hc hm
      obtain ⟨hverdicts, haccepted⟩ := verdicts_cons_error hv more
      simp only [Index.writeEach, hw]
      rw [hverdicts, haccepted, hanswers]
      exact ⟨rfl, hrest⟩

/-! ## Opening a file that was cut -/

theorem openRecord_of_regular (hl : w.disk.lookUp path = .ok (.file i))
    (hm : w.disk.medium i = .regular) (ho : IsOrdered (Entry.readAll (w.disk.content i))) :
    ∃ w', openRecord path w = (.ok (recorderOf path i (w.disk.content i)), w') ∧
      w.disk.ChangesOnly i w'.disk ∧
      w'.disk.content i = Entry.encodeAll (Entry.readAll (w.disk.content i)) := by
  have hcreate := Disk.openCreate_of_file hl
  have hopen : (openRecord path w).1 = .ok (recorderOf path i (w.disk.content i)) := by
    by_cases ht : (w.disk.content i).length % Entry.size = 0
    · rw [openRecord_whole hcreate ho ht]
    · obtain ⟨_, hx⟩ := openRecord_torn hcreate ho ht
      have hcut : ∀ m, (w.disk.resize i m).1 = .ok () ∧ (w.disk.resize i m).2.sync i = .ok () := by
        intro m
        constructor
        · rw [Disk.resize_of_faithful (hm ▸ Medium.faithful_regular)]
        · unfold Disk.sync
          rw [(Disk.changesOnly_resize i w.disk m).medium, hm]
          rfl
      rw [hx, (hcut _).1]
      simp only [Except.bind, (hcut _).2]
  cases hr : openRecord path w with
  | mk result w' =>
    rw [hr] at hopen
    cases hopen
    obtain ⟨j, d, hj, _, _, hchange, hcontent⟩ := openRecord_ok hr
    rw [hcreate] at hj
    cases hj
    exact ⟨w', rfl, hchange, hcontent⟩

/-- However much of an index a crash has left, opening it for recording keeps the complete records
and nothing else, and a player sees the same records before and after. What is written then follows
them, as far as it is not earlier than the last. -/
theorem recovered_after_cut {n : Nat} (hl : w.disk.lookUp path = .ok (.file i))
    (hm : w.disk.medium i = .regular) (ho : IsOrdered es) (hn : n ≤ (Entry.encodeAll es).length)
    (hc : w.disk.content i = (Entry.encodeAll es).take n) :
    let left := es.take (n / Entry.size)
    (∃ y, Index.open path .playback w = (.ok y, w) ∧ y.Describes w.disk left) ∧
    ∃ x w', Index.open path .record w = (.ok x, w') ∧ x.recovered = n % Entry.size ∧
      x.tail = left.getLast? ∧ x.Describes w'.disk left ∧
      w.disk.ChangesOnly i w'.disk ∧ w'.disk.content i = Entry.encodeAll left ∧
      (w'.disk.content i).length = n / Entry.size * Entry.size ∧
      (∃ z, Index.open path .record w' = (.ok z, w') ∧ z.recovered = 0 ∧
        z.tail = left.getLast?) ∧
      ∀ more, (x.writeEach w' more).1 = verdicts left more ∧
        (x.writeEach w' more).2.2.disk.content i =
          Entry.encodeAll (left ++ accepted left more) := by
  intro left
  have hread : Entry.readAll (w.disk.content i) = left := by
    rw [hc, Entry.readAll_take_encodeAll es hn]
  have hordered : IsOrdered left := ho.sublist (List.take_sublist _ _)
  have hlen : (w.disk.content i).length = n := by
    rw [hc, List.length_take, Nat.min_eq_left hn]
  constructor
  · -- a player reads past no torn end, so the cut file needs no recovery for it
    refine ⟨_, Prod.ext (openPlayback_eq_ok.mpr ⟨i, hl, hread ▸ hordered, rfl⟩) rfl, ?_⟩
    have := describes_of_file (x := ⟨path, .playback, some i,
      (Entry.readAll (w.disk.content i)).getLast?, (Entry.readAll (w.disk.content i)).length, 0⟩)
      rfl w.disk
    rwa [hread] at this ⊢
  · obtain ⟨w', hopen, hchange, hcontent⟩ := openRecord_of_regular hl hm (hread ▸ hordered)
    have htracks := tracks_recorderOf path i (w.disk.content i)
    have hdescribes := describes_of_file htracks.file w'.disk
    rw [hread] at hcontent htracks
    rw [hcontent, Entry.readAll_encodeAll] at hdescribes
    have hcount : left.length = n / Entry.size := by
      rw [← hread, Entry.length_readAll, hlen]
    have hm' : w'.disk.medium i = .regular := (hchange.medium i).trans hm
    refine ⟨_, w', hopen, ?_, htracks.tail, hdescribes, hchange, hcontent, ?_, ?_, ?_⟩
    · unfold recorderOf
      rw [hlen]
    · rw [hcontent, Entry.length_encodeAll, hcount]
    · refine ⟨_, openRecord_of_file ((hchange.lookUp_eq path).trans hl) hcontent hordered, rfl, rfl⟩
    · intro more
      obtain ⟨hverdicts, _, _, hfile⟩ := htracks.writeEach more hcontent hm'
      exact ⟨hverdicts, hfile⟩

end

def cutWorld : World :=
  ⟨⟨[], [(["live.idx".toList], .file 0)],
    [(0, { content := (Entry.encodeAll [⟨5, 0⟩, ⟨7, 188⟩, ⟨7, 376⟩]).take 39 })], 1⟩, []⟩

theorem recovered_after_cut_inside : IsOrdered [⟨5, 0⟩, ⟨7, 188⟩, ⟨7, 376⟩] ∧
    ∃ x w', Index.open ⟨"live.idx"⟩ .record cutWorld = (.ok x, w') ∧ x.recovered = 7 ∧
      x.tail = some ⟨7, 188⟩ ∧ (w'.disk.content 0).length = 32 ∧
      (x.writeEach w' [⟨6, 1⟩, ⟨7, 2⟩, ⟨9, 3⟩]).1 =
        [.error (.timestampRegression 6 7), .ok (), .ok ()] ∧
      (x.writeEach w' [⟨6, 1⟩, ⟨7, 2⟩, ⟨9, 3⟩]).2.2.disk.content 0 =
        Entry.encodeAll [⟨5, 0⟩, ⟨7, 188⟩, ⟨7, 2⟩, ⟨9, 3⟩] := by
  have ho : IsOrdered [⟨5, 0⟩, ⟨7, 188⟩, ⟨7, 376⟩] := by
    unfold IsOrdered
    decide
  have hl : cutWorld.disk.lookUp ⟨"live.idx"⟩ = .ok (.file 0) := rfl
  have hn : 39 ≤ (Entry.encodeAll [⟨5, 0⟩, ⟨7, 188⟩, ⟨7, 376⟩]).length := by decide
  obtain ⟨_, x, w', hopen, hrecovered, htail, _, _, _, hlen, _, hmore⟩ :=
    recovered_after_cut hl rfl ho hn rfl
  refine ⟨ho, ?_⟩
  obtain ⟨hverdicts, hcontent⟩ := hmore [⟨6, 1⟩, ⟨7, 2⟩, ⟨9, 3⟩]
  exact ⟨x, w', hopen, hrecovered, htail, hlen, hverdicts, hcontent⟩

end Index

end Timeshift
