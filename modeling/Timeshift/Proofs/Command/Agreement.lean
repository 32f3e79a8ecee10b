import Timeshift.Command.Run
import Timeshift.Proofs.Index.Recovery

/-!
# One verdict on an index

Whatever bytes an index holds, everything that opens or checks it decides by the first record that
is older than the one before it. A torn record at the end decides nothing, and only a recovery of a
file that is in order takes it away.
-/

namespace Timeshift

namespace Index

def Falls (es : List Entry) : Nat → Prop
  | 0 => False
  | j + 1 => ∃ a b, es[j]? = some a ∧ es[j + 1]? = some b ∧ b.timestamp < a.timestamp

section
variable {a b : Entry} {es : List Entry} {j k : Nat}

theorem falls_cons (h : ¬ b.timestamp < a.timestamp) :
    ∀ j, Falls (a :: b :: es) (j + 1) ↔ Falls (b :: es) j
  | 0 => by simpa [Falls] using h
  | j + 1 => by simp [Falls]

theorem regression?_eq_some :
    regression? es = some k ↔ Falls es k ∧ ∀ j < k, ¬ Falls es j := by
  induction es generalizing k with
  | nil => cases k <;> simp [regression?, Falls]
  | cons a rest ih =>
    cases rest with
    | nil => cases k <;> simp [regression?, Falls]
    | cons b es =>
      rw [regression?]
      -- a fall at the front is the least one; without it all falls are those of the rest
      by_cases h : b.timestamp < a.timestamp
      · have hone : Falls (a :: b :: es) 1 := ⟨a, b, rfl, rfl, h⟩
        rw [if_pos h, Option.some.injEq]
        constructor
        · intro hk
          subst hk
          refine ⟨hone, ?_⟩
          intro j hj
          obtain rfl : j = 0 := by omega
          exact id
        · intro hk
          obtain ⟨hk, hleast⟩ := hk
          have hle : ¬ 1 < k := fun hlt => hleast 1 hlt hone
          have hpos : k ≠ 0 := fun h => by
            rw [h] at hk
            exact hk
          omega
      · have hcons : ∀ j, Falls (a :: b :: es) (j + 1) ↔ Falls (b :: es) j := falls_cons h
        rw [if_neg h, Option.map_eq_some_iff]
        constructor
        · intro hk
          obtain ⟨m, hm, rfl⟩ := hk
          obtain ⟨hfalls, hleast⟩ := ih.mp hm
          refine ⟨(hcons m).mpr hfalls, ?_⟩
          intro j hj
          cases j with
          | zero => exact id
          | succ j => exact fun hf => hleast j (by omega) ((hcons j).mp hf)
        · intro hk
          obtain ⟨hfalls, hleast⟩ := hk
          cases k with
          | zero => exact hfalls.elim
          | succ m =>
            refine ⟨m, ih.mpr ⟨(hcons m).mp hfalls, ?_⟩, rfl⟩
            exact fun j hj hf => hleast (j + 1) (by omega) ((hcons j).mpr hf)

end

structure Report.Tells (r : Report) (bs : Bytes) : Prop where
  entries : r.entries = bs.length / Entry.size
  trailing : r.trailing = bs.length % Entry.size
  first : r.first = (Entry.readAll bs).head?.map (·.timestamp)
  last : r.last = (Entry.readAll bs).getLast?.map (·.timestamp)
  regression : ∀ k, r.regression = some k ↔
    Falls (Entry.readAll bs) k ∧ ∀ j < k, ¬ Falls (Entry.readAll bs) j
  ordered : r.regression = none ↔ IsOrdered (Entry.readAll bs)

def reportOf (bs : Bytes) : Report := .ofContents (.ofBytes bs)

theorem tells_reportOf (bs : Bytes) : (reportOf bs).Tells bs where
  entries := Entry.length_readAll bs
  trailing := rfl
  first := rfl
  last := rfl
  regression _ := regression?_eq_some
  ordered := regression?_eq_none _

/-- A check of the complete records alone finds the same, but for the torn one. -/
theorem reportOf_whole (bs : Bytes) :
    reportOf (Entry.encodeAll (Entry.readAll bs)) = { reportOf bs with trailing := 0 } := by
  unfold reportOf Contents.ofBytes
  rw [Entry.readAll_encodeAll, Entry.length_encodeAll, Nat.mul_mod_left]
  rfl

section
variable {path : Path} {d : Disk} {w : World} {i : FileId}

theorem verify_of_file (hl : d.lookUp path = .ok (.file i)) :
    verify path d = .ok (reportOf (d.content i)) := by
  unfold verify
  rw [Disk.openRead_eq_ok.mpr hl]
  rfl

theorem openPlayback_regression {k : Nat} (hl : d.lookUp path = .ok (.file i))
    (hk : regression? (Entry.readAll (d.content i)) = some k) :
    openPlayback path d = .error (.corrupt s!"{path}: timestamp decreases at record {k}") := by
  unfold openPlayback
  rw [Disk.openRead_eq_ok.mpr hl]
  simp only [mapError_ok, ok_bind, Contents.checked, Contents.ofBytes, hk]
  rfl

theorem openRecord_disordered_file (hl : w.disk.lookUp path = .ok (.file i))
    (ho : ¬ IsOrdered (Entry.readAll (w.disk.content i))) :
    ∃ what, openRecord path w = (.error (.corrupt what), w) :=
  openRecord_disordered (Disk.openCreate_of_file hl) ho

theorem openPlayback_isOk_iff (hl : d.lookUp path = .ok (.file i)) :
    (openPlayback path d).isOk = true ↔ IsOrdered (Entry.readAll (d.content i)) := by
  by_cases ho : IsOrdered (Entry.readAll (d.content i))
  · rw [openPlayback_eq_ok.mpr ⟨i, hl, ho, rfl⟩]
    exact ⟨fun _ => ho, fun _ => rfl⟩
  · obtain ⟨k, hk⟩ := Option.ne_none_iff_exists'.mp (mt (regression?_eq_none _).mp ho)
    rw [openPlayback_regression hl hk]
    exact ⟨nofun, fun h => absurd h ho⟩

theorem openRecord_isOk_iff (hl : w.disk.lookUp path = .ok (.file i))
    (hm : w.disk.medium i = .regular) :
    (openRecord path w).1.isOk = true ↔ IsOrdered (Entry.readAll (w.disk.content i)) := by
  by_cases ho : IsOrdered (Entry.readAll (w.disk.content i))
  · obtain ⟨w', hopen, _⟩ := openRecord_of_regular hl hm ho
    rw [hopen]
    exact ⟨fun _ => ho, fun _ => rfl⟩
  · obtain ⟨what, hopen⟩ := openRecord_disordered_file hl ho
    rw [hopen]
    exact ⟨nofun, fun h => absurd h ho⟩

end

end Index

namespace Command

section
variable {index : Path} {json : Bool} {d : Disk} {w : World} {i : FileId}

def dumped (json : Bool) (es : List Entry) : String :=
  if json then
    (Json.array (es.map fun e => .object
      [("timestamp", .number e.timestamp.toNat), ("offset", .number e.offset.toNat)])).pretty ++ "\n"
  else String.join (es.map fun e => s!"{e.timestamp}\t{e.offset}\n")

def reported (json : Bool) (index : Path) (r : Index.Report) : String :=
  if json then
    (Json.object [("entries", .number r.entries), ("trailing_bytes", .number r.trailing),
      ("first_regression", .optional .number r.regression),
      ("first_timestamp", .optional (.number ·.toNat) r.first),
      ("last_timestamp", .optional (.number ·.toNat) r.last)]).pretty ++ "\n"
  else
    s!"Index: {index}\n" ++ s!"  Entries:        {r.entries}\n" ++
      s!"  Trailing bytes: {r.trailing}\n" ++
      match r.first, r.last with
      | some first, some last => s!"  Time range:     {first} - {last}\n"
      | _, _ => ""

/-- What a recovery prints, by the report of a check before it. -/
def recovered (r : Index.Report) : String :=
  let line :=
    if r.trailing = 0 then s!"Index is intact; {r.entries} entries"
    else s!"Truncated {r.trailing} bytes; {r.entries} entries kept"
  line ++ "\n"

theorem printed_single (line : String) : Outcome.printed [line] = { output := line ++ "\n" } := by
  simp [Outcome.printed, String.join]

theorem printed_reportLines (index : Path) (r : Index.Report) :
    Outcome.printed (reportLines index r) = { output := reported false index r } := by
  unfold reportLines reported Outcome.printed String.join
  cases r.first with
  | none =>
    simp only [List.append_nil, List.map, List.foldl, String.empty_append, String.append_empty]
    rfl
  | some first =>
    cases r.last with
    | none =>
      simp only [List.append_nil, List.map, List.foldl, String.empty_append, String.append_empty]
      rfl
    | some last =>
      simp only [List.cons_append, List.nil_append, List.map, List.foldl, String.empty_append]
      rfl

theorem printed_entries (es : List Entry) :
    Outcome.printed (es.map fun e => s!"{e.timestamp}\t{e.offset}") =
      { output := dumped false es } := by
  unfold Outcome.printed dumped
  rw [List.map_map]
  rfl

theorem runDump_of_ordered (hl : d.lookUp index = .ok (.file i))
    (ho : Index.IsOrdered (Entry.readAll (d.content i))) (json : Bool) :
    runDump index json d = { output := dumped json (Entry.readAll (d.content i)) } := by
  unfold runDump
  rw [Index.openPlayback_eq_ok.mpr ⟨i, hl, ho, rfl⟩]
  cases json with
  | true => exact printed_single _
  | false => exact printed_entries _

theorem runDump_regression {k : Nat} (hl : d.lookUp index = .ok (.file i))
    (hk : Index.regression? (Entry.readAll (d.content i)) = some k) (json : Bool) :
    runDump index json d =
      openFailure index (.corrupt s!"{index}: timestamp decreases at record {k}") := by
  unfold runDump
  rw [Index.openPlayback_regression hl hk]

theorem runVerify_of_file (hl : w.disk.lookUp index = .ok (.file i)) (json : Bool) :
    let r := Index.reportOf (w.disk.content i)
    runVerify index json w =
      (⟨reported json index r,
          r.regression.map fun k => ⟨s!"Timestamp order broken at record {k}", []⟩⟩,
        if r.regression = none ∧ r.trailing ≠ 0 then w.warn (.tornIndex index) else w) := by
  intro r
  have hout : Outcome.printed (if json then [(reportJson r).pretty] else reportLines index r) =
      { output := reported json index r } := by
    cases json with
    | true => exact printed_single _
    | false => exact printed_reportLines index r
  unfold runVerify
  rw [Index.verify_of_file hl]
  simp only [show Index.reportOf (w.disk.content i) = r from rfl, hout]
  cases hr : r.regression with
  | some k => rfl
  | none =>
    by_cases ht : r.trailing = 0
    · simp [ht]
    · simp [ht]

theorem exists?_of_file (hl : d.lookUp index = .ok (.file i)) : d.exists? index = true := by
  unfold Disk.exists?
  rw [hl]
  rfl

theorem runRecover_of_ordered (hl : w.disk.lookUp index = .ok (.file i))
    (hm : w.disk.medium i = .regular)
    (ho : Index.IsOrdered (Entry.readAll (w.disk.content i))) :
    (runRecover index w).1 = { output := recovered (Index.reportOf (w.disk.content i)) } ∧
      w.disk.ChangesOnly i (runRecover index w).2.disk ∧
      (runRecover index w).2.disk.content i =
        Entry.encodeAll (Entry.readAll (w.disk.content i)) := by
  obtain ⟨w', hopen, hchange, hcontent⟩ := Index.openRecord_of_regular hl hm ho
  have htracks := Index.tracks_recorderOf index i (w.disk.content i)
  have hlength : (Index.recorderOf index i (w.disk.content i)).length w'.disk =
      .ok (Entry.readAll (w.disk.content i)).length := by
    rw [(Index.describes_of_file htracks.file w'.disk).length, hcontent, Entry.readAll_encodeAll]
  have hclose : ((Index.recorderOf index i (w.disk.content i)).close w'.disk).1 = .ok () := by
    unfold Index.close Disk.sync
    simp only [htracks.mode, htracks.file, (hchange.medium i).trans hm]
    rfl
  unfold runRecover
  rw [exists?_of_file hl, hopen]
  simp only [hlength, hclose]
  exact ⟨printed_single _, hchange, hcontent⟩

theorem runRecover_regression {k : Nat} (hl : w.disk.lookUp index = .ok (.file i))
    (hk : Index.regression? (Entry.readAll (w.disk.content i)) = some k) :
    runRecover index w =
      (.failed (.during s!"Failed to recover index {Text.quoted index.text}"
        (.corrupt s!"{index}: timestamp decreases at record {k}")), w) := by
  unfold runRecover
  rw [exists?_of_file hl, Index.openRecord_regression (Disk.openCreate_of_file hl) hk]
  rfl

theorem runDump_failure_iff (hl : d.lookUp index = .ok (.file i)) (json : Bool) :
    (runDump index json d).failure = none ↔
      (Index.reportOf (d.content i)).regression = none := by
  have htells := Index.tells_reportOf (d.content i)
  cases hk : (Index.reportOf (d.content i)).regression with
  | none =>
    rw [runDump_of_ordered hl (htells.ordered.mp hk)]
    exact ⟨fun _ => rfl, fun _ => rfl⟩
  | some k =>
    rw [runDump_regression hl hk]
    exact ⟨nofun, nofun⟩

theorem runRecover_failure_iff (hl : w.disk.lookUp index = .ok (.file i))
    (hm : w.disk.medium i = .regular) : (runRecover index w).1.failure = none ↔
      (Index.reportOf (w.disk.content i)).regression = none := by
  have htells := Index.tells_reportOf (w.disk.content i)
  cases hk : (Index.reportOf (w.disk.content i)).regression with
  | none =>
    rw [(runRecover_of_ordered hl hm (htells.ordered.mp hk)).1]
    exact ⟨fun _ => rfl, fun _ => rfl⟩
  | some k =>
    rw [runRecover_regression hl hk]
    exact ⟨nofun, nofun⟩

/-- A recovery of a file that is in order takes its torn record away, and every command that reads
the index finds the same records as before. -/
theorem after_runRecover (hl : w.disk.lookUp index = .ok (.file i))
    (hm : w.disk.medium i = .regular)
    (ho : Index.IsOrdered (Entry.readAll (w.disk.content i))) :
    let w' := (runRecover index w).2
    let report := { Index.reportOf (w.disk.content i) with trailing := 0 }
    w'.disk.content i = (w.disk.content i).take
        ((w.disk.content i).length / Entry.size * Entry.size) ∧
      (∀ json, runDump index json w'.disk = runDump index json w.disk ∧
        runVerify index json w' = ({ output := reported json index report }, w')) ∧
      Index.verify index w'.disk = .ok report := by
  intro w' report
  obtain ⟨_, hchange, hcontent⟩ := runRecover_of_ordered hl hm ho
  have hl' : w'.disk.lookUp index = .ok (.file i) := (hchange.lookUp_eq index).trans hl
  have hread : Entry.readAll (w'.disk.content i) = Entry.readAll (w.disk.content i) := by
    rw [hcontent, Entry.readAll_encodeAll]
  have hreport : Index.reportOf (w'.disk.content i) = report := by
    rw [hcontent, Index.reportOf_whole]
  refine ⟨?_, ?_, ?_⟩
  · rw [hcontent, Entry.encodeAll_readAll]
  · intro json
    have hnone : report.regression = none := (Index.tells_reportOf _).ordered.mpr ho
    refine ⟨?_, ?_⟩
    · rw [runDump_of_ordered hl' (hread ▸ ho), runDump_of_ordered hl ho, hread]
    · rw [runVerify_of_file hl', hreport, hnone, if_neg (fun h => h.2 rfl)]
      rfl
  · rw [Index.verify_of_file hl', hreport]

/-- For every content of a regular file, all that opens or checks it agrees with one report. A check
prints it, broken order or not; everything else fails for a broken order with the record where it
breaks, and does nothing. A recovery leaves the records that a dump prints, and a check of what it
leaves prints the same report without the torn end. -/
theorem tools_agree (hl : w.disk.lookUp index = .ok (.file i)) (hm : w.disk.medium i = .regular)
    (config : Option Path) (verbose : Bool) (home : Option String) :
    let ran (c : Command) (w : World) := run ⟨config, verbose, c⟩ home w
    ∃ report, Index.verify index w.disk = .ok report ∧ report.Tells (w.disk.content i) ∧
      ((Index.open index .playback w).1.isOk = true ↔ report.regression = none) ∧
      ((Index.open index .record w).1.isOk = true ↔ report.regression = none) ∧
      (∀ json, (ran (.verify index json) w).1.output = reported json index report ∧
        ((ran (.verify index json) w).1.failure = none ↔ report.regression = none) ∧
        (ran (.verify index json) w).2.disk = w.disk) ∧
      (∀ json, ((ran (.dump index json) w).1.failure = none ↔ report.regression = none) ∧
        (ran (.dump index json) w).2 = w) ∧
      ((ran (.recover index) w).1.failure = none ↔ report.regression = none) ∧
      (∀ k, report.regression = some k →
        let broken := Error.corrupt s!"{index}: timestamp decreases at record {k}"
        Index.open index .playback w = (.error broken, w) ∧
        Index.open index .record w = (.error broken, w) ∧
        (∀ json, (ran (.verify index json) w).1.failure =
            some ⟨s!"Timestamp order broken at record {k}", []⟩ ∧
          (ran (.dump index json) w).1 =
            .failed (.during s!"Failed to open index {Text.quoted index.text}" broken)) ∧
        ran (.recover index) w =
          (.failed (.during s!"Failed to recover index {Text.quoted index.text}" broken), w)) ∧
      (report.regression = none →
        let w' := (ran (.recover index) w).2
        (ran (.recover index) w).1.output = recovered report ∧
        w.disk.ChangesOnly i w'.disk ∧
        w'.disk.content i = (w.disk.content i).take (report.entries * Entry.size) ∧
        (∀ json,
          (ran (.dump index json) w).1.output = dumped json (Entry.readAll (w.disk.content i)) ∧
          (ran (.dump index json) w').1 = (ran (.dump index json) w).1 ∧
          ran (.verify index json) w' =
            ({ output := reported json index { report with trailing := 0 } }, w')) ∧
        Index.verify index w'.disk = .ok { report with trailing := 0 }) := by
  intro ran
  have htells := Index.tells_reportOf (w.disk.content i)
  have hverify := runVerify_of_file hl
  refine ⟨Index.reportOf (w.disk.content i), Index.verify_of_file hl, htells, ?_, ?_, ?_, ?_, ?_,
    ?_, ?_⟩
  · exact (Index.openPlayback_isOk_iff hl).trans htells.ordered.symm
  · exact (Index.openRecord_isOk_iff hl hm).trans htells.ordered.symm
  · intro json
    rw [show ran (.verify index json) w = runVerify index json w from rfl, hverify]
    refine ⟨rfl, Option.map_eq_none_iff, ?_⟩
    simp only
    split <;> rfl
  · exact fun json => ⟨runDump_failure_iff hl json, rfl⟩
  · exact runRecover_failure_iff hl hm
  · intro k hk broken
    refine ⟨?_, Index.openRecord_regression (Disk.openCreate_of_file hl) hk, fun json => ⟨?_, ?_⟩,
      runRecover_regression hl hk⟩
    · unfold Index.open
      simp only [Index.openPlayback_regression hl hk]
      rfl
    · rw [show ran (.verify index json) w = runVerify index json w from rfl, hverify, hk]
      rfl
    · exact runDump_regression hl hk json
  · -- in order: what a recovery leaves is read by every command as the file was before
    intro hnone
    have ho := htells.ordered.mp hnone
    obtain ⟨hcontent, hafter, hreport⟩ := after_runRecover hl hm ho
    obtain ⟨hout, hchange, _⟩ := runRecover_of_ordered hl hm ho
    refine ⟨congrArg Outcome.output hout, hchange, ?_, fun json => ⟨?_, hafter json⟩, hreport⟩
    · rw [htells.entries]
      exact hcontent
    · exact congrArg Outcome.output (runDump_of_ordered hl ho json)

end

/-! ## A torn file in order, and one that is not -/

def tornWorld (es : List Entry) : World :=
  ⟨⟨[], [(["live.idx".toList], .file 0)],
    [(0, { content := Entry.encodeAll es ++ [1, 2, 3, 4, 5] })], 1⟩, []⟩

def liveIndex : Path := ⟨"live.idx"⟩

def tornReport : Index.Report := ⟨2, 5, none, some 5, some 7⟩
def brokenReport : Index.Report := ⟨3, 5, some 1, some 5, some 3⟩

theorem tools_agree_torn :
    let ran (c : Command) (w : World) := run ⟨none, false, c⟩ none w
    let torn := tornWorld [⟨5, 0⟩, ⟨7, 188⟩]
    let whole := (ran (.recover liveIndex) torn).2
    let broken := tornWorld [⟨5, 0⟩, ⟨4, 1⟩, ⟨3, 2⟩]
    (ran (.verify liveIndex false) torn).1.output = "Index: live.idx\n  Entries:        2\n" ++
        "  Trailing bytes: 5\n  Time range:     5 - 7\n" ∧
      (ran (.recover liveIndex) torn).1.output = "Truncated 5 bytes; 2 entries kept\n" ∧
      whole.disk.content 0 = Entry.encodeAll [⟨5, 0⟩, ⟨7, 188⟩] ∧
      (ran (.dump liveIndex false) whole).1.output = "5\t0\n7\t188\n" ∧
      ran (.verify liveIndex false) whole = ({ output := "Index: live.idx\n" ++
        "  Entries:        2\n  Trailing bytes: 0\n  Time range:     5 - 7\n" }, whole) ∧
      (ran (.verify liveIndex true) whole).1.output = "\x7b\n  \"entries\": 2,\n" ++
        "  \"trailing_bytes\": 0,\n  \"first_regression\": null,\n" ++
        "  \"first_timestamp\": 5,\n  \"last_timestamp\": 7\n\x7d\n" ∧
      (ran (.verify liveIndex false) broken).1.output = "Index: live.idx\n" ++
        "  Entries:        3\n  Trailing bytes: 5\n  Time range:     5 - 3\n" ∧
      ran (.recover liveIndex) broken = (.failed ⟨"Failed to recover index \"live.idx\"",
        ["Corrupt index data: live.idx: timestamp decreases at record 1"]⟩, broken) := by
  have hfile : ∀ es, (tornWorld es).disk.lookUp liveIndex = .ok (.file 0) ∧
      (tornWorld es).disk.medium 0 = .regular := fun es => ⟨rfl, rfl⟩
  obtain ⟨r, hr, _, _, _, hverify, _, _, _, hgood⟩ :=
    tools_agree (hfile [⟨5, 0⟩, ⟨7, 188⟩]).1 (hfile _).2 none false none
  obtain rfl : r = tornReport := Except.ok.inj (hr.symm.trans (by decide +kernel))
  obtain ⟨hrecover, _, hcontent, hafter, _⟩ := hgood rfl
  obtain ⟨r, hr, _, _, _, hverify', _, _, hbad, _⟩ :=
    tools_agree (hfile [⟨5, 0⟩, ⟨4, 1⟩, ⟨3, 2⟩]).1 (hfile _).2 none false none
  obtain rfl : r = brokenReport := Except.ok.inj (hr.symm.trans (by decide +kernel))
  dsimp only at hverify hrecover hcontent hafter hverify' hbad ⊢
  rw [(hverify false).1, hrecover, hcontent, (hafter false).2.1, (hafter false).1,
    (hafter false).2.2, (hafter true).2.2, (hverify' false).1, (hbad 1 rfl).2.2.2]
  refine ⟨?_, ?_, ?_, ?_, Prod.ext ?_ rfl, ?_, ?_, Prod.ext ?_ rfl⟩ <;> decide +kernel

end Command

end Timeshift
