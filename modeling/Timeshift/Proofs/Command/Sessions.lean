import Timeshift.Proofs.Command.Agreement

/-!
# Reopening between writes

A session opens an index for recording, writes to it and closes it. The handle of the next session
reads from the file what the one before it kept in memory, so a row of entries has the same answers
and leaves the same file however it is divided into sessions: all in one, or each in a command of
its own.
-/

namespace Timeshift

namespace Index

/-- Opens the index for recording, writes one entry after another and closes it. The entries of an
index that does not open all have the error of that. -/
def session (path : Path) (w : World) (es : List Entry) : List (Except Error Unit) × World :=
  match openRecord path w with
  | (.error err, w) => (es.map fun _ => .error err, w)
  | (.ok x, w) =>
    let (answers, x, w) := x.writeEach w es
    (answers, x.release w)

def sessions (path : Path) (w : World) : List (List Entry) → List (Except Error Unit) × World
  | [] => ([], w)
  | part :: parts =>
    let (answers, w) := session path w part
    let (more, w) := sessions path w parts
    (answers ++ more, w)

def OnRegular (path : Path) (d : Disk) : Prop :=
  ∀ i, d.lookUp path = .ok (.file i) → d.medium i = .regular

/-- The index is missing where it can be made, or holds the row in order and perhaps the start of
another record. -/
def Recordable (path : Path) (d : Disk) (es : List Entry) : Prop :=
  (es = [] ∧ ∃ n, d.LeadsTo path n ∧ d.node? n = none) ∨
    ∃ i torn, d.lookUp path = .ok (.file i) ∧ d.content i = Entry.encodeAll es ++ torn ∧
      torn.length < Entry.size ∧ IsOrdered es

structure AtEnd (x : Index) (path : Path) (d : Disk) (i : FileId) (es : List Entry) : Prop where
  tracks : x.Tracks i es
  lookUp : d.lookUp path = .ok (.file i)
  medium : d.medium i = .regular
  content : d.content i = Entry.encodeAll es
  ordered : IsOrdered es

section
variable {path : Path} {x y : Index} {i : FileId} {es more : List Entry} {w w' : World}
  {err : Error}

/-! ## Writing in two goes -/

theorem writeEach_append (x : Index) (w : World) (es more : List Entry) :
    x.writeEach w (es ++ more) =
      let (answers, y, w₁) := x.writeEach w es
      let (rest, z, w₂) := y.writeEach w₁ more
      (answers ++ rest, z, w₂) := by
  induction es generalizing x w with
  | nil => rfl
  | cons e es ih =>
    simp only [List.cons_append, writeEach]
    cases x.write e w with
    | mk result w₁ =>
      cases result with
      | ok y => simp only [ih, List.cons_append]
      | error err => simp only [ih, List.cons_append]

theorem isOrdered_accepted (more : List Entry) (ho : IsOrdered es) :
    IsOrdered (es ++ accepted es more) := by
  induction more generalizing es with
  | nil => rwa [accepted, List.append_nil]
  | cons e more ih =>
    rcases verdict_cases es e with ⟨hv, ha⟩ | ⟨last, _, _, hv⟩
    · have hnext := ih (isOrdered_concat.mpr ⟨ho, ha⟩)
      rw [List.append_assoc, List.singleton_append] at hnext
      rwa [(verdicts_cons hv more).2]
    · rw [(verdicts_cons_error hv more).2]
      exact ih ho

theorem writeEach_same (more : List Entry) (hx : x.Tracks i es) (hy : y.Tracks i es)
    (hm : w.disk.medium i = .regular) : (y.writeEach w more).1 = (x.writeEach w more).1 ∧
      (y.writeEach w more).2.2 = (x.writeEach w more).2.2 := by
  induction more generalizing x y es w with
  | nil => exact ⟨rfl, rfl⟩
  | cons e more ih =>
    rcases verdict_cases es e with ⟨_, ha⟩ | ⟨last, hl, hlt, _⟩
    · have happend := Disk.append_of_regular hm e.encode
      have hmedium := (Disk.changesOnly_append i w.disk e.encode).medium i
      obtain ⟨hanswers, hworld⟩ := ih (w := { w with disk := (w.disk.append i e.encode).2 })
        (hx.push e) (hy.push e) (hmedium.trans hm)
      simp only [writeEach, (write_admitted (w := w) hx ha).1 happend,
        (write_admitted (w := w) hy ha).1 happend, hanswers, hworld, and_self]
    · obtain ⟨hanswers, hworld⟩ := ih hx hy hm
      simp only [writeEach, write_late (w := w) hx hl hlt, write_late (w := w) hy hl hlt, hanswers,
        hworld, and_self]

/-! ## Opening and closing -/

theorem close_of_regular (hx : x.file = some i) {d : Disk} (hm : d.medium i = .regular) :
    (x.close d).1 = .ok () := by
  unfold close
  rw [hx]
  cases x.mode with
  | playback => rfl
  | record =>
    simp only [Disk.sync, hm]
    rfl

theorem release_of_regular (hx : x.file = some i) (hm : w.disk.medium i = .regular) :
    x.release w = w := by
  unfold release
  rw [close_of_regular hx hm]

theorem openRecord_of_missing {n : Name} (hp : w.disk.LeadsTo path n)
    (hn : w.disk.node? n = none) : ∃ x w' i, openRecord path w = (.ok x, w') ∧
      x.AtEnd path w'.disk i [] := by
  obtain ⟨d, hopen, hl, hm, hc⟩ := openRecord_new hp hn
  exact ⟨_, _, _, hopen, tracks_recorderOf path _ [], hl, hm, hc, isOrdered_nil⟩

theorem openRecord_of_ordered (hm : OnRegular path w.disk) (hl : w.disk.lookUp path = .ok (.file i))
    (ho : IsOrdered (Entry.readAll (w.disk.content i))) : ∃ x w', openRecord path w = (.ok x, w') ∧
      x.AtEnd path w'.disk i (Entry.readAll (w.disk.content i)) := by
  obtain ⟨w', hopen, hchange, hcontent⟩ := openRecord_of_regular hl (hm i hl) ho
  exact ⟨_, w', hopen, tracks_recorderOf path i _, (hchange.lookUp_eq path).trans hl,
    (hchange.medium i).trans (hm i hl), hcontent, ho⟩

theorem openRecord_recordable (h : Recordable path w.disk es) (hm : OnRegular path w.disk) :
    ∃ x w' i, openRecord path w = (.ok x, w') ∧ x.AtEnd path w'.disk i es := by
  rcases h with ⟨rfl, n, hp, hn⟩ | ⟨i, torn, hl, hc, htorn, ho⟩
  · exact openRecord_of_missing hp hn
  · have hread : Entry.readAll (w.disk.content i) = es := by
      rw [hc, Entry.readAll_append torn htorn]
    obtain ⟨x, w', hopen, hend⟩ := openRecord_of_ordered hm hl (hread.symm ▸ ho)
    rw [hread] at hend
    exact ⟨x, w', i, hopen, hend⟩

/-- An index on storage that does not fail opens and can be written from then on, or is left as it
is. -/
theorem openRecord_cases (hm : OnRegular path w.disk) :
    (∃ x w' i es, openRecord path w = (.ok x, w') ∧ x.AtEnd path w'.disk i es) ∨
      ∃ err, openRecord path w = (.error err, w) := by
  cases hcreate : w.disk.openCreate path with
  | error e =>
    right
    refine ⟨.ofOpening path e, ?_⟩
    unfold openRecord
    rw [hcreate]
  | ok made =>
    obtain ⟨i, d⟩ := made
    obtain ⟨n, hp, ⟨hn, _⟩ | ⟨hn, _⟩⟩ := Disk.openCreate_ok hcreate
    · have hl := Disk.lookUp_eq_file.mpr ⟨n, hp, hn⟩
      by_cases ho : IsOrdered (Entry.readAll (w.disk.content i))
      · obtain ⟨x, w', hopen, hend⟩ := openRecord_of_ordered hm hl ho
        exact .inl ⟨x, w', i, _, hopen, hend⟩
      · obtain ⟨what, hopen⟩ := openRecord_disordered_file hl ho
        exact .inr ⟨_, hopen⟩
    · obtain ⟨x, w', i, hopen, hend⟩ := openRecord_of_missing hp hn
      exact .inl ⟨x, w', i, _, hopen, hend⟩

theorem AtEnd.writeEach (h : x.AtEnd path w.disk i es) (more : List Entry) :
    (x.writeEach w more).1 = verdicts es more ∧
      (x.writeEach w more).2.1.AtEnd path (x.writeEach w more).2.2.disk i
        (es ++ accepted es more) := by
  obtain ⟨hanswers, htracks, hchange, hcontent⟩ := h.tracks.writeEach more h.content h.medium
  exact ⟨hanswers, htracks, (hchange.lookUp_eq path).trans h.lookUp,
    (hchange.medium i).trans h.medium, hcontent, isOrdered_accepted more h.ordered⟩

theorem AtEnd.release (h : x.AtEnd path w.disk i es) : x.release w = w :=
  release_of_regular h.tracks.file h.medium

theorem AtEnd.reopen (h : x.AtEnd path w.disk i es) :
    ∃ y, openRecord path w = (.ok y, w) ∧ y.AtEnd path w.disk i es :=
  ⟨_, openRecord_of_file h.lookUp h.content h.ordered, ⟨rfl, rfl, rfl, rfl⟩, h.lookUp, h.medium,
    h.content, h.ordered⟩

/-! ## Sessions -/

theorem session_of_error (h : openRecord path w = (.error err, w)) (es : List Entry) :
    session path w es = (es.map fun _ => .error err, w) := by
  unfold session
  rw [h]

theorem session_of_ok (h : openRecord path w = (.ok x, w')) (hx : x.AtEnd path w'.disk i es)
    (more : List Entry) :
    session path w more = ((x.writeEach w' more).1, (x.writeEach w' more).2.2) := by
  unfold session
  rw [h]
  simp only [(hx.writeEach more).2.release]

/-- Where the index opens, a session leaves it with the row and what was accepted. -/
theorem session_reopens (h : openRecord path w = (.ok x, w')) (hx : x.AtEnd path w'.disk i es)
    (more : List Entry) : ∃ y, y.AtEnd path (session path w more).2.disk i
        (es ++ accepted es more) ∧
      openRecord path (session path w more).2 = (.ok y, (session path w more).2) := by
  obtain ⟨y, hopen, hy⟩ := (hx.writeEach more).2.reopen
  rw [session_of_ok h hx]
  exact ⟨y, hy, hopen⟩

theorem session_keeps (hm : OnRegular path w.disk) (es : List Entry) :
    OnRegular path (session path w es).2.disk ∧
      (openRecord path (session path w es).2).1.isOk = (openRecord path w).1.isOk := by
  rcases openRecord_cases hm with ⟨x, w', i, row, hopen, hend⟩ | ⟨err, hopen⟩
  · obtain ⟨y, hy, hreopen⟩ := session_reopens hopen hend es
    rw [hreopen, hopen]
    refine ⟨?_, rfl⟩
    intro j hj
    rw [hy.lookUp] at hj
    cases hj
    exact hy.medium
  · rw [session_of_error hopen]
    exact ⟨hm, rfl⟩

/-- A session may be closed and opened again anywhere. -/
theorem session_append (hm : OnRegular path w.disk) (es more : List Entry) :
    session path w (es ++ more) =
      let (answers, w₁) := session path w es
      let (rest, w₂) := session path w₁ more
      (answers ++ rest, w₂) := by
  rcases openRecord_cases hm with ⟨x, w', i, row, hopen, hend⟩ | ⟨err, hopen⟩
  · obtain ⟨y, hy, hreopen⟩ := session_reopens hopen hend es
    have hfirst := session_of_ok hopen hend es
    have hsecond := session_of_ok hreopen hy more
    have hx := (hend.writeEach es).2
    rw [hfirst] at hsecond hy
    obtain ⟨hanswers, hworld⟩ := writeEach_same more hx.tracks hy.tracks hx.medium
    simp only [hfirst, hsecond, hanswers, hworld]
    rw [session_of_ok hopen hend, writeEach_append]
  · simp only [session_of_error hopen, List.map_append]

theorem sessions_eq (parts : List (List Entry)) (hne : parts ≠ []) (hm : OnRegular path w.disk) :
    sessions path w parts = session path w parts.flatten := by
  induction parts generalizing w with
  | nil => exact absurd rfl hne
  | cons part parts ih =>
    rw [sessions, List.flatten_cons]
    by_cases hlast : parts = []
    · subst hlast
      simp only [sessions, List.flatten_nil, List.append_nil]
    · have hkeeps := (session_keeps hm part).1
      rw [session_append hm]
      cases hs : session path w part with
      | mk answers w₁ =>
        rw [hs] at hkeeps
        simp only [ih hlast hkeeps]

end

end Index

/-! ## A command for each entry -/

namespace Command

/-- What the command that appends tells of the answer, from an index that opened or did not. -/
def told (index : Path) (opened : Bool) : Except Error Unit → Outcome
  | .ok () => {}
  | .error err =>
    if opened then .failed (.during s!"Failed to append to {Text.quoted index.text}" err)
    else openFailure index err

def appendEach (config : Option Path) (verbose : Bool) (home : Option String) (index : Path)
    (w : World) : List Entry → List Outcome × World
  | [] => ([], w)
  | e :: more =>
    let (out, w) := run ⟨config, verbose, .append index e.timestamp e.offset⟩ home w
    let (outs, w) := appendEach config verbose home index w more
    (out :: outs, w)

section
variable {index : Path} {w : World}

/-- The command is a session of one entry. -/
theorem runAppend_eq_session (hm : Index.OnRegular index w.disk) (e : Entry) :
    ∃ answer, (Index.session index w [e]).1 = [answer] ∧
      runAppend index e w =
        (told index (Index.openRecord index w).1.isOk answer, (Index.session index w [e]).2) := by
  rcases Index.openRecord_cases hm with ⟨x, w', i, row, hopen, hend⟩ | ⟨err, hopen⟩
  · have hsession := Index.session_of_ok hopen hend [e]
    have hafter := (hend.writeEach [e]).2
    unfold runAppend
    rw [hsession, hopen]
    simp only [Index.writeEach] at hafter ⊢
    cases hw : x.write e w' with
    | mk result w₁ =>
      rw [hw] at hafter
      cases result with
      | ok y =>
        refine ⟨.ok (), rfl, ?_⟩
        simp only [Index.close_of_regular hafter.tracks.file hafter.medium]
        rfl
      | error err =>
        refine ⟨.error err, rfl, ?_⟩
        simp only [hafter.release]
        rfl
  · refine ⟨.error err, ?_, ?_⟩
    · rw [Index.session_of_error hopen]
      rfl
    · unfold runAppend
      rw [Index.session_of_error hopen, hopen]
      rfl

theorem appendEach_eq_sessions (config : Option Path) (verbose : Bool) (home : Option String)
    (es : List Entry) (hm : Index.OnRegular index w.disk) :
    appendEach config verbose home index w es =
      let (answers, w') := Index.sessions index w (es.map fun e => [e])
      (answers.map (told index (Index.openRecord index w).1.isOk), w') := by
  induction es generalizing w with
  | nil => rfl
  | cons e es ih =>
    obtain ⟨answer, hanswer, happend⟩ := runAppend_eq_session hm e
    obtain ⟨hm', hopen⟩ := Index.session_keeps hm [e]
    simp only [appendEach, run, happend, ih hm', hopen, List.map_cons, Index.sessions, hanswer]
    rfl

/-- However a row of entries is divided into sessions, and also if the command that appends is run
once for each of them, the answers and the disk are those of one handle that writes them all. Where
the index is missing or in order they are the verdicts on its row, and it goes on with what was
accepted. -/
theorem reopening_transparent {es : List Entry} (hm : Index.OnRegular index w.disk)
    (hne : es ≠ []) :
    let whole := Index.session index w es
    (∀ parts, parts.flatten = es → Index.sessions index w parts = whole) ∧
      (∀ config verbose home, appendEach config verbose home index w es =
        (whole.1.map (told index (Index.openRecord index w).1.isOk), whole.2)) ∧
      ∀ row, Index.Recordable index w.disk row →
        (Index.openRecord index w).1.isOk = true ∧ whole.1 = Index.verdicts row es ∧
        ∃ i, whole.2.disk.lookUp index = .ok (.file i) ∧
          whole.2.disk.content i = Entry.encodeAll (row ++ Index.accepted row es) := by
  intro whole
  have hparts : ∀ parts, parts.flatten = es → Index.sessions index w parts = whole := by
    intro parts hflat
    have hsome : parts ≠ [] := by
      intro hnil
      rw [hnil] at hflat
      exact hne hflat.symm
    rw [Index.sessions_eq parts hsome hm, hflat]
  refine ⟨hparts, ?_, ?_⟩
  · intro config verbose home
    have hsingle : (es.map fun e => [e]).flatten = es := by
      rw [← List.flatMap_def, List.flatMap_singleton']
    rw [appendEach_eq_sessions config verbose home es hm, hparts _ hsingle]
  · intro row hrow
    obtain ⟨x, w', i, hopen, hend⟩ := Index.openRecord_recordable hrow hm
    obtain ⟨hanswers, hafter⟩ := hend.writeEach es
    have hwhole : whole = _ := Index.session_of_ok hopen hend es
    rw [hwhole, hopen]
    exact ⟨rfl, hanswers, i, hafter.lookUp, hafter.content⟩

end

/-- Two records and the start of a third: the first entry is too old for them. -/
theorem reopening_transparent_torn :
    let w := tornWorld [⟨5, 0⟩, ⟨7, 188⟩]
    let answers : List (Except Error Unit) := [.error (.timestampRegression 6 7), .ok (), .ok ()]
    (Index.sessions ⟨"live.idx"⟩ w [[⟨6, 1⟩], [], [⟨7, 2⟩, ⟨9, 3⟩]]).1 = answers ∧
      (appendEach none false none ⟨"live.idx"⟩ w [⟨6, 1⟩, ⟨7, 2⟩, ⟨9, 3⟩]).1 =
        answers.map (told ⟨"live.idx"⟩ true) ∧
      ∃ i, (appendEach none false none ⟨"live.idx"⟩ w
          [⟨6, 1⟩, ⟨7, 2⟩, ⟨9, 3⟩]).2.disk.content i =
        Entry.encodeAll [⟨5, 0⟩, ⟨7, 188⟩, ⟨7, 2⟩, ⟨9, 3⟩] := by
  intro w answers
  have hm : Index.OnRegular ⟨"live.idx"⟩ w.disk := by
    intro i hi
    have hl : w.disk.lookUp ⟨"live.idx"⟩ = .ok (.file 0) := rfl
    rw [hl] at hi
    cases hi
    rfl
  have hrow : Index.Recordable ⟨"live.idx"⟩ w.disk [⟨5, 0⟩, ⟨7, 188⟩] := by
    refine .inr ⟨0, [1, 2, 3, 4, 5], rfl, rfl, by decide, ?_⟩
    unfold Index.IsOrdered
    decide
  have hne : ([⟨6, 1⟩, ⟨7, 2⟩, ⟨9, 3⟩] : List Entry) ≠ [] := nofun
  obtain ⟨hparts, heach, hopens⟩ := reopening_transparent hm hne
  obtain ⟨hopen, hanswers, i, _, hcontent⟩ := hopens _ hrow
  rw [hparts _ rfl, heach none false none, hopen, hanswers]
  exact ⟨rfl, rfl, i, hcontent⟩

end Command

end Timeshift
