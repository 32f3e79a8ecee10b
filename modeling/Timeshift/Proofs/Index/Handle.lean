import Timeshift.Proofs.Disk.Contents
import Timeshift.Proofs.Disk.Places
import Timeshift.Proofs.Index.Order

/-!
# Index handles

What opening, writing and reading do to a file that holds a row of whole records. A recording handle
decides from the last record and the count that it keeps; `Tracks` says that these are those of the
row in the file, and every write keeps it so.
-/

namespace Timeshift.Index

/-- A recording handle on the file `i` that knows its row of records to be `es`. -/
structure Tracks (x : Index) (i : FileId) (es : List Entry) : Prop where
  mode : x.mode = .record
  file : x.file = some i
  tail : x.tail = es.getLast?
  written : x.written = es.length

/-! ## Opening for recording -/

section
variable {path : Path} {w w' : World} {i : FileId} {d : Disk}

def recorderOf (path : Path) (i : FileId) (bs : Bytes) : Index :=
  ⟨path, .record, some i, (Entry.readAll bs).getLast?, (Entry.readAll bs).length,
    bs.length % Entry.size⟩

theorem tracks_recorderOf (path : Path) (i : FileId) (bs : Bytes) :
    (recorderOf path i bs).Tracks i (Entry.readAll bs) := ⟨rfl, rfl, rfl, rfl⟩

theorem openRecord_whole (h : w.disk.openCreate path = .ok (i, d))
    (ho : IsOrdered (Entry.readAll (d.content i))) (ht : (d.content i).length % Entry.size = 0) :
    openRecord path w = (.ok (recorderOf path i (d.content i)), { w with disk := d }) := by
  unfold openRecord
  rw [h]
  simp only [checked_eq_ok.mpr ⟨ho, rfl⟩, Contents.ofBytes, if_pos ht, recorderOf]

theorem openRecord_torn (h : w.disk.openCreate path = .ok (i, d))
    (ho : IsOrdered (Entry.readAll (d.content i))) (ht : (d.content i).length % Entry.size ≠ 0) :
    let cut := d.resize i ((Entry.readAll (d.content i)).length * Entry.size)
    (openRecord path w).2.disk = cut.2 ∧
      (openRecord path w).1 = match cut.1.bind fun _ => cut.2.sync i with
        | .ok () => .ok (recorderOf path i (d.content i))
        | .error e => .error (.io e) := by
  intro cut
  unfold openRecord
  rw [h]
  simp only [checked_eq_ok.mpr ⟨ho, rfl⟩, Contents.ofBytes, if_neg ht, World.warn, recorderOf]
  split
  · rename_i hc; simp only [cut, hc, and_self]
  · rename_i e hc; simp only [cut, hc, and_self]

theorem openRecord_regression {k : Nat} (h : w.disk.openCreate path = .ok (i, d))
    (hk : regression? (Entry.readAll (d.content i)) = some k) :
    openRecord path w =
      (.error (.corrupt s!"{path}: timestamp decreases at record {k}"), { w with disk := d }) := by
  unfold openRecord
  rw [h]
  simp only [checked_eq_error.mpr ⟨k, hk, rfl⟩]

theorem openRecord_disordered (h : w.disk.openCreate path = .ok (i, d))
    (ho : ¬ IsOrdered (Entry.readAll (d.content i))) :
    ∃ what, openRecord path w = (.error (.corrupt what), { w with disk := d }) := by
  cases hr : regression? (Entry.readAll (d.content i)) with
  | none => exact absurd ((regression?_eq_none _).mp hr) ho
  | some k => exact ⟨_, openRecord_regression h hr⟩

theorem content_cut {d' : Disk}
    (h : d.resize i ((Entry.readAll (d.content i)).length * Entry.size) = (.ok (), d')) :
    d'.content i = Entry.encodeAll (Entry.readAll (d.content i)) := by
  unfold Disk.resize at h
  split at h
  · cases h
  · cases h
    have hle := Nat.div_mul_le_self (d.content i).length Entry.size
    rw [Disk.content_setContent_self, Entry.length_readAll, Nat.sub_eq_zero_of_le hle,
      List.replicate_zero, List.append_nil, Entry.encodeAll_readAll]

/-- An index that is open for recording knows the complete records of its file, and nothing else is
left in the file. -/
theorem openRecord_ok {x : Index} (h : openRecord path w = (.ok x, w')) :
    ∃ i d, w.disk.openCreate path = .ok (i, d) ∧ x = recorderOf path i (d.content i) ∧
      IsOrdered (Entry.readAll (d.content i)) ∧ d.ChangesOnly i w'.disk ∧
      w'.disk.content i = Entry.encodeAll (Entry.readAll (d.content i)) := by
  cases ho : w.disk.openCreate path with
  | error e => unfold openRecord at h; rw [ho] at h; cases h
  | ok made =>
    obtain ⟨i, d⟩ := made
    by_cases hord : IsOrdered (Entry.readAll (d.content i))
    · by_cases ht : (d.content i).length % Entry.size = 0
      · rw [openRecord_whole ho hord ht] at h
        cases h
        refine ⟨i, d, rfl, rfl, hord, .refl i d, ?_⟩
        rw [Entry.encodeAll_readAll, Nat.div_mul_cancel (Nat.dvd_of_mod_eq_zero ht),
          List.take_length]
      · obtain ⟨hd, hx⟩ := openRecord_torn ho hord ht
        rw [h] at hd hx
        simp only at hd hx
        split at hx
        · rename_i hcut
          cases hx
          refine ⟨i, d, rfl, rfl, hord, hd ▸ Disk.changesOnly_resize i d _, ?_⟩
          cases hr : d.resize i ((Entry.readAll (d.content i)).length * Entry.size) with
          | mk result d' =>
            rw [hr] at hd hcut
            cases result with
            | ok u => rw [hd]; exact content_cut hr
            | error e => cases hcut
        · cases hx
    · obtain ⟨what, hw⟩ := openRecord_disordered (w := w) ho hord
      rw [hw] at h
      cases h

inductive Unrecordable (path : Path) (d : Disk) : Error → Prop
  | unopened {cause : IoError} : d.openCreate path = .error cause →
      Unrecordable path d (.ofOpening path cause)
  | disordered {i : FileId} {k : Nat} : d.lookUp path = .ok (.file i) →
      regression? (Entry.readAll (d.content i)) = some k →
      Unrecordable path d (.corrupt s!"{path}: timestamp decreases at record {k}")

/-- The storage of the file `i` failed where its torn end was to be cut off: the new length was not
taken, or it was and could not be synced. -/
structure Uncut (path : Path) (i : FileId) (cause : IoError) (d d' : Disk) : Prop where
  file : d.lookUp path = .ok (.file i)
  ordered : IsOrdered (Entry.readAll (d.content i))
  torn : (d.content i).length % Entry.size ≠ 0
  failed : (d.medium i).resizeError = some cause ∧ d' = d ∨
    ((d.medium i).resizeError = none ∧ (d.medium i).syncError = some cause) ∧
      d.ChangesOnly i d' ∧ d'.content i = Entry.encodeAll (Entry.readAll (d.content i))

theorem Unrecordable.openRecord {e : Error} (h : Unrecordable path w.disk e) :
    openRecord path w = (.error e, w) := by
  cases h with
  | unopened hcause =>
    unfold Index.openRecord
    rw [hcause]
  | disordered hl hk => exact openRecord_regression (Disk.openCreate_of_file hl) hk

theorem uncut_of_torn {e : Error} (hl : w.disk.lookUp path = .ok (.file i))
    (ho : IsOrdered (Entry.readAll (w.disk.content i)))
    (ht : (w.disk.content i).length % Entry.size ≠ 0) (h : openRecord path w = (.error e, w')) :
    ∃ cause, e = .io cause ∧ Uncut path i cause w.disk w'.disk := by
  obtain ⟨hd, hx⟩ := openRecord_torn (Disk.openCreate_of_file hl) ho ht
  rw [h] at hd hx
  simp only at hd hx
  cases hresize : (w.disk.medium i).resizeError with
  | some cause =>
    simp only [Disk.resize, hresize, Except.bind] at hd hx
    cases hx
    exact ⟨cause, rfl, hl, ho, ht, .inl ⟨hresize, hd⟩⟩
  | none =>
    have hcut : w.disk.resize i ((Entry.readAll (w.disk.content i)).length * Entry.size) =
        (.ok (), w'.disk) := by
      rw [hd]
      simp only [Disk.resize, hresize]
    have hchange : w.disk.ChangesOnly i w'.disk := hd ▸ Disk.changesOnly_resize i _ _
    rw [hcut] at hx
    simp only [Except.bind, Disk.sync, hchange.medium] at hx
    cases hsync : (w.disk.medium i).syncError with
    | none =>
      rw [hsync] at hx
      cases hx
    | some cause =>
      rw [hsync] at hx
      cases hx
      exact ⟨cause, rfl, hl, ho, ht, .inr ⟨⟨hresize, hsync⟩, hchange, content_cut hcut⟩⟩

theorem openRecord_error_cases {e : Error} (h : openRecord path w = (.error e, w')) :
    Unrecordable path w.disk e ∧ w' = w ∨
      ∃ i cause, e = .io cause ∧ Uncut path i cause w.disk w'.disk := by
  cases ho : w.disk.openCreate path with
  | error cause =>
    unfold openRecord at h
    rw [ho] at h
    cases h
    exact .inl ⟨.unopened ho, rfl⟩
  | ok made =>
    obtain ⟨i, d⟩ := made
    obtain ⟨n, hp, ⟨hn, rfl⟩ | ⟨hn, hd⟩⟩ := Disk.openCreate_ok ho
    · have hl : w.disk.lookUp path = .ok (.file i) := Disk.lookUp_eq_file.mpr ⟨n, hp, hn⟩
      cases hk : regression? (Entry.readAll (w.disk.content i)) with
      | some k =>
        have hrefused := Unrecordable.disordered hl hk
        rw [hrefused.openRecord] at h
        cases h
        exact .inl ⟨hrefused, rfl⟩
      | none =>
        have hord := (regression?_eq_none _).mp hk
        by_cases ht : (w.disk.content i).length % Entry.size = 0
        · rw [openRecord_whole ho hord ht] at h
          cases h
        · exact .inr ⟨i, uncut_of_torn hl hord ht h⟩
    · -- a file that was just made is empty and cannot be refused
      have hc : d.content i = [] := by
        rw [show d = (w.disk.addFile n).2 from congrArg Prod.snd hd,
          show i = w.disk.next from congrArg Prod.fst hd, Disk.content, Disk.file_addFile,
          if_pos rfl]
      rw [openRecord_whole ho (by rw [hc]; exact isOrdered_nil) (by rw [hc]; rfl)] at h
      cases h

/-- A failed opening changes no more than the torn end of a file that was there. -/
theorem openRecord_error {e : Error} (h : openRecord path w = (.error e, w')) :
    w'.disk = w.disk ∨ ∃ i, w.disk.lookUp path = .ok (.file i) ∧
      w.disk.ChangesOnly i w'.disk ∧
      w'.disk.content i = Entry.encodeAll (Entry.readAll (w.disk.content i)) := by
  rcases openRecord_error_cases h with ⟨_, rfl⟩ | ⟨i, _, _, hcut⟩
  · exact .inl rfl
  · rcases hcut.failed with ⟨_, hd⟩ | ⟨_, hchange, hcontent⟩
    · exact .inl hd
    · exact .inr ⟨i, hcut.file, hchange, hcontent⟩

/-- It makes no difference by which of its paths a file is opened. -/
theorem openRecord_same {q : Path} {v : World} {n : Name} {x : Index} (hp : w.disk.LeadsTo path n)
    (hq : v.disk.LeadsTo q n) (hd : v.disk = w.disk) (h : openRecord path w = (.ok x, w')) :
    ∃ y v', openRecord q v = (.ok y, v') ∧ v'.disk = w'.disk := by
  obtain ⟨i, d, hcreate, _, hord, _⟩ := openRecord_ok h
  have hcreate' : v.disk.openCreate q = .ok (i, d) := by
    rw [← hcreate, Disk.openCreate_of_leadsTo hp, Disk.openCreate_of_leadsTo hq, hd]
  by_cases ht : (d.content i).length % Entry.size = 0
  · rw [openRecord_whole hcreate hord ht] at h
    cases h
    exact ⟨_, _, openRecord_whole hcreate' hord ht, rfl⟩
  · obtain ⟨hdisk, hx⟩ := openRecord_torn hcreate hord ht
    obtain ⟨hdisk', hy⟩ := openRecord_torn hcreate' hord ht
    rw [h] at hdisk hx
    simp only at hdisk hx
    split at hx
    · rename_i hcut
      rw [hcut] at hy
      exact ⟨_, _, Prod.ext hy rfl, hdisk'.trans hdisk.symm⟩
    · cases hx

theorem openRecord_of_file {es : List Entry} (hl : w.disk.lookUp path = .ok (.file i))
    (hc : w.disk.content i = Entry.encodeAll es) (ho : IsOrdered es) :
    openRecord path w = (.ok ⟨path, .record, some i, es.getLast?, es.length, 0⟩, w) := by
  have ht : (w.disk.content i).length % Entry.size = 0 := by
    rw [hc, Entry.length_encodeAll, Nat.mul_mod_left]
  rw [openRecord_whole (Disk.openCreate_of_file hl) (by rwa [hc, Entry.readAll_encodeAll]) ht,
    recorderOf, hc, Entry.readAll_encodeAll, Entry.length_encodeAll, Nat.mul_mod_left]

theorem openRecord_new {n : Name} (hp : w.disk.LeadsTo path n) (hn : w.disk.node? n = none) :
    ∃ d, openRecord path w = (.ok (recorderOf path w.disk.next []), { w with disk := d }) ∧
      d.lookUp path = .ok (.file w.disk.next) ∧ d.medium w.disk.next = .regular ∧
      d.content w.disk.next = [] := by
  have hcreate : w.disk.openCreate path = .ok (w.disk.next, (w.disk.addFile n).2) := by
    rw [Disk.openCreate_of_leadsTo hp, hn]
    rfl
  have hfile : (w.disk.addFile n).2.file w.disk.next = {} := by
    rw [Disk.file_addFile, if_pos rfl]
  have hcontent : (w.disk.addFile n).2.content w.disk.next = [] := congrArg File.content hfile
  have hopen := openRecord_whole (w := w) hcreate (by rw [hcontent]; exact isOrdered_nil)
    (by rw [hcontent]; rfl)
  rw [hcontent] at hopen
  exact ⟨_, hopen, Disk.lookUp_openCreate hcreate, congrArg File.medium hfile, hcontent⟩

end

/-! ## Opening for playback -/

theorem openPlayback_eq_ok {path : Path} {d : Disk} {x : Index} :
    openPlayback path d = .ok x ↔ ∃ i, d.lookUp path = .ok (.file i) ∧
      IsOrdered (Entry.readAll (d.content i)) ∧
      x = ⟨path, .playback, some i, (Entry.readAll (d.content i)).getLast?,
        (Entry.readAll (d.content i)).length, 0⟩ := by
  unfold openPlayback
  rw [bind_eq_ok]
  simp only [mapError_eq_ok, Disk.openRead_eq_ok, bind_eq_ok, checked_eq_ok]
  constructor
  · rintro ⟨i, hl, c, ⟨ho, rfl⟩, h⟩
    cases h
    exact ⟨i, hl, ho, rfl⟩
  · rintro ⟨i, hl, ho, rfl⟩
    exact ⟨i, hl, _, ⟨ho, rfl⟩, rfl⟩

inductive Unopened (path : Path) (d : Disk) : Error → Prop
  | unreadable {cause : IoError} : d.openRead path = .error cause →
      Unopened path d (.ofOpening path cause)
  | disordered {i : FileId} {k : Nat} : d.openRead path = .ok i →
      regression? (Entry.readAll (d.content i)) = some k →
      Unopened path d (.corrupt s!"{path}: timestamp decreases at record {k}")

theorem unopened_of_error {path : Path} {d : Disk} {e : Error}
    (h : openPlayback path d = .error e) : Unopened path d e := by
  unfold openPlayback at h
  cases hi : d.openRead path with
  | error cause =>
    rw [hi] at h
    cases h
    exact .unreadable hi
  | ok i =>
    rw [hi, mapError_ok, ok_bind] at h
    cases hc : Contents.checked path (d.content i) with
    | ok c =>
      rw [hc] at h
      cases h
    | error e' =>
      rw [hc] at h
      cases h
      obtain ⟨k, hk, rfl⟩ := checked_eq_error.mp hc
      exact .disordered hi hk

/-! ## Writing -/

section
variable {x x' : Index} {i : FileId} {es : List Entry} {e : Entry} {w w' : World}

theorem Tracks.admits_iff (h : x.Tracks i es) (time : UInt64) :
    x.later? time = none ↔ Admits es time := later?_eq_none h.tail time

theorem Tracks.push (h : x.Tracks i es) (e : Entry) :
    Tracks { x with tail := some e, written := x.written + 1 } i (es ++ [e]) :=
  ⟨h.mode, h.file, by simp, by simp [h.written]⟩

/-- Whatever the disk does, a handle that has written knows one more record and is as it was. -/
theorem write_eq_ok (h : x.write e w = (.ok x', w')) :
    x' = { x with tail := some e, written := x.written + 1 } := by
  unfold write at h
  split at h
  · cases h
  · cases h
  · split at h
    · cases h
    · simp only at h
      split at h
      · cases h
        rfl
      · split at h
        · cases h
        · cases h

theorem tail_le_of_write (h : x.write e w = (.ok x', w')) :
    ∀ t ∈ x.tail, t.timestamp ≤ e.timestamp := by
  intro t ht
  unfold write at h
  split at h
  · cases h
  · cases h
  · split at h
    · cases h
    · rename_i hlater
      rw [later?, Option.mem_def.mp ht, Option.map_some, Option.filter_eq_none_iff] at hlater
      simpa using hlater t.timestamp rfl

theorem write_refused (h : x.Tracks i es) (ha : ¬ Admits es e.timestamp) :
    ∃ last, x.write e w = (.error (.timestampRegression e.timestamp last), w) := by
  cases hl : x.later? e.timestamp with
  | none => exact absurd ((h.admits_iff _).mp hl) ha
  | some last =>
    refine ⟨last, ?_⟩
    unfold write
    rw [h.mode, h.file]
    simp only [hl]

theorem write_rejected {err : Error} (h : x.write e w = (.error err, w'))
    (hr : err.isRejection = true) : w' = w := by
  unfold write at h
  split at h
  · cases h
    rfl
  · cases h
    rfl
  · split at h
    · cases h
      rfl
    · simp only at h
      split at h
      · cases h
      · -- what failed on the way was storage
        split at h
        · cases h
          cases hr
        · cases h
          cases hr

/-- A write that keeps the order is done if it is written and synced, and cut off again if not. -/
theorem write_admitted (h : x.Tracks i es) (ha : Admits es e.timestamp) :
    let appended := w.disk.append i e.encode
    let cut := appended.2.resize i (x.written * Entry.size)
    ((appended.1.bind fun _ => appended.2.sync i) = .ok () →
      x.write e w = (.ok { x with tail := some e, written := x.written + 1 },
        { w with disk := appended.2 })) ∧
    ∀ cause, (appended.1.bind fun _ => appended.2.sync i) = .error cause →
      ∃ w', x.write e w = (.error (.io cause), w') ∧ w'.disk = cut.2 := by
  intro appended cut
  have hw : x.write e w =
      match appended.1.bind fun _ => appended.2.sync i with
      | .ok () => (.ok { x with tail := some e, written := x.written + 1 },
          { w with disk := appended.2 })
      | .error cause =>
        match cut.1 with
        | .ok () => (.error (.io cause), { w with disk := cut.2 })
        | .error e => (.error (.io cause), World.warn { w with disk := cut.2 }
            (.rollBackFailed x.path e)) := by
    unfold write
    rw [h.mode, h.file]
    simp only [(h.admits_iff _).mpr ha]
    rfl
  refine ⟨fun hok => by rw [hw, hok], fun cause herr => ?_⟩
  rw [hw, herr]
  simp only
  split
  · exact ⟨_, rfl, rfl⟩
  · exact ⟨_, rfl, rfl⟩

theorem encode_ne_nil (e : Entry) : e.encode ≠ [] := by
  intro h
  have := congrArg List.length h
  rw [Entry.length_encode] at this
  cases this

/-- A write is turned away, or done, or begun and cut back to what the handle knows. -/
theorem write_cases (h : x.Tracks i es) (e : Entry) (w : World) :
    let appended := w.disk.append i e.encode
    (¬ Admits es e.timestamp ∧
      ∃ last, x.write e w = (.error (.timestampRegression e.timestamp last), w)) ∨
    (Admits es e.timestamp ∧ (appended.1.bind fun _ => appended.2.sync i) = .ok () ∧
      x.write e w = (.ok { x with tail := some e, written := x.written + 1 },
        { w with disk := appended.2 })) ∨
    ∃ cause w', x.write e w = (.error (.io cause), w') ∧
      w'.disk = (appended.2.resize i (es.length * Entry.size)).2 := by
  intro appended
  by_cases ha : Admits es e.timestamp
  · obtain ⟨hok, herr⟩ := write_admitted (w := w) h ha
    cases hr : appended.1.bind fun _ => appended.2.sync i with
    | ok u => exact .inr (.inl ⟨ha, rfl, hok hr⟩)
    | error cause =>
      obtain ⟨w', hw', hd⟩ := herr cause hr
      exact .inr (.inr ⟨cause, w', hw', h.written ▸ hd⟩)
  · exact .inl ⟨ha, write_refused h ha⟩

/-- What was accepted is behind all that the file held, on storage that keeps what it reports as
written. -/
theorem write_appends (h : x.Tracks i es) (hm : (w.disk.medium i).Honest)
    (hw : x.write e w = (.ok x', w')) : Admits es e.timestamp ∧ x'.Tracks i (es ++ [e]) ∧
      w.disk.ChangesOnly i w'.disk ∧ w'.disk.content i = w.disk.content i ++ e.encode := by
  rcases write_cases h e w with ⟨_, _, hr⟩ | ⟨ha, hsynced, hr⟩ | ⟨_, _, hr, _⟩
  · rw [hr] at hw
    cases hw
  · rw [hr] at hw
    cases hw
    exact ⟨ha, h.push e, Disk.changesOnly_append i _ _,
      Disk.content_append_synced (encode_ne_nil e) hm hsynced⟩
  · rw [hr] at hw
    cases hw

theorem write_honest (h : x.Tracks i es) (hc : w.disk.content i = Entry.encodeAll es)
    (hm : (w.disk.medium i).Honest) (hw : x.write e w = (.ok x', w')) :
    Admits es e.timestamp ∧ x'.Tracks i (es ++ [e]) ∧ w.disk.ChangesOnly i w'.disk ∧
      w'.disk.content i = Entry.encodeAll (es ++ [e]) := by
  obtain ⟨ha, htracks, hchange, hcontent⟩ := write_appends h hm hw
  refine ⟨ha, htracks, hchange, ?_⟩
  rw [hcontent, hc]
  simp

theorem write_ok (h : x.Tracks i es) (hc : w.disk.content i = Entry.encodeAll es)
    (hm : (w.disk.medium i).Exact) (hw : x.write e w = (.ok x', w')) :
    Admits es e.timestamp ∧ x'.Tracks i (es ++ [e]) ∧ w.disk.ChangesOnly i w'.disk ∧
      w'.disk.content i = Entry.encodeAll (es ++ [e]) := write_honest h hc hm.honest hw

/-- A write that fails was turned away, or it was begun and cut back to what the handle knows. -/
theorem write_failed {err : Error} (h : x.Tracks i es) (hw : x.write e w = (.error err, w')) :
    err.isRejection = true ∧ w' = w ∨ (∃ cause, err = .io cause) ∧
      w'.disk = ((w.disk.append i e.encode).2.resize i (es.length * Entry.size)).2 := by
  rcases write_cases h e w with ⟨_, _, hr⟩ | ⟨_, _, hr⟩ | ⟨cause, _, hr, hd⟩
  · rw [hr] at hw
    cases hw
    exact .inl ⟨rfl, rfl⟩
  · rw [hr] at hw
    cases hw
  · rw [hr] at hw
    cases hw
    exact .inr ⟨⟨cause, rfl⟩, hd⟩

theorem write_error {err : Error} (h : x.Tracks i es)
    (hc : w.disk.content i = Entry.encodeAll es) (hm : (w.disk.medium i).Exact)
    (hw : x.write e w = (.error err, w')) :
    w.disk.ChangesOnly i w'.disk ∧ w'.disk.content i = Entry.encodeAll es := by
  rcases write_failed h hw with ⟨_, rfl⟩ | ⟨_, hd⟩
  · exact ⟨.refl i _, hc⟩
  · rw [hd, ← Entry.length_encodeAll es]
    exact ⟨(Disk.changesOnly_append i _ _).trans (Disk.changesOnly_resize i _ _),
      Disk.content_undone hm (encode_ne_nil e) hc⟩

/-- Two handles that know the same row do the same to the disk. -/
theorem write_same {y : Index} {v : World} (hx : x.Tracks i es) (hy : y.Tracks i es)
    (hd : v.disk = w.disk) (e : Entry) : (y.write e v).1.isOk = (x.write e w).1.isOk ∧
      (y.write e v).2.disk = (x.write e w).2.disk := by
  by_cases ha : Admits es e.timestamp
  · obtain ⟨hok, herr⟩ := write_admitted (w := w) hx ha
    obtain ⟨hok', herr'⟩ := write_admitted (w := v) hy ha
    rw [hd] at hok'
    rw [hd, hy.written, ← hx.written] at herr'
    cases hr : (w.disk.append i e.encode).1.bind fun _ => (w.disk.append i e.encode).2.sync i with
    | ok u =>
      rw [hok hr, hok' hr]
      exact ⟨rfl, rfl⟩
    | error cause =>
      obtain ⟨w₁, hw, hdisk⟩ := herr cause hr
      obtain ⟨v₁, hv, hdisk'⟩ := herr' cause hr
      rw [hw, hv]
      exact ⟨rfl, hdisk'.trans hdisk.symm⟩
  · obtain ⟨_, hw⟩ := write_refused (w := w) hx ha
    obtain ⟨_, hv⟩ := write_refused (w := v) hy ha
    rw [hw, hv]
    exact ⟨rfl, hd⟩

theorem write_touches (x : Index) (e : Entry) (w : World) : (x.write e w).2.disk = w.disk ∨
    ∃ i, x.file = some i ∧ w.disk.ChangesOnly i (x.write e w).2.disk := by
  unfold write
  split
  · exact .inl rfl
  · exact .inl rfl
  · rename_i i _ hf
    split
    · exact .inl rfl
    · have happend := Disk.changesOnly_append i w.disk e.encode
      refine .inr ⟨i, hf, ?_⟩
      simp only
      split
      · exact happend
      · have hcut := happend.trans (Disk.changesOnly_resize i (w.disk.append i e.encode).2
          (x.written * Entry.size))
        split
        · exact hcut
        · exact hcut

/-- What a write answers does not depend on what the disk holds. -/
theorem write_congr (x : Index) (e : Entry) {v : World}
    (h : ∀ i, v.disk.medium i = w.disk.medium i) : (x.write e v).1 = (x.write e w).1 := by
  unfold write
  cases x.mode with
  | playback => rfl
  | record =>
    cases x.file with
    | none => rfl
    | some i =>
      cases x.later? e.timestamp with
      | some last => rfl
      | none =>
        simp only [Disk.append_synced_congr (h i) e.encode]
        cases (w.disk.append i e.encode).1.bind fun _ => (w.disk.append i e.encode).2.sync i with
        | ok _ => rfl
        | error cause =>
          simp only
          split
          · split
            · rfl
            · rfl
          · split
            · rfl
            · rfl

theorem write_isOk_iff (h : x.Tracks i es) (hm : w.disk.medium i = .regular) :
    (x.write e w).1.isOk ↔ Admits es e.timestamp := by
  constructor
  · intro hok
    by_cases ha : Admits es e.timestamp
    · exact ha
    · obtain ⟨last, hl⟩ := write_refused (w := w) h ha
      rw [hl] at hok
      cases hok
  · intro ha
    rw [(write_admitted h ha).1 (Disk.append_of_regular hm _)]
    rfl

end

/-! ## Reading -/

/-- Every question about the records of the file is answered from the row `es`. -/
structure Describes (x : Index) (d : Disk) (es : List Entry) : Prop where
  entries : x.entries d = .ok es
  length : x.length d = .ok es.length
  first : x.first? d = .ok es.head?
  last : x.last? d = .ok es.getLast?
  range : x.range? d =
    .ok (es.head?.bind fun f => es.getLast?.map fun l => (f.timestamp, l.timestamp))

theorem lookUp_of_file {x : Index} {i : FileId} (h : x.file = some i) (time : UInt64) (d : Disk) :
    x.lookUp time d = (search x.path (d.content i) time).map (·.offset) := by
  unfold lookUp bytes
  rw [h]
  rfl

theorem describes_of_file {x : Index} {i : FileId} (h : x.file = some i) (d : Disk) :
    x.Describes d (Entry.readAll (d.content i)) := by
  have hb : x.bytes d = .ok (d.content i) := by unfold bytes; rw [h]
  have hlen : x.length d = .ok (Entry.readAll (d.content i)).length := by
    unfold length
    rw [hb, ok_bind, Entry.length_readAll]
    rfl
  have hfirst : x.first? d = .ok (Entry.readAll (d.content i)).head? := by
    unfold first?
    rw [hb, ok_bind, Entry.readAt?_eq, ← List.head?_eq_getElem?]
    rfl
  have hlast : x.last? d = .ok (Entry.readAll (d.content i)).getLast? := by
    unfold last?
    rw [hb, ok_bind, hlen, ok_bind, Entry.readAt?_eq, ← List.getLast?_eq_getElem?]
    rfl
  refine ⟨?_, hlen, hfirst, hlast, ?_⟩
  · unfold entries
    rw [hb, ok_bind]
    rfl
  · unfold range?
    rw [hfirst, ok_bind, hlast, ok_bind]
    rfl

theorem disk_release (x : Index) (w : World) : (x.release w).disk = w.disk := by
  unfold release
  split
  · rfl
  · rfl

end Timeshift.Index
