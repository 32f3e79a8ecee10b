import Timeshift.Proofs.Disk.Beside
import Timeshift.Proofs.Recording.Storing

/-!
# What a manifest's place may hold

A place that only good manifests are stored at never holds another one: a draft that was cut short
does not get there, and where the draft has the manifest's own place, storage writes it in full. For
this it is enough that storing goes to these two places, or to neither of them.
-/

namespace Timeshift.Manifest

/-- Whatever manifest can be read at `place` is a good one. It is replaced by way of `draft`, where
storage keeps what it reports as written. -/
structure Documented (good : Manifest → Prop) (place draft : Name) (d : Disk) : Prop where
  sound : d.Sound
  document : ∀ {i text m}, d.node? place = some (.file i) → d.content i = Utf8.encode text →
    ofText text = .ok m → good m
  honest : ∀ {i}, d.node? draft = some (.file i) → (d.medium i).Honest
  regular : ∀ {i}, place = draft → d.node? draft = some (.file i) → d.medium i = .regular

def StoresAt (place draft n : Name) : Prop := n = place ∨ n = draft

section
variable {good : Manifest → Prop} {place draft : Name} {d d' : Disk} {m : Manifest} {path : Path}
  {i : FileId}

namespace Documented

theorem letsBe (h : Documented good place draft d)
    (hd : Disk.LetsBe (StoresAt place draft) d d') : Documented good place draft d' := by
  refine ⟨hd.sound h.sound, fun {i text m} hi hc hm => ?_, fun {i} hi => ?_, fun {i} he hi => ?_⟩
  · obtain ⟨hi₀, hfile⟩ := hd.file place i (.inl rfl) hi
    unfold Disk.content at hc
    rw [hfile] at hc
    exact h.document hi₀ hc hm
  · obtain ⟨hi₀, hfile⟩ := hd.file draft i (.inr rfl) hi
    unfold Disk.medium
    rw [hfile]
    exact h.honest hi₀
  · obtain ⟨hi₀, hfile⟩ := hd.file draft i (.inr rfl) hi
    unfold Disk.medium
    rw [hfile]
    exact h.regular he hi₀

/-- The draft is written. At the manifest's place there is what was there, or the whole document. -/
theorem changesAt (h : Documented good place draft d) (hm : good m)
    (hat : Disk.ChangesAt draft i d d') (hs : d'.Sound)
    (hdraft : ∀ j, d'.node? draft = some (.file j) → j = i)
    (hplace : ∀ j, d'.node? place = some (.file j) →
      place ≠ draft ∧ d.node? place = some (.file j) ∨
        j = i ∧ d'.content i = Utf8.encode m.text) :
    Documented good place draft d' ∧ ∀ j, d.Off (StoresAt place draft) j →
      d'.Off (StoresAt place draft) j := by
  refine ⟨⟨hs, fun {j text m'} hj hc hm' => ?_, fun {j} hj => ?_, fun {j} he hj => ?_⟩,
    fun j hoff => ?_⟩
  · rcases hplace j hj with ⟨hne, hj₀⟩ | ⟨rfl, hcontent⟩
    · rw [(hat.other h.sound hj₀ hne).1] at hc
      exact h.document hj₀ hc hm'
    · -- the bytes have one text, and the text one manifest
      have htext : text = m.text := by
        rw [hcontent] at hc
        have hdecode := Utf8.decode?_encode text
        rw [← hc, Utf8.decode?_encode] at hdecode
        exact (Option.some.inj hdecode).symm
      rw [htext, ofText_text] at hm'
      cases hm'
      exact hm
  · rw [hdraft j hj]
    rcases hat.place with ⟨hi, _, hmedium⟩ | ⟨_, _, _, hmedium⟩
    · rw [hmedium]
      exact h.honest hi
    · rw [hmedium]
      exact Medium.faithful_regular.honest
  · rw [hdraft j hj]
    rcases hat.place with ⟨hi, _, hmedium⟩ | ⟨_, _, _, hmedium⟩
    · rw [hmedium]
      exact h.regular he hi
    · exact hmedium
  · have hne : j ≠ i := by
      rintro rfl
      rcases hat.place with ⟨hi, _⟩ | ⟨_, hi, _⟩
      · exact hoff.apart draft (.inr rfl) hi
      · exact Nat.ne_of_lt hoff.lt hi
    refine ⟨Nat.lt_of_lt_of_le hoff.lt hat.next_le, fun n hn hj => ?_⟩
    rcases hn with rfl | rfl
    · rcases hplace j hj with ⟨_, hj₀⟩ | ⟨hji, _⟩
      · exact hoff.apart n (.inl rfl) hj₀
      · exact hne hji
    · exact hne (hdraft j hj)

/-- A good manifest may be stored there. -/
theorem store (h : Documented good place draft d) (hm : good m)
    (hq : ∀ n, d.LeadsTo path n → n = place)
    (hp : ∀ n, d.LeadsTo (path.withExtension "tmp") n → n = draft) :
    Documented good place draft (m.store path d).2 ∧ ∀ j, d.Off (StoresAt place draft) j →
      (m.store path d).2.Off (StoresAt place draft) j := by
  generalize hd : (m.store path d).2 = d'
  rcases Disk.replace_cases h.sound (text_ne_nil m) hd with
    rfl | ⟨s, i, hleads, ⟨hw, hcontent⟩ | ⟨t, hleads', hr, hcontent⟩⟩
  · exact ⟨h, fun _ hoff => hoff⟩
  · obtain rfl := hp s hleads
    refine h.changesAt hm hw.toChangesAt (hw.sound h.sound) (fun j hj => ?_) fun j hj => ?_
    · rw [hw.node?, if_pos rfl] at hj
      cases hj
      rfl
    · rw [hw.node?] at hj
      by_cases he : place = s
      · rw [if_pos he] at hj
        cases hj
        refine .inr ⟨rfl, hcontent ?_⟩
        rcases hw.place with ⟨hi, _, hmedium⟩ | ⟨_, _, _, hmedium⟩
        · rw [hmedium]
          exact h.regular he hi
        · exact hmedium
      · rw [if_neg he] at hj
        exact .inl ⟨he, hj⟩
  · obtain rfl := hp s hleads
    obtain rfl := hq t hleads'
    have hwhole := hcontent fun j hj => by
      obtain ⟨n, hn, hj⟩ := Disk.lookUp_eq_file.mp hj
      rw [hp n hn] at hj
      exact h.honest hj
    refine h.changesAt hm hr.toChangesAt (hr.sound h.sound hleads') (fun j hj => ?_)
      fun j hj => ?_
    · rw [hr.node?] at hj
      split at hj
      · cases hj
        rfl
      · rw [if_pos rfl] at hj
        cases hj
    · rw [hr.node?, if_pos rfl] at hj
      cases hj
      exact .inr ⟨rfl, hwhole⟩

end Documented

theorem letsBe_store {places : Name → Prop} (hs : d.Sound) (m : Manifest)
    (hq : ∀ n, d.LeadsTo path n → ¬ places n)
    (hp : ∀ n, d.LeadsTo (path.withExtension "tmp") n → ¬ places n) :
    Disk.LetsBe places d (m.store path d).2 :=
  ((Disk.stops_replace path _ _ d).outcome hs).letsBe hs hp hq

end

end Timeshift.Manifest
