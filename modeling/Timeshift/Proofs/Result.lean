import Mathlib.Control.Monad.Basic

/-!
# Results

A computation that may fail gives a value only if each of its steps does.
-/

namespace Timeshift

section
variable {ε ε' α β : Type}

@[simp] theorem ok_bind (a : α) (f : α → Except ε β) : (Except.ok a >>= f) = f a := rfl

@[simp] theorem error_bind (e : ε) (f : α → Except ε β) :
    ((Except.error e : Except ε α) >>= f) = .error e := rfl

theorem bind_eq_ok {x : Except ε α} {f : α → Except ε β} {b : β} :
    (x >>= f) = .ok b ↔ ∃ a, x = .ok a ∧ f a = .ok b := by
  cases x with
  | ok a => simp
  | error e => simp

theorem map_eq_ok {x : Except ε α} {f : α → β} {b : β} :
    x.map f = .ok b ↔ ∃ a, x = .ok a ∧ f a = b := by
  cases x with
  | ok a => simp [Except.map]
  | error e => simp [Except.map]

@[simp] theorem mapError_ok (a : α) (f : ε → ε') :
    (Except.ok a : Except ε α).mapError f = .ok a := rfl

theorem mapError_eq_ok {x : Except ε α} {f : ε → ε'} {a : α} :
    x.mapError f = .ok a ↔ x = .ok a := by
  cases x with
  | ok b => rw [mapError_ok, Except.ok.injEq, Except.ok.injEq]
  | error e => exact ⟨nofun, nofun⟩

theorem mapError_eq_error {x : Except ε α} {f : ε → ε'} {e : ε'} :
    x.mapError f = .error e ↔ ∃ cause, x = .error cause ∧ f cause = e := by
  cases x with
  | ok a => exact ⟨nofun, nofun⟩
  | error cause =>
    constructor
    · intro h
      cases h
      exact ⟨cause, rfl, rfl⟩
    · rintro ⟨_, ⟨⟩, rfl⟩
      rfl

theorem toOption_congr {x : Except ε α} {y : Except ε' α} (h : ∀ a, x = .ok a ↔ y = .ok a) :
    x.toOption = y.toOption := by
  cases x with
  | ok a => rw [(h a).mp rfl]; rfl
  | error e =>
    cases y with
    | ok b => cases (h b).mpr rfl
    | error e' => rfl

theorem exists_of_isOk {x : Except ε α} (h : x.isOk = true) : ∃ a, x = .ok a := by
  cases x with
  | ok a => exact ⟨a, rfl⟩
  | error e => cases h

theorem eq_ok_of_isOk {x : Except ε Unit} (h : x.isOk = true) : x = .ok () := by
  cases x with
  | ok a => rfl
  | error e => cases h

theorem eq_of_isOk {γ δ : Type} {p : Except ε α × γ × δ} {s : γ × δ} (hs : p.2 = s)
    (h : p.1.isOk = true) : ∃ a, p = (.ok a, s.1, s.2) := by
  obtain ⟨_ | a, b⟩ := p
  · cases h
  · exact ⟨a, by rw [← hs]⟩

theorem eq_of_not_isOk {γ δ : Type} {p : Except ε α × γ × δ} {s : γ × δ} (hs : p.2 = s)
    (h : p.1.isOk = false) : ∃ e, p = (.error e, s.1, s.2) := by
  obtain ⟨e | _, b⟩ := p
  · exact ⟨e, by rw [← hs]⟩
  · cases h

/-- A check in front of a computation that throws where its condition holds. -/
theorem unless_eq_ok {c : Prop} [Decidable c] {e : ε} {f : Unit → Except ε β} {b : β} :
    (if c then (throw e : Except ε Unit) >>= f else f ()) = .ok b ↔ ¬c ∧ f () = .ok b := by
  by_cases h : c
  · rw [if_pos h]
    exact ⟨nofun, fun h' => absurd h h'.1⟩
  · rw [if_neg h]
    exact ⟨fun h' => ⟨h, h'⟩, fun h' => h'.2⟩

end

end Timeshift
