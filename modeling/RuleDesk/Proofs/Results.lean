import Mathlib.Data.List.Basic

/-!
# Results and failures

What the parts of a computation have given if the whole has given a result or failed: for results
alone, and for operations on a state, which leave a state behind in both cases.
-/
namespace RuleDesk

section Results

variable {ε δ α β : Type} {x : Except ε α}

theorem bind_eq_ok_iff {f : α → Except ε β} {b : β} :
    (x >>= f) = .ok b ↔ ∃ a, x = .ok a ∧ f a = .ok b := by
  constructor
  · intro h
    cases x with
    | error e => cases h
    | ok a => exact ⟨a, rfl, h⟩
  · rintro ⟨a, rfl, h⟩
    exact h

theorem map_eq_ok_iff {f : α → β} {b : β} : f <$> x = .ok b ↔ ∃ a, x = .ok a ∧ f a = b := by
  cases x with
  | error e => simp
  | ok a => simp

theorem mapError_eq_ok_iff {f : ε → δ} {a : α} : x.mapError f = .ok a ↔ x = .ok a := by
  cases x <;> simp [Except.mapError]

end Results

section Operations

variable {ε σ α β : Type} {x : EStateM ε σ α} {f : α → EStateM ε σ β} {s t : σ}

theorem run_bind_eq_ok_iff {b : β} : (x >>= f).run s = .ok b t ↔
    ∃ a u, x.run s = .ok a u ∧ (f a).run u = .ok b t := by
  rw [EStateM.run_bind]
  cases x.run s with
  | ok a u => simp [and_assoc]
  | error e u => simp

/-- A sequence fails where its first part fails, or the second one behind it. -/
theorem run_bind_eq_error_iff {e : ε} : (x >>= f).run s = .error e t ↔
    x.run s = .error e t ∨ ∃ a u, x.run s = .ok a u ∧ (f a).run u = .error e t := by
  rw [EStateM.run_bind]
  cases x.run s with
  | ok a u => simp [and_assoc]
  | error e u => simp

end Operations
end RuleDesk
