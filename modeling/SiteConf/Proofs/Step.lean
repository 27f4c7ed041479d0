import SiteConf.Step
import Mathlib

set_option autoImplicit false

/-! # Runs of sequenced computations

How a run of `x >>= f` ends, in the forms in which proofs about parsers and resolvers use it: a
run that returns goes through a return of `x`, and once the end of `x` is known the run of the
whole is known. A result that is mapped ends as it ended before. -/

namespace SiteConf.Step

variable {σ ε α β : Type}

theorem run_get (s : σ) : (get : Step σ ε σ).run s = (.ok s, s) := rfl

theorem run_bind_of_ok {x : Step σ ε α} {f : α → Step σ ε β} {s s₁ : σ} {a : α}
    (h : run x s = (.ok a, s₁)) : run (x >>= f) s = run (f a) s₁ := by
  rw [run_bind, h]

theorem run_bind_of_error {x : Step σ ε α} {f : α → Step σ ε β} {s s₁ : σ} {e : ε}
    (h : run x s = (.error e, s₁)) : run (x >>= f) s = (.error e, s₁) := by
  rw [run_bind, h]

/-- A sequence returns when both of its parts do, one after the other. -/
theorem run_bind_eq_ok_iff {x : Step σ ε α} {f : α → Step σ ε β} {s s' : σ} {b : β} :
    run (x >>= f) s = (.ok b, s') ↔
      ∃ a s₁, run x s = (.ok a, s₁) ∧ run (f a) s₁ = (.ok b, s') := by
  constructor
  · intro h
    rcases hx : run x s with ⟨_ | a, s₁⟩
    · rw [run_bind_of_error hx] at h
      cases h
    · rw [run_bind_of_ok hx] at h
      exact ⟨a, s₁, rfl, h⟩
  · rintro ⟨a, s₁, hx, hf⟩
    rw [run_bind_of_ok hx, hf]

/-! ## Mapped results -/

theorem exists_of_map_eq_ok {x : Except ε α} {f : α → β} {b : β} (h : x.map f = .ok b) :
    ∃ a, x = .ok a ∧ b = f a := by
  cases x with
  | error e => cases h
  | ok a =>
      cases h
      exact ⟨a, rfl, rfl⟩

theorem eq_error_of_map {x : Except ε α} {f : α → β} {e : ε} (h : x.map f = .error e) :
    x = .error e := by
  cases x with
  | error e' =>
      cases h
      rfl
  | ok a => cases h

end SiteConf.Step
