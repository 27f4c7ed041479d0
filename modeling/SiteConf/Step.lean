set_option autoImplicit false

/-! # Computations with a state

The parser, the resolver, the walk over a tree and the template machine all work on a state and
may fail. The state survives a failure: what was done before it can still be looked at. -/

namespace SiteConf

/-- A computation on a state `σ` that returns an `α` or fails with an `ε`; in both cases the
state it leaves is part of the result. -/
abbrev Step (σ ε α : Type) := ExceptT ε (StateM σ) α

namespace Step

variable {σ ε α β : Type}

/-- Runs a computation from a state. -/
def run (x : Step σ ε α) (s : σ) : Except ε α × σ :=
  StateT.run (ExceptT.run x) s

/-- The computation that does what a function of the state says. -/
def of (f : σ → Except ε α × σ) : Step σ ε α :=
  ExceptT.mk (fun s => f s)

/-- Continues with a result that is already known. -/
def lift : Except ε α → Step σ ε α
  | .ok a => pure a
  | .error e => throw e

/-! ## Running -/

@[simp] theorem run_of (f : σ → Except ε α × σ) (s : σ) : run (of f) s = f s := rfl

@[simp] theorem run_pure (a : α) (s : σ) : run (pure a : Step σ ε α) s = (.ok a, s) := rfl

@[simp] theorem run_throw (e : ε) (s : σ) : run (throw e : Step σ ε α) s = (.error e, s) := rfl

@[simp] theorem run_lift (r : Except ε α) (s : σ) : run (lift r : Step σ ε α) s = (r, s) := by
  cases r <;> rfl

/-- A sequence goes on from the state that its first part leaves, or ends with its failure. -/
theorem run_bind (x : Step σ ε α) (f : α → Step σ ε β) (s : σ) :
    run (x >>= f) s =
      match run x s with
      | (.ok a, s') => run (f a) s'
      | (.error e, s') => (.error e, s') := by
  show (ExceptT.bindCont f (run x s).1) (run x s).2 = _
  rcases run x s with ⟨r, s'⟩
  cases r <;> rfl

/-- A handler starts from the state in which the failure happened. -/
theorem run_tryCatch (x : Step σ ε α) (h : ε → Step σ ε α) (s : σ) :
    run (tryCatch x h) s =
      match run x s with
      | (.ok a, s') => (.ok a, s')
      | (.error e, s') => run (h e) s' := by
  show StateT.run (ExceptT.run (ExceptT.tryCatch x h)) s = _
  simp only [ExceptT.tryCatch, ExceptT.run, ExceptT.mk, StateT.run, bind, StateT.bind]
  have hx : run x s = x s := rfl
  rw [hx]
  rcases x s with ⟨r, s'⟩
  cases r <;> rfl

end Step

end SiteConf
