import SiteConf.Error
import SiteConf.Log

set_option autoImplicit false

/-! # Outcomes

An outcome is what an operation of the compiler leaves behind: its result, which may be an
error, and the log lines written on the way. Outcomes are sequenced like results; an error ends
the sequence and keeps the log so far. -/

namespace SiteConf

/-- A result and the log lines written for it. -/
structure Outcome (α : Type) where
  result : Except Error α
  log : Log := []

namespace Outcome

variable {α β : Type}

/-- Goes on with the value of an outcome, if it has one. -/
def andThen (x : Outcome α) (f : α → Outcome β) : Outcome β :=
  match x.result with
  | .error e => ⟨.error e, x.log⟩
  | .ok a =>
      let y := f a
      ⟨y.result, x.log ++ y.log⟩

instance : Monad Outcome where
  pure a := ⟨.ok a, []⟩
  bind := andThen

/-- The outcome with a known result and nothing logged. -/
def ofResult (r : Except Error α) : Outcome α :=
  ⟨r, []⟩

def fail (e : Error) : Outcome α :=
  ⟨.error e, []⟩

def write (log : Log) : Outcome Unit :=
  ⟨.ok (), log⟩

def note (level : Level) (message : String) : Outcome Unit :=
  write [⟨level, message⟩]

@[simp] theorem result_pure (a : α) : (pure a : Outcome α).result = .ok a := rfl

@[simp] theorem result_ofResult (r : Except Error α) : (ofResult r).result = r := rfl

@[simp] theorem result_write (log : Log) : (write log).result = .ok () := rfl

@[simp] theorem result_bind (x : Outcome α) (f : α → Outcome β) :
    (x >>= f).result = x.result >>= fun a => (f a).result := by
  show (andThen x f).result = _
  unfold andThen
  cases x.result <;> rfl

end Outcome

end SiteConf
