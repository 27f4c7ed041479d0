import SiteConf.Outcome
import SiteConf.Source.Conditions
import SiteConf.Template.Host

set_option autoImplicit false

/-! # Rendering

A renderer renders with an engine. It reads a template as a whole before anything of it runs. When
a walk fails, its error is the answer, and not the fault of the template around it. -/

namespace SiteConf.Template

/-- A template engine with values `V` and states `σ`. What calls do is a parameter of all that it
runs, since a call can come back to the renderer. -/
structure Engine (V σ : Type) extends Host V σ where
  /-- What calling a value does that the renderer has not handed out. -/
  callValue : Calling V σ → Calling V σ
  /-- Reads a template. -/
  read : String → Except Fault (Calling V σ → Step σ Fault String)
  /-- The state before a template runs. -/
  start : Document → Conditions → σ
  /-- How deep calls may nest. -/
  limit : Nat

namespace Engine

variable {V σ : Type} (E : Engine V σ)

/-- Calls a value, with `call` for the calls that it makes. -/
def apply (call : Calling V σ) : Calling V σ :=
  fun callee args =>
    if E.isWalk callee then do
      Step.lift (noMore args)
      E.walkDocument call
    else if E.isNoop callee then pure (E.ofText "")
    else E.callValue call callee args

/-- Calls a value, with calls nested up to `n` deep. -/
def invoke : Nat → Calling V σ
  | 0 => fun _ _ => throw invalidOperation
  | n + 1 => E.apply (invoke n)

/-- The state in which a template begins: nothing is on the desk but the configuration. -/
def begin (document : Document) (conditions : Conditions) : σ :=
  E.setDesk ⟨document, [], none, []⟩ (E.start document conditions)

/-- Renders a template with a configuration and the active conditions. -/
def render (document : Document) (conditions : Conditions) (template : String) :
    Outcome String :=
  match E.read template with
  | .error f => Outcome.fail (.template f)
  | .ok program =>
      match (program (E.invoke E.limit)).run (E.begin document conditions) with
      | (.ok text, m) => ⟨.ok text, (E.desk m).log⟩
      | (.error f, m) => ⟨.error ((E.desk m).failure.getD (.template f)), (E.desk m).log⟩

end Engine

end SiteConf.Template
