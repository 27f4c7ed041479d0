import SiteConf.Source.Blocks
import SiteConf.Source.Inline
import SiteConf.Source.Markers
import SiteConf.Step

set_option autoImplicit false

/-! # Preprocessing

Configurations and templates run through three passes: conditional blocks, inline conditionals and
placeholders. An inspector sees the text after each pass, may keep notes in a state of its own,
and may stop the run. -/

namespace SiteConf.Source

/-- Runs the passes and shows the text after each to the inspector. -/
def preprocessInspected {σ : Type} (inspect : Pass → String → Step σ Error Unit)
    (conditions : Conditions) (placeholders : Placeholders) (text : String) :
    Step σ Error String := do
  let resolved ← Step.lift (resolveBlocks conditions text)
  inspect .conditionals resolved
  let inlined := applyInline conditions resolved
  inspect .inline inlined
  let filled ← Step.lift (substitute placeholders inlined)
  inspect .placeholders filled
  return filled

def preprocess (conditions : Conditions) (placeholders : Placeholders) (text : String) :
    Except Error String := do
  let resolved ← resolveBlocks conditions text
  substitute placeholders (applyInline conditions resolved)

/-! ## Keeping the lines -/

/-- Fails when a pass has changed the number of lines. Inline conditionals are not checked: they
work on single lines. -/
def checkLines (source : String) (before : Nat) (stage : Pass) (text : String) :
    Except Error Unit :=
  match stage with
  | .inline => .ok ()
  | _ =>
      if Text.lineCount text = before then .ok ()
      else .error (.lineCount source stage before (Text.lineCount text))

/-- Runs the passes over a named text and checks that its lines keep their numbers. -/
def preprocessNamed (conditions : Conditions) (placeholders : Placeholders)
    (source text : String) : Except Error String :=
  let check := fun stage out => Step.lift (checkLines source (Text.lineCount text) stage out)
  (Step.run (preprocessInspected check conditions placeholders text) ()).1

end SiteConf.Source
