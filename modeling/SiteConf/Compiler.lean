import SiteConf.Document.Inherit
import SiteConf.Document.Parse
import SiteConf.Source.Preprocess
import SiteConf.Template.Render

set_option autoImplicit false

/-! # The compiler

A configuration is preprocessed, read and settled; the template of a dialect is preprocessed and
rendered with it. The configuration comes first: of two faults, one in each text, that of the
configuration is reported. -/

namespace SiteConf

/-- What all compilations of one run share: the active conditions and the placeholders. -/
structure Compiler where
  conditions : Conditions := []
  placeholders : Placeholders := []
  deriving Repr, Inhabited

/-- What turns a settled configuration and a preprocessed template into a result. -/
abbrev Renderer (α : Type) := Document → Conditions → String → Outcome α

namespace Compiler

def preprocess (c : Compiler) (name text : String) : Outcome String := do
  Outcome.write (Source.blockLog text)
  let out ← Outcome.ofResult (Source.preprocessNamed c.conditions c.placeholders name text)
  Outcome.note .debug
    ("Preprocessed " ++ name ++ " (" ++ Number.showNat (Text.lineCount text) ++ " lines)")
  return out

/-- Reads a named configuration and lets its parts inherit what they share. -/
def load (c : Compiler) (name text : String) : Outcome Document := do
  let source ← c.preprocess name text
  let document ← Document.parse source
  Outcome.write document.settleLog
  return document.settle

/-- Loads a configuration, preprocesses a template, and hands both to a renderer. -/
def compileWith {α : Type} (c : Compiler) (renderer : Renderer α)
    (configName config templateName template : String) : Outcome α := do
  let document ← c.load configName config
  let source ← c.preprocess templateName template
  renderer document c.conditions source

def compileNamed (c : Compiler) (configName config templateName template : String) :
    Outcome String := do
  let rendered ← c.compileWith Template.render configName config templateName template
  Outcome.note .debug ("Rendered " ++ Number.showNat rendered.utf8ByteSize ++ " bytes")
  return rendered

/-- The name of a configuration that does not come from a file. -/
def configName : String := "<config>"

/-- The name of a template that does not come from a file. -/
def templateName : String := "<template>"

def compile (c : Compiler) (config template : String) : Outcome String :=
  c.compileNamed configName config templateName template

end Compiler

end SiteConf
