import SiteConf.Compiler
import SiteConf.Placeholder.Table

set_option autoImplicit false

/-! # Compiling files

The configuration and the template are read from files. Both have to exist before either is
read. -/

namespace SiteConf.Compiler

open SiteConf.Placeholder

/-- Does a path lead to anything? -/
def isThere (read : FileReader) (path : Path) : Bool :=
  match read path with
  | .error .notFound => false
  | .error .notADirectory => false
  | _ => true

/-- Compiles a configuration file with a template file. -/
def compileFiles (c : Compiler) (read : FileReader) (config template : Path) :
    Outcome String := do
  if !isThere read config then
    Outcome.fail (.sourceMissing config.display)
  else if !isThere read template then
    Outcome.fail (.templateMissing template.display)
  else
    let configText ← Outcome.ofResult (readText read config)
    let templateText ← Outcome.ofResult (readText read template)
    Outcome.note .info ("Compiling " ++ config.display ++ " with " ++ template.display)
    c.compileNamed config.display configText template.display templateText

end SiteConf.Compiler
