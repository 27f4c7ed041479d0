import SiteConf.Template.Call
import SiteConf.Template.Engine
import SiteConf.Template.Program

set_option autoImplicit false

/-! # The engine of the templates

The machine runs the programs that templates are read as. -/

namespace SiteConf.Template

def runProgram (program : List Stmt) (call : Caller) : Run String := do
  let (text, _) ← execBody call program
  return text

/-- The machine as an engine. Since every call of a macro adds to the depth of the machine,
`recursionLimit` calls inside each other are more than the depth allows. -/
def engine : Engine Value Machine where
  toHost := host
  callValue := callValue
  read template := (Template.parse template).map runProgram
  start := Machine.start
  limit := recursionLimit

/-- Renders a template with a configuration and the active conditions. -/
def render (document : Document) (conditions : Conditions) (template : String) :
    Outcome String :=
  engine.render document conditions template

end SiteConf.Template
