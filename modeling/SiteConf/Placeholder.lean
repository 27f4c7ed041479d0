import SiteConf.Number.Binary64
import SiteConf.Ordered

set_option autoImplicit false

/-! # Placeholder values

A placeholder stands for an integer, a floating-point number or a text; what is substituted is
the value as plain text. -/

namespace SiteConf

namespace Placeholder

inductive Value where
  | int (value : Int)
  | float (value : Number.Binary64)
  | str (text : String)
  deriving DecidableEq, Repr, Inhabited

def Value.text : Value → String
  | .int n => Number.showInt n
  | .float x => x.text
  | .str s => s

/-- A value given on the command line: an integer if the text is one, else the text. -/
def Value.ofArgument (raw : String) : Value :=
  match Number.readInt? raw.toList with
  | some n => .int n
  | none => .str raw

end Placeholder

/-- The values of the placeholders by name, in the order they were defined. -/
abbrev Placeholders := Ordered Placeholder.Value

end SiteConf
