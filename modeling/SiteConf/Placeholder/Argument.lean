import SiteConf.Error
import SiteConf.Placeholder
import SiteConf.Text.Blank

set_option autoImplicit false

/-! # Placeholders on the command line

An argument `KEY=VALUE` gives a placeholder its value. Later arguments win, also over a file. -/

namespace SiteConf.Placeholder

/-- Reads one argument: the key is what stands before the first `=`, without white space around it,
and must not be empty. -/
def parseArgument (raw : String) : Except Error (String × Value) :=
  let key := raw.toList.takeWhile (· ≠ '=')
  match raw.toList.drop key.length with
  | _ :: value =>
      if (Text.trim key).isEmpty then .error (.placeholderForm raw)
      else .ok (String.ofList (Text.trim key), .ofArgument (String.ofList value))
  | [] => .error (.placeholderForm raw)

def addArguments : Placeholders → List String → Except Error Placeholders
  | table, [] => .ok table
  | table, raw :: rest =>
      match parseArgument raw with
      | .ok (key, value) => addArguments (Ordered.insert key value table) rest
      | .error e => .error e

end SiteConf.Placeholder
