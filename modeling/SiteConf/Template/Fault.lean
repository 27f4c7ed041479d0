set_option autoImplicit false

/-! # What goes wrong in a template

A template that cannot be read or rendered fails with a fault: its kind, and for a few kinds a
detail that says more. -/

namespace SiteConf.Template

inductive FaultKind where
  | badSyntax
  | badEscape
  | invalidOperation
  | undefinedValue
  | unknownFilter
  | unknownTest
  | unknownFunction
  | unknownMethod
  | tooManyArguments
  | missingArgument
  | cannotUnpack
  deriving DecidableEq, Repr, Inhabited

def FaultKind.text : FaultKind → String
  | .badSyntax => "syntax error"
  | .badEscape => "bad string escape"
  | .invalidOperation => "invalid operation"
  | .undefinedValue => "undefined value"
  | .unknownFilter => "unknown filter"
  | .unknownTest => "unknown test"
  | .unknownFunction => "unknown function"
  | .unknownMethod => "unknown method"
  | .tooManyArguments => "too many arguments"
  | .missingArgument => "missing argument"
  | .cannotUnpack => "cannot unpack"

structure Fault where
  kind : FaultKind
  detail : Option String := none
  deriving DecidableEq, Repr, Inhabited

def Fault.text (f : Fault) : String :=
  match f.detail with
  | some d => f.kind.text ++ ": " ++ d
  | none => f.kind.text

/-- The fault of an operation that its operands do not allow. -/
def invalidOperation : Fault := ⟨.invalidOperation, none⟩

def tooManyArguments : Fault := ⟨.tooManyArguments, none⟩

def noMore {α : Type} : List α → Except Fault Unit
  | [] => .ok ()
  | _ :: _ => .error tooManyArguments

end SiteConf.Template
