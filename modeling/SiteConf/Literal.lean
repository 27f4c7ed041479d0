import SiteConf.Tree

set_option autoImplicit false

/-! # Configuration literals

What the grammar reads, before references are looked up and negations carried out. Every part
remembers the line of its first token. -/

namespace SiteConf

/-- A key of a mapping and the line it stands on. -/
structure Key where
  name : String
  line : Nat
  deriving DecidableEq, Repr, Inhabited

inductive Literal where
  | mapping (line : Nat) (entries : List (Key × Literal))
  | sequence (line : Nat) (items : List Literal)
  | constant (line : Nat) (value : Scalar)
  | negate (line : Nat) (operand : Literal)
  | reference (line : Nat) (segments : List String)
  deriving Repr, Inhabited

/-- The line of the literal's first token. -/
def Literal.line : Literal → Nat
  | .mapping line _ => line
  | .sequence line _ => line
  | .constant line _ => line
  | .negate line _ => line
  | .reference line _ => line

end SiteConf
