import SiteConf.Number.Decimal

set_option autoImplicit false

/-! # Line numbers

Lines are counted from 1. A message about a node whose line is not recorded says so. -/

namespace SiteConf

/-- A line number, or none where the line is not known. -/
abbrev LineRef := Option Nat

def LineRef.text : LineRef → String
  | some n => Number.showNat n
  | none => "unknown"

end SiteConf
