import SiteConf.Origins
import SiteConf.Tree

set_option autoImplicit false

/-! # Documents

A configuration that has been read: its tree, and the lines its nodes come from. -/

namespace SiteConf

/-- A configuration tree with its origin table. -/
structure Document where
  tree : Tree
  origins : Origins
  deriving Repr, Inhabited

end SiteConf
