import SiteConf.Number.Decimal

set_option autoImplicit false

/-! # Key paths

The address of a node in the configuration: a dot and a mapping key or an index in a sequence
for every step down from the root, whose path is empty. Since keys hold no dot, the text of a
path determines its steps. -/

namespace SiteConf.KeyPath

def root : String := ""

/-- The path of the entry `key` of the mapping at `parent`. -/
def child (parent key : String) : String :=
  parent ++ "." ++ key

/-- The path of item `index` of the sequence at `parent`. -/
def item (parent : String) (index : Nat) : String :=
  parent ++ "." ++ Number.showNat index

def ofSegments (segments : List String) : String :=
  segments.foldl child root

end SiteConf.KeyPath
