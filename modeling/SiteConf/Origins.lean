import SiteConf.KeyPath
import SiteConf.Line
import SiteConf.Ordered
import SiteConf.Text.Lines

set_option autoImplicit false

/-! # Where nodes come from

The origin table gives the source line of every node under its key path. It is keyed by the text
of the path; `under?` tells the paths below a node from those that only share their first
characters with it. -/

namespace SiteConf

/-- Source lines by key path, in insertion order. -/
structure Origins where
  entries : Ordered Nat := []
  deriving DecidableEq, Repr, Inhabited

namespace Origins

/-- The rest of `path` after `base`, when `path` is `base` or a path below it. -/
def under? (base path : String) : Option String :=
  match Text.dropHead? base.toList path.toList with
  | some [] => some ""
  | some ('.' :: rest) => some (String.ofList ('.' :: rest))
  | _ => none

def record (path : String) (line : Nat) (table : Origins) : Origins :=
  ⟨Ordered.insert path line table.entries⟩

def contains (path : String) (table : Origins) : Bool :=
  Ordered.contains path table.entries

def lineOf (path : String) (table : Origins) : LineRef :=
  Ordered.get? path table.entries

def size (table : Origins) : Nat :=
  table.entries.length

/-- The entries of a node and all nodes below it, each under the rest of its path. -/
def subtree (base : String) (table : Origins) : List (String × Nat) :=
  table.entries.filterMap fun e => (under? base e.1).map fun rest => (rest, e.2)

/-- Forgets a node and all nodes below it. -/
def removeSubtree (base : String) (table : Origins) : Origins :=
  ⟨table.entries.filter fun e => (under? base e.1).isNone⟩

/-- Records entries below a node. -/
def graft (base : String) (parts : List (String × Nat)) (table : Origins) : Origins :=
  parts.foldl (fun t e => t.record (base ++ e.1) e.2) table

/-- Records for `target` and below what is recorded for `source` and below. -/
def copySubtree (source target : String) (table : Origins) : Origins :=
  table.graft target (table.subtree source)

end Origins

end SiteConf
