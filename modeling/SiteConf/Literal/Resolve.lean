import SiteConf.Document
import SiteConf.Error
import SiteConf.Literal
import SiteConf.Log
import SiteConf.Step

set_option autoImplicit false

/-! # The meaning of a literal

A literal denotes a tree. Its nodes are visited depth first and from left to right; a reference
stands for the scalar at the path it names, which has to have been visited before. A mapping
may not define a key twice, and only integers can be negated. -/

namespace SiteConf.Literal

/-- What has been visited: the scalars under their paths, the lines of all nodes, and the log. -/
structure Scope where
  constants : Ordered Scalar := []
  origins : Origins := {}
  log : Log := []
  deriving Repr, Inhabited

abbrev Resolve (α : Type) := Step Scope Error α

/-- The scalar that a constant or a negation denotes. -/
def evaluate : Literal → Except Error Scalar
  | .constant _ v => .ok v
  | .negate line operand =>
      match evaluate operand with
      | .ok (.int n) =>
          if Number.fits (-n) then .ok (.int (-n))
          else .error (.badSyntax (some line) (.cannotNegate n))
      | .ok other => .error (.badSyntax (some line) (.negatedScalar other))
      | .error e => .error e
  | other => .error (.badSyntax (some other.line) .negatedOther)

def recordLine (path : String) (line : Nat) : Resolve Unit :=
  Step.of fun s => (.ok (), { s with origins := s.origins.record path line })

/-- Gives a path the scalar it stands for. -/
def define (path : String) (line : Nat) (value : Scalar) : Resolve Tree :=
  Step.of fun s =>
    if Ordered.contains path s.constants then
      (.error (.duplicate path (some line) (s.origins.lineOf path)), s)
    else
      (.ok (.scalar value),
        { s with
          origins := s.origins.record path line
          constants := Ordered.insert path value s.constants })

/-- The scalar that a reference at `path` stands for. -/
def lookup (path : String) (line : Nat) (segments : List String) : Resolve Scalar :=
  Step.of fun s =>
    let target := KeyPath.ofSegments segments
    match Ordered.get? target s.constants with
    | some value =>
        let message := "resolved " ++ target ++ " -> " ++ value.text ++ " for " ++ path
        (.ok value, { s with log := s.log ++ [⟨.trace, message⟩] })
    | none => (.error (.unresolved (String.intercalate "." segments) (some line)), s)

/-- Fails when a mapping at `path` already has the key. -/
def refuseDuplicate (path : String) (seen : List String) (k : Key) : Resolve Unit :=
  Step.of fun s =>
    if seen.contains k.name then
      let here := KeyPath.child path k.name
      (.error (.duplicate here (some k.line) (s.origins.lineOf here)), s)
    else (.ok (), s)

mutual

/-- The tree of the literal at `path`; `line` is the line that introduces it. -/
def visit (path : String) (line : Nat) : Literal → Resolve Tree
  | .mapping _ entries => do
      recordLine path line
      return .mapping (← visitEntries path [] entries)
  | .sequence _ items => do
      recordLine path line
      return .sequence (← visitItems path 0 items)
  | .constant l v => do
      define path line (← Step.lift (evaluate (.constant l v)))
  | .negate l operand => do
      define path line (← Step.lift (evaluate (.negate l operand)))
  | .reference l segments => do
      define path line (← lookup path l segments)

/-- The entries of the mapping at `path`, after those with the keys `seen`. -/
def visitEntries (path : String) (seen : List String) :
    List (Key × Literal) → Resolve (List (String × Tree))
  | [] => pure []
  | (k, v) :: rest => do
      refuseDuplicate path seen k
      let t ← visit (KeyPath.child path k.name) k.line v
      return (k.name, t) :: (← visitEntries path (k.name :: seen) rest)

/-- The items of the sequence at `path` from `index` on. -/
def visitItems (path : String) (index : Nat) : List Literal → Resolve (List Tree)
  | [] => pure []
  | v :: rest => do
      let t ← visit (KeyPath.item path index) v.line v
      return t :: (← visitItems path (index + 1) rest)

end

/-- The result of resolving a literal, and the scope it leaves. -/
def resolveIn (l : Literal) : Except Error Document × Scope :=
  match Step.run (visit KeyPath.root l.line l) {} with
  | (.ok tree, scope) => (.ok ⟨tree, scope.origins⟩, scope)
  | (.error e, scope) => (.error e, scope)

def resolve (l : Literal) : Except Error Document :=
  (resolveIn l).1

end SiteConf.Literal
