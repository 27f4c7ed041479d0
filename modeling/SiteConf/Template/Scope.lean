import SiteConf.Template.Expr

set_option autoImplicit false

/-! # The names a macro needs

A macro keeps the variables of the place where it is defined that its parameters, defaults and
body use before they assign them. -/

namespace SiteConf.Template

mutual

def Expr.names : Expr → List String
  | .var name => [name]
  | .constant _ => []
  | .list items => namesOfItems items
  | .dict pairs => namesOfPairs pairs
  | .attr base _ => base.names
  | .item base index => base.names ++ index.names
  | .call callee args named => callee.names ++ namesOfItems args ++ namesOfNamed named
  | .filter base _ args named => base.names ++ namesOfItems args ++ namesOfNamed named
  | .test base _ args named => base.names ++ namesOfItems args ++ namesOfNamed named
  | .binary _ left right => left.names ++ right.names
  | .both left right => left.names ++ right.names
  | .either left right => left.names ++ right.names
  | .not operand => operand.names
  | .neg operand => operand.names
  | .cond test yes no => test.names ++ yes.names ++ no.names

def namesOfItems : List Expr → List String
  | [] => []
  | e :: es => e.names ++ namesOfItems es

def namesOfPairs : List (Expr × Expr) → List String
  | [] => []
  | (k, v) :: rest => k.names ++ v.names ++ namesOfPairs rest

def namesOfNamed : List (String × Expr) → List String
  | [] => []
  | (_, e) :: rest => e.names ++ namesOfNamed rest

end

/-- The free names found so far, and the names that have been assigned. -/
structure Scan where
  free : List String
  bound : List String
  deriving Repr, Inhabited

def Scan.use (names : List String) (s : Scan) : Scan :=
  { s with free := s.free ++ names.filter fun n => !s.bound.contains n }

def Scan.bind (name : String) (s : Scan) : Scan :=
  { s with bound := name :: s.bound }

/-- Forgets the names that were assigned since `outer`. -/
def Scan.leave (s outer : Scan) : Scan :=
  { s with bound := outer.bound }

mutual

/-- Takes a target in: its names are assigned, the values whose attributes it sets are used. -/
def Target.scan : Target → Scan → Scan
  | .name n, s => s.bind n
  | .attr base _, s => s.use base.names
  | .several ts, s => scanTargets ts s

def scanTargets : List Target → Scan → Scan
  | [], s => s
  | t :: ts, s => scanTargets ts (t.scan s)

end

mutual

/-- Takes a statement in. Loops and branches have scopes of their own; the target of an assignment
counts as assigned in its own value. -/
def Stmt.scan : Stmt → Scan → Scan
  | .text _, s => s
  | .output e, s => s.use e.names
  | .branch test yes no, s =>
      let s := s.use test.names
      let s := (scanBody yes s).leave s
      (scanBody no s).leave s
  | .each t items only body otherwise, s =>
      let inner := t.scan ((s.bind "loop").use items.names)
      let inner := match only with
        | some e => inner.use e.names
        | none => inner
      let s := (scanBody body inner).leave s
      (scanBody otherwise s).leave s
  | .assign t e, s => (t.scan s).use e.names
  | .capture t body, s =>
      let s := t.scan s
      (scanBody body s).leave s
  | .macroDef name params defaults body, s =>
      let s := params.foldl (fun s p => s.bind p) (s.bind name)
      scanBody body (s.use (namesOfItems defaults))
  | .leave, s => s
  | .skip, s => s

def scanBody : List Stmt → Scan → Scan
  | [], s => s
  | x :: xs, s => scanBody xs (x.scan s)

end

/-- The names that a macro uses without assigning them first. -/
def freeNames (params : List String) (defaults : List Expr) (body : List Stmt) : List String :=
  (scanBody body (Scan.use (namesOfItems defaults) ⟨[], params⟩)).free.eraseDups

end SiteConf.Template
