set_option autoImplicit false

/-! # Expressions and statements of templates -/

namespace SiteConf.Template

/-! ## Expressions -/

/-- A value that is written out. -/
inductive Constant where
  | undefined
  | none
  | bool (value : Bool)
  | int (value : Nat)
  | str (text : String)
  deriving DecidableEq, Repr, Inhabited

/-- An operator that works on two values. -/
inductive BinaryOp where
  | add
  | sub
  | mul
  | floorDiv
  | rem
  | concat
  | eq
  | ne
  | lt
  | le
  | gt
  | ge
  | isIn
  deriving DecidableEq, Repr, Inhabited

/-- An expression. Calls, filters and tests take arguments by place and by name. -/
inductive Expr where
  | var (name : String)
  | constant (value : Constant)
  | list (items : List Expr)
  | dict (pairs : List (Expr × Expr))
  | attr (base : Expr) (name : String)
  | item (base index : Expr)
  | call (callee : Expr) (args : List Expr) (named : List (String × Expr))
  | filter (base : Expr) (name : String) (args : List Expr) (named : List (String × Expr))
  | test (base : Expr) (name : String) (args : List Expr) (named : List (String × Expr))
  | binary (op : BinaryOp) (left right : Expr)
  | both (left right : Expr)
  | either (left right : Expr)
  | not (operand : Expr)
  | neg (operand : Expr)
  | cond (test yes no : Expr)
  deriving Repr, Inhabited

/-! ## Statements -/

/-- What is assigned to: a name, an attribute of a value, or several targets at once. -/
inductive Target where
  | name (name : String)
  | attr (base : Expr) (name : String)
  | several (targets : List Target)
  deriving Repr, Inhabited

inductive Stmt where
  | text (content : String)
  | output (value : Expr)
  | branch (test : Expr) (yes no : List Stmt)
  | each (target : Target) (items : Expr) (only : Option Expr) (body otherwise : List Stmt)
  | assign (target : Target) (value : Expr)
  | capture (target : Target) (body : List Stmt)
  | macroDef (name : String) (params : List String) (defaults : List Expr) (body : List Stmt)
  | leave
  | skip
  deriving Repr, Inhabited

end SiteConf.Template
