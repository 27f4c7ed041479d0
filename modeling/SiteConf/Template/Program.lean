import SiteConf.Template.Grammar

set_option autoImplicit false

/-! # Reading templates

The segments of a template are put together to statements in one pass: an opening tag starts a
level on a stack, and its closing tag turns the level into a statement of the level below. -/

namespace SiteConf.Template

/-! ## Targets of assignments -/

/-- Words that cannot be assigned to. -/
def reserved : List String :=
  ["true", "True", "false", "False", "none", "None", "loop", "self"]

def endsTargets : List Lexeme → Bool
  | [] => true
  | .mark .rparen :: _ => true
  | .word "in" :: _ => true
  | _ => false

def targetAttributes : (fuel : Nat) → (base : Expr) → Target → List Lexeme → Parsed Target
  | fuel + 1, base, _, .mark .dot :: .word name :: ts =>
      targetAttributes fuel (.attr base name) (.attr base name) ts
  | _, _, target, ts => (target, ts)

/-- Several targets, or the one that is there. -/
def joinTargets (comma : Bool) : List Target → Target
  | [t] => if comma then .several [t] else t
  | ts => .several ts

mutual

/-- Reads a target: one name, or several with commas between them. `dotted` allows attributes. -/
def target : (fuel : Nat) → (dotted : Bool) → List Lexeme → Except Fault (Parsed Target)
  | 0, _, _ => .error badSyntax
  | fuel + 1, dotted, ts => do
      let ((items, comma), ts) ← targetItems fuel dotted ts
      pure (joinTargets comma items, ts)

/-- Reads targets, and notes whether there was a comma. -/
def targetItems : (fuel : Nat) → (dotted : Bool) → List Lexeme →
    Except Fault (Parsed (List Target × Bool))
  | 0, _, _ => .error badSyntax
  | fuel + 1, dotted, ts =>
      if endsTargets ts then pure (([], false), ts)
      else do
        let (t, ts) ← targetItem fuel dotted ts
        match ts with
        | .mark .comma :: ts =>
            let ((rest, _), ts) ← targetItems fuel dotted ts
            pure ((t :: rest, true), ts)
        | _ => pure (([t], false), ts)

def targetItem : (fuel : Nat) → (dotted : Bool) → List Lexeme → Except Fault (Parsed Target)
  | 0, _, _ => .error badSyntax
  | fuel + 1, _, .mark .lparen :: ts => do
      let (t, ts) ← target fuel false ts
      match ts with
      | .mark .rparen :: ts => pure (t, ts)
      | _ => .error badSyntax
  | fuel + 1, dotted, .word name :: ts =>
      if reserved.contains name then .error badSyntax
      else if dotted then pure (targetAttributes fuel (.var name) (.name name) ts)
      else pure (.name name, ts)
  | _ + 1, _, _ => .error badSyntax

end

/-! ## Statement tags -/

/-- What a statement tag says. -/
inductive Tag where
  | branch (test : Expr)
  | orBranch (test : Expr)
  | otherwise
  | endBranch
  | each (target : Target) (items : Expr) (only : Option Expr)
  | endEach
  | assign (target : Target) (value : Expr)
  | capture (target : Target)
  | endCapture
  | macroDef (name : String) (params : List String) (defaults : List Expr)
  | endMacro
  | leave
  | skip
  deriving Repr, Inhabited

def eachTag (ts : List Lexeme) : Except Fault Tag := do
  let (t, ts) ← target (readFuel ts) false ts
  match ts with
  | .word "in" :: ts =>
      let (items, ts) ← operand (readFuel ts) .either ts
      match ts with
      | [] => pure (.each t items none)
      | .word "if" :: ts => do
          let only ← wholeExpression ts
          pure (.each t items (some only))
      | _ => .error badSyntax
  | _ => .error badSyntax

/-- Reads the rest of an assignment's tag; without a value, the text up to the end tag is
assigned. -/
def assignTag (ts : List Lexeme) : Except Fault Tag := do
  let (t, rest) ← target (readFuel ts) true ts
  match rest with
  | [] =>
      match ts with
      | .mark .lparen :: _ => .error badSyntax
      | _ => pure (.capture t)
  | .mark .assign :: rest => do
      let e ← wholeExpression rest
      pure (.assign t e)
  | _ => .error badSyntax

/-- Reads the parameters of a macro and the defaults of the last ones. -/
def parameters : (fuel : Nat) → (defaulted : Bool) → List Lexeme →
    Except Fault (Parsed (List String × List Expr))
  | 0, _, _ => .error badSyntax
  | _ + 1, _, .mark .rparen :: ts => pure (([], []), ts)
  | fuel + 1, defaulted, .word name :: ts => do
      if reserved.contains name then
        .error badSyntax
      else
        let (default, ts) ←
          match ts with
          | .mark .assign :: ts => do
              let (e, ts) ← expression (readFuel ts) ts
              pure ([e], ts)
          | _ => if defaulted then .error badSyntax else pure ([], ts)
        let ((names, defaults), ts) ←
          match ts with
          | .mark .comma :: ts => parameters fuel (!default.isEmpty) ts
          | .mark .rparen :: ts => pure (([], []), ts)
          | _ => .error badSyntax
        pure ((name :: names, default ++ defaults), ts)
  | _ + 1, _, _ => .error badSyntax

def macroTag (ts : List Lexeme) : Except Fault Tag := do
  match ts with
  | .word name :: .mark .lparen :: ts =>
      let ((params, defaults), rest) ← parameters (ts.length + 1) false ts
      if rest.isEmpty then pure (.macroDef name params defaults) else .error badSyntax
  | _ => .error badSyntax

def tagOf : List Lexeme → Except Fault Tag
  | .word "if" :: ts => (wholeExpression ts).map .branch
  | .word "elif" :: ts => (wholeExpression ts).map .orBranch
  | [.word "else"] => pure .otherwise
  | [.word "endif"] => pure .endBranch
  | .word "for" :: ts => eachTag ts
  | [.word "endfor"] => pure .endEach
  | .word "set" :: ts => assignTag ts
  | [.word "endset"] => pure .endCapture
  | .word "macro" :: ts => macroTag ts
  | [.word "endmacro"] => pure .endMacro
  | [.word "break"] => pure .leave
  | [.word "continue"] => pure .skip
  | _ => .error badSyntax

/-! ## Levels -/

/-- What a level of the template will become. `done` holds the branches before the current one,
the last first. -/
inductive LevelKind where
  | root
  | branch (done : List (Expr × List Stmt)) (test : Expr)
  | otherwise (done : List (Expr × List Stmt))
  | each (target : Target) (items : Expr) (only : Option Expr)
  | eachElse (target : Target) (items : Expr) (only : Option Expr) (body : List Stmt)
  | capture (target : Target)
  | macroDef (name : String) (params : List String) (defaults : List Expr)
  deriving Repr, Inhabited

/-- An open level: what it will become, and its statements so far, the last first. -/
structure OpenLevel where
  kind : LevelKind
  body : List Stmt
  deriving Repr, Inhabited

def OpenLevel.stmts (l : OpenLevel) : List Stmt :=
  l.body.reverse

def OpenLevel.push (s : Stmt) (l : OpenLevel) : OpenLevel :=
  { l with body := s :: l.body }

/-- The levels that are open, the innermost first. -/
structure Levels where
  top : OpenLevel
  below : List OpenLevel
  deriving Repr, Inhabited

def Levels.push (s : Stmt) (ls : Levels) : Levels :=
  { ls with top := ls.top.push s }

def Levels.enter (k : LevelKind) (ls : Levels) : Levels :=
  ⟨⟨k, []⟩, ls.top :: ls.below⟩

/-- Turns the innermost level into another one that starts empty. -/
def Levels.turn (k : LevelKind) (ls : Levels) : Levels :=
  { ls with top := ⟨k, []⟩ }

def Levels.close (s : Stmt) (ls : Levels) : Except Fault Levels :=
  match ls.below with
  | [] => .error badSyntax
  | l :: below => .ok ⟨l.push s, below⟩

/-- Branches, the last first, as one statement. -/
def branches (done : List (Expr × List Stmt)) (otherwise : List Stmt) : List Stmt :=
  done.foldl (fun no b => [.branch b.1 b.2 no]) otherwise

/-- The branch statement of a level with its earlier branches. -/
def closeBranches (done : List (Expr × List Stmt)) (otherwise : List Stmt) (ls : Levels) :
    Except Fault Levels :=
  match branches done otherwise with
  | s :: _ => ls.close s
  | [] => .error badSyntax

/-- Is a loop open that a statement could leave? A macro hides the loops around it. -/
def insideLoop : List OpenLevel → Bool
  | [] => false
  | l :: ls =>
      match l.kind with
      | .each _ _ _ => true
      | .macroDef _ _ _ => false
      | _ => insideLoop ls

def Levels.apply (tag : Tag) (ls : Levels) : Except Fault Levels :=
  match tag, ls.top.kind with
  | .branch test, _ => .ok (ls.enter (.branch [] test))
  | .orBranch test, .branch done first =>
      .ok (ls.turn (.branch ((first, ls.top.stmts) :: done) test))
  | .otherwise, .branch done test => .ok (ls.turn (.otherwise ((test, ls.top.stmts) :: done)))
  | .otherwise, .each t items only => .ok (ls.turn (.eachElse t items only ls.top.stmts))
  | .endBranch, .branch done test => closeBranches ((test, ls.top.stmts) :: done) [] ls
  | .endBranch, .otherwise done => closeBranches done ls.top.stmts ls
  | .each t items only, _ => .ok (ls.enter (.each t items only))
  | .endEach, .each t items only => ls.close (.each t items only ls.top.stmts [])
  | .endEach, .eachElse t items only body => ls.close (.each t items only body ls.top.stmts)
  | .assign t e, _ => .ok (ls.push (.assign t e))
  | .capture t, _ => .ok (ls.enter (.capture t))
  | .endCapture, .capture t => ls.close (.capture t ls.top.stmts)
  | .macroDef name params defaults, _ => .ok (ls.enter (.macroDef name params defaults))
  | .endMacro, .macroDef name params defaults =>
      ls.close (.macroDef name params defaults ls.top.stmts)
  | .leave, _ => if insideLoop (ls.top :: ls.below) then .ok (ls.push .leave) else .error badSyntax
  | .skip, _ => if insideLoop (ls.top :: ls.below) then .ok (ls.push .skip) else .error badSyntax
  | _, _ => .error badSyntax

def Levels.feed (segment : Segment) (ls : Levels) : Except Fault Levels :=
  match segment with
  | .text s => .ok (ls.push (.text s))
  | .output ts => (wholeExpression ts).map fun e => ls.push (.output e)
  | .statement ts => (tagOf ts).bind fun tag => ls.apply tag

/-- The statements of a list of segments; all levels have to be closed. -/
def build (ls : Levels) : List Segment → Except Fault (List Stmt)
  | [] => if ls.below.isEmpty then .ok ls.top.stmts else .error badSyntax
  | s :: rest => (ls.feed s).bind fun ls => build ls rest

def parse (source : String) : Except Fault (List Stmt) :=
  (segments source).bind (build ⟨⟨.root, []⟩, []⟩)

end SiteConf.Template
