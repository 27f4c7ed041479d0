import SiteConf.Template.Expr
import SiteConf.Template.Lexer

set_option autoImplicit false

/-! # Reading expressions

From weak to strong: `a if c else b`, `or`, `and`, `not`, comparisons and `in`, sums, `~`, products,
negation, and filters and tests, which apply to all that stands before them up to an operator.
Attributes, items and calls belong to the value they stand behind. -/

namespace SiteConf.Template

/-- What a reader returns: what it read, and the lexemes after it. -/
abbrev Parsed (α : Type) := α × List Lexeme

/-- The levels of the operators that work on two values, the weakest first. -/
inductive OpLevel where
  | either
  | both
  | compare
  | sum
  | concat
  | product
  deriving DecidableEq, Repr

/-- An operator of a level, if one stands here: how it joins two expressions, and what follows
it. -/
def operator? : OpLevel → List Lexeme → Option ((Expr → Expr → Expr) × List Lexeme)
  | .either, .word "or" :: ts => some (.either, ts)
  | .both, .word "and" :: ts => some (.both, ts)
  | .compare, .mark .eq :: ts => some (.binary .eq, ts)
  | .compare, .mark .ne :: ts => some (.binary .ne, ts)
  | .compare, .mark .lt :: ts => some (.binary .lt, ts)
  | .compare, .mark .le :: ts => some (.binary .le, ts)
  | .compare, .mark .gt :: ts => some (.binary .gt, ts)
  | .compare, .mark .ge :: ts => some (.binary .ge, ts)
  | .compare, .word "in" :: ts => some (.binary .isIn, ts)
  | .compare, .word "not" :: .word "in" :: ts => some (fun a b => .not (.binary .isIn a b), ts)
  | .sum, .mark .plus :: ts => some (.binary .add, ts)
  | .sum, .mark .minus :: ts => some (.binary .sub, ts)
  | .concat, .mark .tilde :: ts => some (.binary .concat, ts)
  | .product, .mark .star :: ts => some (.binary .mul, ts)
  | .product, .mark .doubleSlash :: ts => some (.binary .floorDiv, ts)
  | .product, .mark .percent :: ts => some (.binary .rem, ts)
  | _, _ => none

def wordConstant? : String → Option Constant
  | "true" | "True" => some (.bool true)
  | "false" | "False" => some (.bool false)
  | "none" | "None" => some .none
  | _ => none

/-- May a test take the expression that starts here as its argument without parentheses? -/
def startsBareArgument : List Lexeme → Bool
  | .word name :: _ => !(["and", "or", "else", "is", "if", "in", "not"].contains name)
  | .str _ :: _ => true
  | .int _ :: _ => true
  | .mark .lbracket :: _ => true
  | .mark .lbrace :: _ => true
  | _ => false

/-- Arguments by place and by name. -/
abbrev Arguments := List Expr × List (String × Expr)

mutual

/-- Reads an expression. Every reader below hands on less `fuel` than it gets. -/
def expression : (fuel : Nat) → List Lexeme → Except Fault (Parsed Expr)
  | 0, _ => .error badSyntax
  | fuel + 1, ts => do
      let (e, ts) ← operand fuel .either ts
      conditions fuel e ts

/-- Reads conditions behind the expression they select. -/
def conditions : (fuel : Nat) → Expr → List Lexeme → Except Fault (Parsed Expr)
  | 0, _, _ => .error badSyntax
  | fuel + 1, e, .word "if" :: ts => do
      let (c, ts) ← operand fuel .either ts
      match ts with
      | .word "else" :: ts =>
          let (other, ts) ← expression fuel ts
          conditions fuel (.cond c e other) ts
      | _ => conditions fuel (.cond c e (.constant .undefined)) ts
  | _ + 1, e, ts => pure (e, ts)

/-- Reads operands of a level and the operators between them. -/
def operand : (fuel : Nat) → OpLevel → List Lexeme → Except Fault (Parsed Expr)
  | 0, _, _ => .error badSyntax
  | fuel + 1, level, ts => do
      let (e, ts) ← tighter fuel level ts
      operators fuel level e ts

/-- Reads the operators of a level behind their left operand. -/
def operators : (fuel : Nat) → OpLevel → Expr → List Lexeme → Except Fault (Parsed Expr)
  | 0, _, _, _ => .error badSyntax
  | fuel + 1, level, left, ts =>
      match operator? level ts with
      | none => pure (left, ts)
      | some (join, ts) => do
          let (right, ts) ← tighter fuel level ts
          operators fuel level (join left right) ts

/-- Reads an operand of a level, in which only tighter operators stand free. -/
def tighter : (fuel : Nat) → OpLevel → List Lexeme → Except Fault (Parsed Expr)
  | 0, _, _ => .error badSyntax
  | fuel + 1, .either, ts => operand fuel .both ts
  | fuel + 1, .both, ts => negation fuel ts
  | fuel + 1, .compare, ts => operand fuel .sum ts
  | fuel + 1, .sum, ts => operand fuel .concat ts
  | fuel + 1, .concat, ts => operand fuel .product ts
  | fuel + 1, .product, ts => do
      let (e, ts) ← signed fuel ts
      suffixes fuel e ts

/-- Reads a comparison behind any number of `not`. -/
def negation : (fuel : Nat) → List Lexeme → Except Fault (Parsed Expr)
  | 0, _ => .error badSyntax
  | fuel + 1, .word "not" :: ts => do
      let (e, ts) ← negation fuel ts
      pure (.not e, ts)
  | fuel + 1, ts => operand fuel .compare ts

/-- Reads a primary expression behind any number of minus signs. -/
def signed : (fuel : Nat) → List Lexeme → Except Fault (Parsed Expr)
  | 0, _ => .error badSyntax
  | fuel + 1, .mark .minus :: ts => do
      let (e, ts) ← signed fuel ts
      pure (.neg e, ts)
  | fuel + 1, ts => do
      let (e, ts) ← primary fuel ts
      accesses fuel e ts

/-- Reads a variable, a constant, or something in brackets. -/
def primary : (fuel : Nat) → List Lexeme → Except Fault (Parsed Expr)
  | 0, _ => .error badSyntax
  | _ + 1, .word name :: ts =>
      match wordConstant? name with
      | some c => pure (.constant c, ts)
      | none => pure (.var name, ts)
  | _ + 1, .str s :: ts => pure (.constant (.str s), ts)
  | _ + 1, .int n :: ts => pure (.constant (.int n), ts)
  | _ + 1, .mark .lparen :: .mark .rparen :: ts => pure (.list [], ts)
  | fuel + 1, .mark .lparen :: ts => do
      let (e, ts) ← expression fuel ts
      match ts with
      | .mark .rparen :: ts => pure (e, ts)
      | .mark .comma :: ts =>
          let (es, ts) ← listItems fuel .rparen ts
          pure (.list (e :: es), ts)
      | _ => .error badSyntax
  | fuel + 1, .mark .lbracket :: ts => do
      let (es, ts) ← listItems fuel .rbracket ts
      pure (.list es, ts)
  | fuel + 1, .mark .lbrace :: ts => do
      let (ps, ts) ← dictItems fuel ts
      pure (.dict ps, ts)
  | _ + 1, _ => .error badSyntax

/-- Reads the rest of a list, up to the bracket that closes it. -/
def listItems : (fuel : Nat) → (closing : Mark) → List Lexeme →
    Except Fault (Parsed (List Expr))
  | 0, _, _ => .error badSyntax
  | fuel + 1, closing, ts =>
      if ts.head? = some (.mark closing) then pure ([], ts.drop 1)
      else do
        let (e, ts) ← expression fuel ts
        match ts with
        | .mark .comma :: ts =>
            let (es, ts) ← listItems fuel closing ts
            pure (e :: es, ts)
        | .mark m :: ts => if m = closing then pure ([e], ts) else .error badSyntax
        | _ => .error badSyntax

/-- Reads the rest of a dictionary, up to its closing brace. -/
def dictItems : (fuel : Nat) → List Lexeme → Except Fault (Parsed (List (Expr × Expr)))
  | 0, _ => .error badSyntax
  | _ + 1, .mark .rbrace :: ts => pure ([], ts)
  | fuel + 1, ts => do
      let (k, ts) ← expression fuel ts
      match ts with
      | .mark .colon :: ts =>
          let (v, ts) ← expression fuel ts
          match ts with
          | .mark .comma :: ts =>
              let (ps, ts) ← dictItems fuel ts
              pure ((k, v) :: ps, ts)
          | .mark .rbrace :: ts => pure ([(k, v)], ts)
          | _ => .error badSyntax
      | _ => .error badSyntax

/-- Reads attributes, items and calls behind a value. -/
def accesses : (fuel : Nat) → Expr → List Lexeme → Except Fault (Parsed Expr)
  | 0, _, _ => .error badSyntax
  | fuel + 1, e, .mark .dot :: .word name :: ts => accesses fuel (.attr e name) ts
  | fuel + 1, e, .mark .dot :: .int n :: ts =>
      accesses fuel (.item e (.constant (.int n))) ts
  | _ + 1, _, .mark .dot :: _ => .error badSyntax
  | fuel + 1, e, .mark .lbracket :: ts => do
      let (index, ts) ← expression fuel ts
      match ts with
      | .mark .rbracket :: ts => accesses fuel (.item e index) ts
      | _ => .error badSyntax
  | fuel + 1, e, .mark .lparen :: ts => do
      let ((args, named), ts) ← arguments fuel ts
      accesses fuel (.call e args named) ts
  | _ + 1, e, ts => pure (e, ts)

/-- Reads arguments after their parenthesis; those by name come last. -/
def arguments : (fuel : Nat) → List Lexeme → Except Fault (Parsed Arguments)
  | 0, _ => .error badSyntax
  | _ + 1, .mark .rparen :: ts => pure (([], []), ts)
  | fuel + 1, .word name :: .mark .assign :: ts => do
      let (e, ts) ← expression fuel ts
      let ((args, named), ts) ← moreArguments fuel ts
      if args.isEmpty then pure (([], (name, e) :: named), ts) else .error badSyntax
  | fuel + 1, ts => do
      let (e, ts) ← expression fuel ts
      let ((args, named), ts) ← moreArguments fuel ts
      pure ((e :: args, named), ts)

/-- Reads a comma and more arguments, or the closing parenthesis. -/
def moreArguments : (fuel : Nat) → List Lexeme → Except Fault (Parsed Arguments)
  | 0, _ => .error badSyntax
  | _ + 1, .mark .rparen :: ts => pure (([], []), ts)
  | fuel + 1, .mark .comma :: ts => arguments fuel ts
  | _ + 1, _ => .error badSyntax

/-- Reads filters and tests behind an expression. -/
def suffixes : (fuel : Nat) → Expr → List Lexeme → Except Fault (Parsed Expr)
  | 0, _, _ => .error badSyntax
  | fuel + 1, e, .mark .pipe :: .word name :: ts => do
      let ((args, named), ts) ← optionalArguments fuel ts
      suffixes fuel (.filter e name args named) ts
  | _ + 1, _, .mark .pipe :: _ => .error badSyntax
  | fuel + 1, e, .word "is" :: .word "not" :: .word name :: ts => do
      let ((args, named), ts) ← testArguments fuel ts
      suffixes fuel (.not (.test e name args named)) ts
  | fuel + 1, e, .word "is" :: .word name :: ts => do
      let ((args, named), ts) ← testArguments fuel ts
      suffixes fuel (.test e name args named) ts
  | _ + 1, _, .word "is" :: _ => .error badSyntax
  | _ + 1, e, ts => pure (e, ts)

/-- Reads arguments in parentheses, if there are any. -/
def optionalArguments : (fuel : Nat) → List Lexeme → Except Fault (Parsed Arguments)
  | 0, _ => .error badSyntax
  | fuel + 1, .mark .lparen :: ts => arguments fuel ts
  | _ + 1, ts => pure (([], []), ts)

/-- Reads the arguments of a test: in parentheses, or a single one without. -/
def testArguments : (fuel : Nat) → List Lexeme → Except Fault (Parsed Arguments)
  | 0, _ => .error badSyntax
  | fuel + 1, ts =>
      if startsBareArgument ts then do
        let (e, ts) ← signed fuel ts
        pure (([e], []), ts)
      else optionalArguments fuel ts

end

/-- The fuel for reading lexemes: more than the readers that can be entered for each. -/
def readFuel (ts : List Lexeme) : Nat :=
  24 * (ts.length + 2)

/-- Reads an expression that ends where the lexemes end. -/
def wholeExpression (ts : List Lexeme) : Except Fault Expr := do
  let (e, rest) ← expression (readFuel ts) ts
  if rest.isEmpty then pure e else .error badSyntax

end SiteConf.Template
