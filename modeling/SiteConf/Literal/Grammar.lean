import SiteConf.Error
import SiteConf.Literal
import SiteConf.Step

set_option autoImplicit false

/-! # The grammar of configuration literals

    document  = value eof
    value     = mapping | sequence | constant | '-' value | reference
    mapping   = '{' [ entry { ',' entry } [ ',' ] ] '}'
    entry     = key ':' value
    key       = identifier | text            (not empty, without '.')
    sequence  = '[' [ value { ',' value } [ ',' ] ] ']'
    constant  = text | integer | truth value
    reference = identifier { '.' ( identifier | integer ) }

The literal is read by recursive descent. Values may nest as deep as a limit says: constants and
references are one level, and a mapping, a sequence or a negation is one level more than its
deepest part. -/

namespace SiteConf.Literal

/-- How far the descent has come: the token under the cursor, the tokens after it, and the
number of values it is inside of. The cursor stays on the last token once it is there. -/
structure Descent where
  head : Token
  rest : List Token
  depth : Nat
  deriving DecidableEq, Repr, Inhabited

abbrev Descend (α : Type) := Step Descent Error α

/-! ## Single tokens -/

/-- The token under the cursor. -/
def peek : Descend Token :=
  Step.of fun s => (.ok s.head, s)

/-- Moves the cursor on, unless it is on the last token. -/
def Descent.next (s : Descent) : Descent :=
  match s.rest with
  | [] => s
  | t :: ts => { s with head := t, rest := ts }

/-- Takes the token under the cursor. -/
def advance : Descend Token :=
  Step.of fun s => (.ok s.head, s.next)

/-- Takes the token under the cursor if it is of the given kind. -/
def eat (kind : TokenKind) : Descend Bool :=
  Step.of fun s => if s.head.kind = kind then (.ok true, s.next) else (.ok false, s)

def refuse {α : Type} (token : Token) (issue : SyntaxIssue) : Descend α :=
  throw (Error.badSyntax (some token.line) issue)

/-- Takes the token under the cursor, which has to be of the given kind. -/
def expect (kind : TokenKind) (issue : TokenKind → SyntaxIssue) : Descend Unit := do
  let token ← advance
  if token.kind = kind then pure () else refuse token (issue token.kind)

/-! ## Containers -/

def isKey (name : String) : Bool :=
  !name.toList.isEmpty && !name.toList.contains '.'

def key : Descend Key := do
  let token ← advance
  match token.kind with
  | .ident name | .str name =>
      if isKey name then pure ⟨name, token.line⟩ else refuse token (.keyForm name)
  | other => refuse token (.badKey other)

/-- The entries of a mapping up to its closing brace. Every entry but the last takes a comma, so
`fuel` beyond the number of tokens is never used up. -/
def entries (value : Descend Literal) : Nat → Descend (List (Key × Literal))
  | 0 => do
      let token ← peek
      refuse token (.badKey token.kind)
  | fuel + 1 => do
      if ← eat .rbrace then
        return []
      let k ← key
      expect .colon (.expectedColon k.name)
      let v ← value
      if ← eat .comma then
        return (k, v) :: (← entries value fuel)
      expect .rbrace .unclosedMapping
      return [(k, v)]

/-- The items of a sequence up to its closing bracket. -/
def items (value : Descend Literal) : Nat → Descend (List Literal)
  | 0 => do
      let token ← peek
      refuse token (.expectedValue token.kind)
  | fuel + 1 => do
      if ← eat .rbracket then
        return []
      let v ← value
      if ← eat .comma then
        return v :: (← items value fuel)
      expect .rbracket .unclosedSequence
      return [v]

/-- The segments of a reference after the first. -/
def segments : Nat → Descend (List String)
  | 0 => pure []
  | fuel + 1 => do
      if ← eat .dot then
        let token ← advance
        match token.kind with
        | .ident name => return name :: (← segments fuel)
        | .int index => return Number.showInt index :: (← segments fuel)
        | other => refuse token (.expectedName other)
      else
        return []

/-! ## Values -/

/-- The number of tokens the descent can still move over, and some to spare for loops. -/
def budget : Descend Nat :=
  Step.of fun s => (.ok (s.rest.length + 2), s)

/-- The value that starts with a token that was just taken; `value` reads the values in it. -/
def valueAt (value : Descend Literal) (token : Token) : Descend Literal :=
  match token.kind with
  | .lbrace => do return .mapping token.line (← entries value (← budget))
  | .lbracket => do return .sequence token.line (← items value (← budget))
  | .str s => pure (.constant token.line (.str s))
  | .int n => pure (.constant token.line (.int n))
  | .bool b => pure (.constant token.line (.bool b))
  | .minus => do return .negate token.line (← value)
  | .ident first => do return .reference token.line (first :: (← segments (← budget)))
  | other => refuse token (.expectedValue other)

/-- Works one level deeper, and is back on the old level afterwards, also after a failure. -/
def nested {α : Type} (x : Descend α) : Descend α :=
  Step.of fun s =>
    match Step.run x { s with depth := s.depth + 1 } with
    | (r, s') => (r, { s' with depth := s'.depth - 1 })

/-- Reads a value. `limit` bounds the nesting; `fuel` counts the levels that are left, and with
one more than those it is never used up. -/
def value (limit : Nat) : (fuel : Nat) → Descend Literal
  | 0 => do
      let token ← peek
      refuse token (.tooDeep limit)
  | fuel + 1 => do
      let token ← advance
      let depth ← Step.of fun s => (.ok s.depth, s)
      if limit ≤ depth then
        refuse token (.tooDeep limit)
      else
        nested (valueAt (value limit fuel) token)

/-- Reads a whole document: one value and nothing after it. -/
def document (limit : Nat) : Descend Literal := do
  let v ← value limit (limit + 1)
  let token ← peek
  if token.kind = .eof then pure v else refuse token (.trailing token.kind)

/-- How deep values may nest unless another limit is given. -/
def maxDepth : Nat := 128

/-- The literal that a token list denotes. Token lists are not empty; an empty one is read as a
lone `eof`. -/
def ofTokens (limit : Nat) (tokens : List Token) : Except Error Literal :=
  match tokens with
  | [] => (Step.run (document limit) ⟨⟨.eof, 1⟩, [], 0⟩).1
  | t :: ts => (Step.run (document limit) ⟨t, ts, 0⟩).1

end SiteConf.Literal
