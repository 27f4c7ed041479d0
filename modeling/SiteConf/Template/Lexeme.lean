set_option autoImplicit false

/-! # The parts of a template

A template is text with tags in it: output tags print a value and statement tags control what is
printed. A tag is a list of lexemes. -/

namespace SiteConf.Template

/-- Operators and punctuation inside a tag. -/
inductive Mark where
  | plus
  | minus
  | star
  | slash
  | doubleSlash
  | doubleStar
  | percent
  | dot
  | comma
  | colon
  | tilde
  | pipe
  | assign
  | eq
  | ne
  | lt
  | le
  | gt
  | ge
  | lparen
  | rparen
  | lbracket
  | rbracket
  | lbrace
  | rbrace
  deriving DecidableEq, Repr, Inhabited

inductive Lexeme where
  | word (name : String)
  | str (text : String)
  | int (value : Nat)
  | mark (m : Mark)
  deriving DecidableEq, Repr, Inhabited

inductive Segment where
  | text (content : String)
  | output (lexemes : List Lexeme)
  | statement (lexemes : List Lexeme)
  deriving DecidableEq, Repr, Inhabited

end SiteConf.Template
