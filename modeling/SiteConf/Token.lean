import SiteConf.Number.Decimal
import SiteConf.Text.Quoted

set_option autoImplicit false

/-! # Tokens of the configuration language

Punctuation, texts, integers, truth values and identifiers, each with the line on which it
starts. A token list ends with `eof`. -/

namespace SiteConf

inductive TokenKind where
  | lbrace
  | rbrace
  | lbracket
  | rbracket
  | colon
  | comma
  | dot
  | minus
  | str (text : String)
  | int (value : Int)
  | bool (value : Bool)
  | ident (name : String)
  | eof
  deriving DecidableEq, Repr, Inhabited

/-- A token as a message names it. -/
def TokenKind.describe : TokenKind → String
  | .lbrace => "'\x7b'"
  | .rbrace => "'\x7d'"
  | .lbracket => "'['"
  | .rbracket => "']'"
  | .colon => "':'"
  | .comma => "','"
  | .dot => "'.'"
  | .minus => "'-'"
  | .str s => "string " ++ Text.quoted s
  | .int n => "number " ++ Number.showInt n
  | .bool true => "boolean true"
  | .bool false => "boolean false"
  | .ident name => "identifier '" ++ name ++ "'"
  | .eof => "end of input"

/-- A token and the line of its first character. -/
structure Token where
  kind : TokenKind
  line : Nat
  deriving DecidableEq, Repr, Inhabited

end SiteConf
