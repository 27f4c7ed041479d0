import SiteConf.Literal.Grammar
import SiteConf.Literal.Resolve
import SiteConf.Outcome
import SiteConf.Token.Lexer

set_option autoImplicit false

/-! # Reading a document

From text to tokens, from tokens to a literal, from the literal to the document it denotes. -/

namespace SiteConf.Document

def parse (text : String) : Outcome Document := do
  let tokens ← Outcome.ofResult (Token.tokenize text)
  Outcome.note .debug ("Lexed " ++ Number.showNat tokens.length ++ " tokens")
  let literal ← Outcome.ofResult (Literal.ofTokens Literal.maxDepth tokens)
  let resolved := literal.resolveIn
  Outcome.write resolved.2.log
  let document ← Outcome.ofResult resolved.1
  Outcome.note .debug
    ("Parsed configuration with " ++ Number.showNat document.origins.size ++ " key paths")
  return document

end SiteConf.Document
