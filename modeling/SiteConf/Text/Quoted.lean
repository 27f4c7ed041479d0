import SiteConf.Text.Hex
import SiteConf.Text.Printable

set_option autoImplicit false

/-! # Quoted text in messages

How a message shows a character or a text that came from the input: between quotes, with the
usual short escapes, and with every character that would not show on its own written by its
code point in lower case hexadecimal. Only the quote in use is escaped. -/

namespace SiteConf.Text

/-- One character as it stands between the quotes `quote`. -/
def escapeIn (quote c : Char) : List Char :=
  if c.toNat = 0 then ['\\', '0']
  else if c = '\t' then ['\\', 't']
  else if c = '\r' then ['\\', 'r']
  else if c = '\n' then ['\\', 'n']
  else if c = '\\' then ['\\', '\\']
  else if c = quote then ['\\', c]
  else if isPrintable c then [c]
  else "\\u\x7b".toList ++ hex c.toNat ++ "\x7d".toList

/-- A character between single quotes. -/
def quotedChar (c : Char) : String :=
  "'" ++ String.ofList (escapeIn (Char.ofNat 39) c) ++ "'"

/-- A text between double quotes. -/
def quoted (s : String) : String :=
  "\"" ++ String.ofList (s.toList.flatMap (escapeIn '"')) ++ "\""

/-! ## Quoted text in configurations -/

/-- A text between double quotes, its quotes and backslashes escaped. -/
def doubleQuoted (s : String) : String :=
  "\"" ++ String.ofList (s.toList.flatMap fun c =>
    if c = '"' ∨ c = '\\' then ['\\', c] else [c]) ++ "\""

end SiteConf.Text
