import SiteConf.Text.Hex
import SiteConf.Tree

set_option autoImplicit false

/-! # Compact JSON

The tree as JSON text without spaces, its keys in order. Only the double quote, the backslash
and the controls below the space are escaped, the controls by their short form if they have
one. -/

namespace SiteConf.Tree

def jsonChar (c : Char) : List Char :=
  if c = '"' then ['\\', '"']
  else if c = '\\' then ['\\', '\\']
  else if c.toNat = 8 then ['\\', 'b']
  else if c.toNat = 9 then ['\\', 't']
  else if c.toNat = 10 then ['\\', 'n']
  else if c.toNat = 12 then ['\\', 'f']
  else if c.toNat = 13 then ['\\', 'r']
  else if c.toNat < 32 then
    ['\\', 'u', '0', '0', Text.hexDigit (c.toNat / 16), Text.hexDigit (c.toNat % 16)]
  else [c]

def jsonString (s : String) : String :=
  "\"" ++ String.ofList (s.toList.flatMap jsonChar) ++ "\""

def jsonScalar : Scalar → String
  | .str s => jsonString s
  | .int n => Number.showInt n
  | .bool true => "true"
  | .bool false => "false"

mutual

/-- The tree as compact JSON. -/
def toJson : Tree → String
  | scalar v => jsonScalar v
  | sequence items => "[" ++ String.intercalate "," (toJsonItems items) ++ "]"
  | mapping fields => "\x7b" ++ String.intercalate "," (toJsonFields fields) ++ "\x7d"

def toJsonItems : List Tree → List String
  | [] => []
  | t :: ts => toJson t :: toJsonItems ts

def toJsonFields : List (String × Tree) → List String
  | [] => []
  | (k, t) :: rest => (jsonString k ++ ":" ++ toJson t) :: toJsonFields rest

end

end SiteConf.Tree
