import SiteConf.Error
import SiteConf.Placeholder
import SiteConf.Text.Lines

set_option autoImplicit false

/-! # Placeholder markers

A marker `@@NAME@@` stands for the value of a placeholder. Markers are found from left to right
and do not overlap; substituted text is not looked at again. -/

namespace SiteConf.Source

/-- May a placeholder's name hold this character? -/
def isNameChar (c : Char) : Bool :=
  c.isAlphanum || c == '_'

/-- The name of the marker at the start of a text. -/
def marker? (cs : List Char) : Option (List Char) :=
  match cs with
  | '@' :: '@' :: rest =>
      let name := rest.takeWhile isNameChar
      match rest.dropWhile isNameChar with
      | '@' :: '@' :: _ => if name.isEmpty then none else some name
      | _ => none
  | _ => none

/-- A piece of text: a character that stands for itself, or a marker. -/
inductive Piece where
  | plain (c : Char)
  | marker (name : List Char)
  deriving DecidableEq, Repr

/-- The pieces of a text after `skip` more characters of the marker just found. -/
def piecesFrom : (skip : Nat) → List Char → List Piece
  | _, [] => []
  | skip + 1, _ :: cs => piecesFrom skip cs
  | 0, c :: cs =>
      match marker? (c :: cs) with
      | some name => .marker name :: piecesFrom (name.length + 3) cs
      | none => .plain c :: piecesFrom 0 cs

def pieces (cs : List Char) : List Piece :=
  piecesFrom 0 cs

/-- Puts the values of the placeholders into the pieces of line `line`. -/
def fill (placeholders : Placeholders) (line : Nat) : List Piece → Except Error (List Char)
  | [] => .ok []
  | .plain c :: rest => (fill placeholders line rest).map (c :: ·)
  | .marker name :: rest =>
      match Ordered.get? (String.ofList name) placeholders with
      | some value => (fill placeholders line rest).map (value.text.toList ++ ·)
      | none => .error (.undefinedPlaceholder (String.ofList name) (some line))

/-- Substitutes the markers of the lines from number `line` on. -/
def fillLines (placeholders : Placeholders) (line : Nat) :
    List (List Char) → Except Error (List (List Char))
  | [] => .ok []
  | l :: ls => do
      let here ← fill placeholders line (pieces l)
      let later ← fillLines placeholders (line + 1) ls
      return here :: later

def substitute (placeholders : Placeholders) (text : String) : Except Error String :=
  (fillLines placeholders 1 (Text.lines text.toList)).map
    fun ls => String.ofList (Text.unlines ls)

end SiteConf.Source
