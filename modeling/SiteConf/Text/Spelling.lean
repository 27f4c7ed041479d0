import SiteConf.Text.Casing
import SiteConf.Text.Numeral

set_option autoImplicit false

/-! # Spellings of names

Dialects spell the names of directives differently: `proxy_pass`, `proxy-pass`, `ProxyPass`. A
name is respelled character by character. Separators are the characters that are not
alphanumeric, and those at the end of a name are dropped; letters change case in ASCII only. -/

namespace SiteConf.Text

/-- Is the character none that a word is made of? -/
def isSeparator (c : Char) : Bool :=
  !isAlphanumeric c

/-- The name without the separators at its end. -/
def dropTrailingSeparators (cs : List Char) : List Char :=
  (cs.reverse.dropWhile isSeparator).reverse

def lowerAt (place : Nat) (cs : List Char) : Bool :=
  (cs[place]?).any isLower

/-! ## Words with a joiner -/

/-- How words are joined: the character between them and the case of their letters. -/
structure Joining where
  joiner : Char
  upper : Bool
  deriving DecidableEq, Repr

def Joining.letter (j : Joining) (c : Char) : Char :=
  if j.upper then c.toUpper else c.toLower

/-- Joins the words of a name from a byte `offset` on; `first` says that a word is about to start.
A character that is no small ASCII letter starts a word when one of the characters numbered
`offset + 1` and `offset - 1` of the name is lower case; in ASCII names these are its
neighbours. -/
def joinFrom (j : Joining) (name : List Char) (first : Bool) (offset : Nat) :
    List Char → List Char
  | [] => []
  | c :: cs =>
      let next := offset + c.utf8Size
      if isSeparator c then
        if first then joinFrom j name true next cs
        else j.joiner :: joinFrom j name true next cs
      else if !first && c == c.toUpper
          && (lowerAt (offset + 1) name || lowerAt (offset - 1) name) then
        j.joiner :: j.letter c :: joinFrom j name false next cs
      else j.letter c :: joinFrom j name false next cs

/-- A name with its words joined. -/
def Joining.spell (j : Joining) (name : List Char) : List Char :=
  joinFrom j name true 0 (dropTrailingSeparators name)

/-- Small letters joined by underscores. -/
def snakeCase : List Char → List Char :=
  Joining.spell ⟨'_', false⟩

/-- Capital letters joined by underscores. -/
def screamingSnakeCase : List Char → List Char :=
  Joining.spell ⟨'_', true⟩

/-- Small letters joined by hyphens. -/
def kebabCase : List Char → List Char :=
  Joining.spell ⟨'-', false⟩

/-! ## Words with capitals -/

/-- Writes the words of a name with a capital each. `starting` says that a word is about to start,
`found` that the first word has been found, and `last` is the last character written small. -/
def capitalsFrom (starting found : Bool) (last : Char) : List Char → List Char
  | [] => []
  | c :: cs =>
      if isSeparator c then capitalsFrom (starting || found) found last cs
      else if isNumeral c then c :: capitalsFrom true true last cs
      else if starting || (isLower last && isUpper c) then
        c.toUpper :: capitalsFrom false true last cs
      else c.toLower :: capitalsFrom false true c cs

/-- Capitals at the words after the first. -/
def camelCase (name : List Char) : List Char :=
  capitalsFrom false false ' ' (dropTrailingSeparators name)

/-- Capitals at all words. -/
def pascalCase (name : List Char) : List Char :=
  capitalsFrom true false ' ' (dropTrailingSeparators name)

end SiteConf.Text
