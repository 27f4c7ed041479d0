import SiteConf.Text.Blank
import SiteConf.Text.Casing
import SiteConf.Text.Word

set_option autoImplicit false

/-! # Patterns

Regular expressions over characters, with assertions about the place they are tried at. Whether a
text holds a match is decided by derivatives: the derivatives of a pattern by a character are the
patterns that the text after the character has to match. -/

namespace SiteConf.Text

/-! ## Sets of characters -/

/-- A named set of characters. -/
inductive CharClass where
  | digit
  | word
  | space
  deriving DecidableEq, Repr

def CharClass.mem (c : Char) : CharClass → Bool
  | .digit => isDecimal c
  | .word => isWordChar c
  | .space => isBlank c

inductive CharSet where
  | range (lo hi : Nat)
  | ofClass (cls : CharClass)
  | union (a b : CharSet)
  | inter (a b : CharSet)
  | compl (a : CharSet)
  | anyCase (a : CharSet)
  | none
  deriving DecidableEq, Repr, Inhabited

/-- The spellings of a character when case does not matter. -/
def spellings (c : Char) : List Char :=
  let once := c :: caseVariants c
  once ++ once.flatMap caseVariants

def CharSet.mem (c : Char) : CharSet → Bool
  | .range lo hi => decide (lo ≤ c.toNat) && decide (c.toNat ≤ hi)
  | .ofClass cls => cls.mem c
  | .union a b => a.mem c || b.mem c
  | .inter a b => a.mem c && b.mem c
  | .compl a => !a.mem c
  | .anyCase a => (spellings c).any fun d => a.mem d
  | .none => false

def CharSet.single (c : Char) : CharSet :=
  .range c.toNat c.toNat

/-! ## Patterns -/

/-- An assertion about a place in the text. -/
inductive Anchor where
  | textStart
  | textEnd
  | lineStart
  | lineEnd
  | wordEdge
  | notWordEdge
  | wordStart
  | wordEnd
  deriving DecidableEq, Repr

/-- A place in a text, given by the characters before and after it. -/
structure Place where
  before : Option Char
  after : Option Char
  deriving DecidableEq, Repr

def Anchor.holds (p : Place) : Anchor → Bool
  | .textStart => p.before.isNone
  | .textEnd => p.after.isNone
  | .lineStart => p.before.isNone || p.before == some '\n'
  | .lineEnd => p.after.isNone || p.after == some '\n'
  | .wordEdge => p.before.any isWordChar != p.after.any isWordChar
  | .notWordEdge => p.before.any isWordChar == p.after.any isWordChar
  | .wordStart => !p.before.any isWordChar && p.after.any isWordChar
  | .wordEnd => p.before.any isWordChar && !p.after.any isWordChar

/-- A regular expression. -/
inductive Pattern where
  | empty
  | one (set : CharSet)
  | assert (anchor : Anchor)
  | seq (a b : Pattern)
  | alt (a b : Pattern)
  | star (a : Pattern)
  deriving DecidableEq, Repr, Inhabited

namespace Pattern

def times (a : Pattern) : Nat → Pattern
  | 0 => empty
  | n + 1 => seq a (times a n)

def upTo (a : Pattern) : Nat → Pattern
  | 0 => empty
  | n + 1 => alt empty (seq a (upTo a n))

/-! ## Matching -/

/-- Does the pattern match the empty text at a place? -/
def nullable (p : Place) : Pattern → Bool
  | empty => true
  | one _ => false
  | assert a => a.holds p
  | seq a b => nullable p a && nullable p b
  | alt a b => nullable p a || nullable p b
  | star _ => true

/-- Patterns of which one has to match what follows `c`, when `c` stands after the place. -/
def derivatives (p : Place) (c : Char) : Pattern → List Pattern
  | empty => []
  | one set => if set.mem c then [empty] else []
  | assert _ => []
  | seq a b =>
      (derivatives p c a).map (fun d => if d = empty then b else seq d b)
        ++ (if nullable p a then derivatives p c b else [])
  | alt a b => derivatives p c a ++ derivatives p c b
  | star a => (derivatives p c a).map fun d => if d = empty then star a else seq d (star a)

/-- Is there a match of `start` in the rest of a text, or one of the `live` patterns that were
begun earlier? -/
def searchFrom (start : Pattern) (before : Option Char) (live : List Pattern) :
    List Char → Bool
  | [] => (start :: live).any (nullable ⟨before, none⟩)
  | c :: cs =>
      let place : Place := ⟨before, some c⟩
      let all := start :: live
      all.any (nullable place)
        || searchFrom start (some c) (all.flatMap (derivatives place c)).eraseDups cs

def occurs (a : Pattern) (cs : List Char) : Bool :=
  searchFrom a none [] cs

end Pattern

end SiteConf.Text
