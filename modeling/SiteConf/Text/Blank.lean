import SiteConf.Text.Ranges

set_option autoImplicit false

/-! # White space

The Unicode property White_Space, and the trimming and splitting of lists of characters that
follow from it. -/

namespace SiteConf.Text

/-- The White_Space code points above ASCII. -/
def blankRanges : Ranges :=
  [(0x85, 0x85), (0xa0, 0xa0), (0x1680, 0x1680), (0x2000, 0x200a), (0x2028, 0x2029),
   (0x202f, 0x202f), (0x205f, 0x205f), (0x3000, 0x3000)]

/-- Is the character white space? In ASCII that is the space and the controls from the tab to
the carriage return. -/
def isBlank (c : Char) : Bool :=
  c == ' ' || (decide (9 ≤ c.toNat) && decide (c.toNat ≤ 13)) || blankRanges.mem c.toNat

def trimStart (cs : List Char) : List Char :=
  cs.dropWhile isBlank

def trimEnd (cs : List Char) : List Char :=
  (cs.reverse.dropWhile isBlank).reverse

/-- Drops the white space at both ends. -/
def trim (cs : List Char) : List Char :=
  trimEnd (trimStart cs)

/-- The maximal runs of characters that are not white space; `run` is the run being read. -/
def wordsFrom (run : List Char) : List Char → List (List Char)
  | [] => if run.isEmpty then [] else [run]
  | c :: cs =>
      if isBlank c then
        if run.isEmpty then wordsFrom [] cs else run :: wordsFrom [] cs
      else wordsFrom (run ++ [c]) cs

/-- The words of a text: what stands between its white space. -/
def words (cs : List Char) : List (List Char) :=
  wordsFrom [] cs

end SiteConf.Text
