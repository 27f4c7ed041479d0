set_option autoImplicit false

/-! # Lines

A text is a list of lines joined by the newline character: `lines` takes it apart and `unlines`
puts it together again. A text has one more line than newlines, so the empty text is one empty
line. Carriage returns are ordinary characters. -/

namespace SiteConf.Text

/-- The lines of a text, without their newlines. -/
def lines : List Char → List (List Char)
  | [] => [[]]
  | c :: cs =>
      if c = '\n' then [] :: lines cs
      else match lines cs with
        | [] => [[c]]
        | l :: ls => (c :: l) :: ls

def unlines : List (List Char) → List Char
  | [] => []
  | [l] => l
  | l :: m :: ls => l ++ '\n' :: unlines (m :: ls)

def lineCount (text : String) : Nat :=
  (lines text.toList).length

/-! ## Cutting at a separator -/

/-- The pieces of a text, or of a list of bytes, between the occurrences of `sep`. -/
def cutAt {α : Type} [DecidableEq α] (sep : α) : List α → List (List α)
  | [] => [[]]
  | c :: cs =>
      if c = sep then [] :: cutAt sep cs
      else match cutAt sep cs with
        | [] => [[c]]
        | p :: ps => (c :: p) :: ps

/-- What follows `head` in the text, when the text starts with it. -/
def dropHead? : (head text : List Char) → Option (List Char)
  | [], text => some text
  | _ :: _, [] => none
  | h :: hs, c :: cs => if h = c then dropHead? hs cs else none

/-- Does `part` occur in the text? -/
def occursIn (part : List Char) : List Char → Bool
  | [] => part.isEmpty
  | c :: cs => (dropHead? part (c :: cs)).isSome || occursIn part cs

/-- Replaces the occurrences of `part`, found from left to right and without overlap. `skip`
counts the characters of the occurrence just replaced that are still to be passed over. -/
def replaceFrom (part image : List Char) : Nat → List Char → List Char
  | _, [] => []
  | skip + 1, _ :: cs => replaceFrom part image skip cs
  | 0, c :: cs =>
      if (dropHead? part (c :: cs)).isSome then
        image ++ replaceFrom part image (part.length - 1) cs
      else c :: replaceFrom part image 0 cs

/-- Replaces every occurrence of `part` by `image`. The empty text occurs before every character
and at the end. -/
def replace (part image text : List Char) : List Char :=
  if part.isEmpty then image ++ text.flatMap fun c => c :: image
  else replaceFrom part image 0 text

end SiteConf.Text
