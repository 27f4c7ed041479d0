import SiteConf.Text.Hex

set_option autoImplicit false

/-! # Quoted YAML scalars

In single quotes only the quote itself is special: it is written twice. In double quotes a
backslash starts an escape. In both a line break, with the blanks around it, is a space; each
further line break is kept. -/

namespace SiteConf.Yaml

/-- Is it a space or a tab? -/
def isGap (c : Char) : Bool :=
  c = ' ' || c = '\t'

/-- Drops blanks at the end. -/
def dropGaps (cs : List Char) : List Char :=
  (cs.reverse.dropWhile isGap).reverse

/-- What a run of line breaks stands for, when the first is the end of a line of text. -/
def foldBreaks (breaks : Nat) : List Char :=
  if breaks ≤ 1 then [' '] else List.replicate (breaks - 1) '\n'

/-- Counts the line breaks of a run of breaks and blanks. -/
def countBreaks (cs : List Char) : Nat :=
  (cs.takeWhile fun c => isGap c || c = '\n').count '\n'

/-- What follows a run of breaks and blanks. -/
def afterBreaks (cs : List Char) : List Char :=
  cs.dropWhile fun c => isGap c || c = '\n'

/-- Reads a scalar in single quotes, after the opening one; `seen` is what has been read. -/
def singleQuoted : (fuel : Nat) → (seen : List Char) → List Char →
    Option (List Char × List Char)
  | 0, _, _ => none
  | _, _, [] => none
  | fuel + 1, seen, c :: cs =>
      if c.toNat = 39 then
        match cs with
        | d :: rest => if d.toNat = 39 then singleQuoted fuel (seen ++ [d]) rest
            else some (seen, cs)
        | [] => some (seen, [])
      else if c = '\n' then
        singleQuoted fuel (dropGaps seen ++ foldBreaks (countBreaks (c :: cs)))
          (afterBreaks (c :: cs))
      else singleQuoted fuel (seen ++ [c]) cs

def escape? (c : Char) : Option Char :=
  match c with
  | '0' => some (Char.ofNat 0)
  | 'a' => some (Char.ofNat 7)
  | 'b' => some (Char.ofNat 8)
  | 't' => some '\t'
  | '\t' => some '\t'
  | 'n' => some '\n'
  | 'v' => some (Char.ofNat 11)
  | 'f' => some (Char.ofNat 12)
  | 'r' => some '\r'
  | 'e' => some (Char.ofNat 27)
  | ' ' => some ' '
  | '"' => some '"'
  | '/' => some '/'
  | '\\' => some '\\'
  | 'N' => some (Char.ofNat 0x85)
  | '_' => some (Char.ofNat 0xa0)
  | 'L' => some (Char.ofNat 0x2028)
  | 'P' => some (Char.ofNat 0x2029)
  | _ => none

/-- The number of hexadecimal digits that an escape by code has. -/
def codeLength? (c : Char) : Option Nat :=
  match c with
  | 'x' => some 2
  | 'u' => some 4
  | 'U' => some 8
  | _ => none

def charOf? (n : Nat) : Option Char :=
  if n.isValidChar then some (Char.ofNat n) else none

/-- Reads an escape by code with `length` digits. -/
def codeEscape? (length : Nat) (cs : List Char) : Option (Char × List Char) := do
  let digits := cs.take length
  if digits.length < length then none
  let n ← Text.ofHex? digits
  let c ← charOf? n
  return (c, cs.drop length)

/-- Reads a scalar in double quotes, after the opening one; `kept` is what has been read and is
safe from folding, `seen` what follows it. -/
def doubleQuoted : (fuel : Nat) → (kept seen : List Char) → List Char →
    Option (List Char × List Char)
  | 0, _, _, _ => none
  | _, _, _, [] => none
  | fuel + 1, kept, seen, c :: cs =>
      if c = '"' then some (kept ++ seen, cs)
      else if c = '\\' then
        match cs with
        | [] => none
        | d :: rest =>
            if d = '\n' then
              let breaks := countBreaks (d :: rest)
              doubleQuoted fuel (kept ++ seen ++ List.replicate (breaks - 1) '\n') []
                (afterBreaks (d :: rest))
            else
              match escape? d with
              | some e => doubleQuoted fuel (kept ++ seen ++ [e]) [] rest
              | none => do
                  let length ← codeLength? d
                  let (e, rest) ← codeEscape? length rest
                  doubleQuoted fuel (kept ++ seen ++ [e]) [] rest
      else if c = '\n' then
        doubleQuoted fuel (kept ++ dropGaps seen ++ foldBreaks (countBreaks (c :: cs))) []
          (afterBreaks (c :: cs))
      else doubleQuoted fuel kept (seen ++ [c]) cs

def quoted? (cs : List Char) : Option (List Char × List Char) :=
  match cs with
  | c :: rest =>
      if c.toNat = 39 then singleQuoted (rest.length + 1) [] rest
      else if c = '"' then doubleQuoted (rest.length + 1) [] [] rest
      else none
  | [] => none

end SiteConf.Yaml
