import SiteConf.Yaml
import SiteConf.Yaml.Quoted

set_option autoImplicit false

/-! # Flat YAML documents

A document of this kind is one mapping from scalars to scalars, in block style or in flow style.
Everything else is refused: other values, a second document, anchors, tags and block scalars. -/

namespace SiteConf.Yaml

/-! ## Characters -/

/-- May the character stand in a document? -/
def isAllowed (c : Char) : Bool :=
  let n := c.toNat
  n == 9 || n == 10 || n == 13 || (decide (0x20 ≤ n) && decide (n ≤ 0x7e)) || n == 0x85
    || (decide (0xa0 ≤ n) && n != 0xfffe && n != 0xffff)

/-- Makes every line break a newline. -/
def unifyBreaks : List Char → List Char
  | [] => []
  | '\r' :: '\n' :: rest => '\n' :: unifyBreaks rest
  | c :: rest =>
      (if c = '\r' || c.toNat = 0x85 || c.toNat = 0x2028 || c.toNat = 0x2029 then '\n' else c)
        :: unifyBreaks rest

/-- Is it the end of the text, or does a blank or line break follow? -/
def atGap : List Char → Bool
  | [] => true
  | c :: _ => isGap c || c = '\n'

/-- The rest of the line is dropped. -/
def afterLine (cs : List Char) : List Char :=
  (cs.dropWhile (· ≠ '\n')).drop 1

/-- Nothing but blanks and a comment is left on the line: what follows the line. -/
def endOfLine? (cs : List Char) : Option (List Char) :=
  match cs.dropWhile isGap with
  | [] => some []
  | '\n' :: rest => some rest
  | '#' :: rest => some (afterLine rest)
  | _ => none

/-- A marker that starts or ends a document, at the start of a line. -/
def marker? (mark : Char) (cs : List Char) : Option (List Char) :=
  match cs with
  | a :: b :: c :: rest =>
      if a = mark && b = mark && c = mark && atGap rest then some rest else none
  | _ => none

/-! ## Lines -/

/-- Skips empty lines and comments: the indentation of the next line and what is on it. A tab is
no indentation. -/
def nextLine : (fuel : Nat) → List Char → Option (Nat × List Char)
  | 0, _ => none
  | fuel + 1, cs =>
      let rest := cs.dropWhile (· = ' ')
      match rest with
      | [] => some (0, [])
      | '\n' :: more => nextLine fuel more
      | '#' :: more => nextLine fuel (afterLine more)
      | '\t' :: _ => none
      | _ => some (cs.length - rest.length, rest)

/-- The next line that is not empty. -/
def lineFrom (cs : List Char) : Option (Nat × List Char) :=
  nextLine (cs.length + 1) cs

/-! ## Plain scalars -/

/-- Can a plain scalar start here? -/
def startsPlain (flow : Bool) (cs : List Char) : Bool :=
  match cs with
  | [] => false
  | c :: rest =>
      if c = '-' then !atGap rest
      else if c = '?' || c = ':' then !flow && !atGap rest
      else !(isGap c || c = '\n' || c.toNat = 39 || c.toNat = 96
        || [',', '[', ']', '{', '}', '#', '&', '*', '!', '|', '>', '"', '%', '@'].contains c)

/-- Does the character end a plain scalar in flow style? -/
def isFlowMark (c : Char) : Bool :=
  [',', '[', ']', '{', '}'].contains c

/-- The part of a plain scalar on one line, and what follows it. It ends before a colon that ends a
key, before a comment, and in flow style before a mark. -/
def plainLine (flow : Bool) : (blank : Bool) → List Char → List Char × List Char
  | _, [] => ([], [])
  | blank, c :: cs =>
      if c = '\n' || (c = ':' && atGap cs) || (c = '#' && blank) || (flow && isFlowMark c) then
        ([], c :: cs)
      else
        let (taken, rest) := plainLine flow (isGap c) cs
        (c :: taken, rest)

/-- Reads a plain scalar that may go on over the next lines, as long as they are indented by at
least `indent`; `seen` is what has been read. -/
def plainFrom (flow : Bool) (indent : Nat) : (fuel : Nat) → (seen : List Char) → List Char →
    Option (List Char × List Char)
  | 0, _, _ => none
  | fuel + 1, seen, cs =>
      let (taken, rest) := plainLine flow false cs
      let seen := seen ++ dropGaps taken
      match rest with
      | '\n' :: _ =>
          let gap := rest.takeWhile fun c => isGap c || c = '\n'
          let more := rest.drop gap.length
          let leading := (gap.reverse.takeWhile (· ≠ '\n')).reverse
          let column := leading.length
          let tabbed := !flow && (leading.take indent).contains '\t'
          match more with
          | [] => some (seen, rest)
          | c :: _ =>
              if c = '#' || (!flow && column < indent) || (flow && isFlowMark c)
                  || (column = 0 && ((marker? '-' more).isSome || (marker? '.' more).isSome)) then
                some (seen, rest)
              else if tabbed then none
              else plainFrom flow indent fuel (seen ++ foldBreaks (gap.count '\n')) more
      | _ => some (seen, rest)

def scalar? (flow : Bool) (indent : Nat) (cs : List Char) : Option (Scalar × List Char) :=
  match quoted? cs with
  | some (text, rest) => some (.quoted text, rest)
  | none =>
      if startsPlain flow cs then
        (plainFrom flow indent (cs.length + 1) [] cs).map fun r => (.plain r.1, r.2)
      else none

/-! ## Block style -/

/-- Reads a key up to and with its colon. -/
def blockKey? (cs : List Char) : Option (String × List Char) := do
  let (key, rest) ←
    match quoted? cs with
    | some (text, rest) => some (text, rest.dropWhile isGap)
    | none =>
        if startsPlain false cs then
          let (taken, rest) := plainLine false false cs
          some (dropGaps taken, rest)
        else none
  match rest with
  | ':' :: after => if atGap after then some (String.ofList key, after) else none
  | _ => none

/-- Reads the value after a key whose line is indented by `indent`. It may stand on a line of its
own. -/
def blockValue? (indent : Nat) (cs : List Char) : Option (Scalar × List Char) := do
  let (value, rest) ←
    match endOfLine? cs with
    | none => scalar? false (indent + 1) (cs.dropWhile isGap)
    | some rest => do
        let (column, line) ← lineFrom rest
        if indent < column then scalar? false (indent + 1) line else none
  let rest ← endOfLine? rest
  return (value, rest)

/-- What follows a document: nothing but empty lines, comments and one end marker. -/
def isFinished (cs : List Char) : Bool :=
  match lineFrom cs with
  | some (_, []) => true
  | some (0, line) =>
      match (marker? '.' line).bind endOfLine? with
      | some rest => (lineFrom rest).any fun l => l.2.isEmpty
      | none => false
  | _ => false

/-- Reads the entries of a mapping in block style. -/
def blockEntries (indent : Nat) : (fuel : Nat) → List Char → Option (List (String × Scalar))
  | 0, _ => none
  | fuel + 1, cs =>
      if isFinished cs then some []
      else do
        let (column, line) ← lineFrom cs
        if column ≠ indent || (marker? '-' line).isSome then none
        let (key, rest) ← blockKey? line
        let (value, rest) ← blockValue? indent rest
        let others ← blockEntries indent fuel rest
        return (key, value) :: others

/-! ## Flow style -/

/-- Skips blanks, line breaks and comments. -/
def skipFlow : (comment : Bool) → List Char → List Char
  | _, [] => []
  | true, c :: cs => skipFlow (c ≠ '\n') cs
  | false, c :: cs =>
      if isGap c || c = '\n' then skipFlow false cs
      else if c = '#' then skipFlow true cs
      else c :: cs

/-- Reads the entries of a mapping in flow style, after the opening brace. -/
def flowEntries : (fuel : Nat) → List Char → Option (List (String × Scalar) × List Char)
  | 0, _ => none
  | fuel + 1, cs => do
      let cs := skipFlow false cs
      match cs with
      | '}' :: rest => some ([], rest)
      | _ =>
          let (key, rest) ← scalar? true 0 cs
          match skipFlow false rest with
          | ':' :: rest => do
              let (value, rest) ← scalar? true 0 (skipFlow false rest)
              let name := String.ofList key.chars
              match skipFlow false rest with
              | ',' :: rest => do
                  let (others, rest) ← flowEntries fuel rest
                  return ((name, value) :: others, rest)
              | '}' :: rest => some ([(name, value)], rest)
              | _ => none
          | _ => none

/-! ## Documents -/

/-- Reads the mapping at the start of a document. -/
def mapping? (block : Bool) (indent : Nat) (cs : List Char) : Option (List (String × Scalar)) :=
  match cs with
  | '{' :: rest => do
      let (entries, rest) ← flowEntries (rest.length + 1) rest
      let rest ← endOfLine? rest
      if isFinished rest then some entries else none
  | [] => none
  | _ =>
      if block then
        blockEntries indent (cs.length + 1) (List.replicate indent ' ' ++ cs)
      else none

/-- Reads a flat document: its entries in order, also repeated ones. -/
def parse? (text : String) : Option (List (String × Scalar)) := do
  let cs := match text.toList with
    | c :: rest => if c.toNat = 0xfeff then rest else c :: rest
    | [] => []
  if !cs.all isAllowed then none
  let (column, line) ← lineFrom (unifyBreaks cs)
  match (if column = 0 then marker? '-' line else none) with
  | none => mapping? true column line
  | some rest =>
      match endOfLine? rest with
      | none => mapping? false 0 (rest.dropWhile isGap)
      | some rest => do
          let (column, line) ← lineFrom rest
          if column = 0 && (marker? '-' line).isSome then none
          mapping? true column line

end SiteConf.Yaml
