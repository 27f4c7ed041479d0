import SiteConf.Number.Decimal
import SiteConf.Text.Hex
import SiteConf.Text.Numeral
import SiteConf.Text.Pattern

set_option autoImplicit false

/-! # Reading patterns

The usual notation of regular expressions: `.`, classes in brackets, `\d \w \s` and their
complements, anchors, groups, alternatives and repetitions. Flags `(?i)`, `(?m)` and `(?s)` hold
to the end of their group. There are no references back to a group, and nothing looks around. -/

namespace SiteConf.Text.Pattern

/-! ## Single characters -/

/-- The flags in force: ignore case, lines have starts and ends, the dot takes a newline. -/
structure Flags where
  anyCase : Bool := false
  multiLine : Bool := false
  dotAll : Bool := false
  deriving DecidableEq, Repr, Inhabited

inductive Escape where
  | char (c : Char)
  | set (s : CharSet)
  | anchor (a : Anchor)
  deriving DecidableEq, Repr

/-- The controls that have a letter. -/
def controlOf (c : Char) : Option Nat :=
  if c = 'a' then some 7
  else if c = 't' then some 9
  else if c = 'n' then some 10
  else if c = 'v' then some 11
  else if c = 'f' then some 12
  else if c = 'r' then some 13
  else none

/-- The character sets that have a letter. -/
def classOf (c : Char) : Option CharSet :=
  if c = 'd' then some (.ofClass .digit)
  else if c = 'w' then some (.ofClass .word)
  else if c = 's' then some (.ofClass .space)
  else if c = 'D' then some (.compl (.ofClass .digit))
  else if c = 'W' then some (.compl (.ofClass .word))
  else if c = 'S' then some (.compl (.ofClass .space))
  else none

/-- The anchors that have a letter. -/
def anchorOf (c : Char) : Option Anchor :=
  if c = 'b' then some .wordEdge
  else if c = 'B' then some .notWordEdge
  else if c = 'A' then some .textStart
  else if c = 'z' then some .textEnd
  else if c = '<' then some .wordStart
  else if c = '>' then some .wordEnd
  else none

/-- The character with the given hexadecimal code, if there is one. -/
def charOfHex? (ds : List Char) : Option Char := do
  let n ← ofHex? ds
  if 0x10ffff < n || isHighHalf n || isLowHalf n then none else some (Char.ofNat n)

/-- Reads the digits of an escape by code: in braces, or `count` of them. -/
def hexEscape (count : Nat) (cs : List Char) : Option (Escape × List Char) :=
  match cs with
  | '{' :: rest =>
      match rest.dropWhile (· != '}') with
      | _ :: after => (charOfHex? (rest.takeWhile (· != '}'))).map fun c => (.char c, after)
      | [] => none
  | _ =>
      if cs.length < count then none
      else (charOfHex? (cs.take count)).map fun c => (.char c, cs.drop count)

/-- Reads an escape after its backslash. Punctuation of ASCII stands for itself; letters and
digits without a meaning are refused. -/
def escape : List Char → Option (Escape × List Char)
  | [] => none
  | c :: cs =>
      if c = 'x' then hexEscape 2 cs
      else if c = 'u' then hexEscape 4 cs
      else if c = 'U' then hexEscape 8 cs
      else match classOf c, controlOf c, anchorOf c with
        | some s, _, _ => some (.set s, cs)
        | none, some n, _ => some (.char (Char.ofNat n), cs)
        | none, none, some a => some (.anchor a, cs)
        | none, none, none =>
            if c.toNat < 128 ∧ ¬ c.isAlphanum then some (.char c, cs) else none

/-! ## Classes in brackets -/

def asciiClass (name : String) : Option CharSet :=
  let upper := CharSet.range 65 90
  let lower := CharSet.range 97 122
  let digit := CharSet.range 48 57
  let alpha := CharSet.union upper lower
  match name with
  | "alnum" => some (.union alpha digit)
  | "alpha" => some alpha
  | "ascii" => some (.range 0 127)
  | "blank" => some (.union (.range 9 9) (.range 32 32))
  | "cntrl" => some (.union (.range 0 31) (.range 127 127))
  | "digit" => some digit
  | "graph" => some (.range 33 126)
  | "lower" => some lower
  | "print" => some (.range 32 126)
  | "punct" => some (.inter (.range 33 126) (.compl (.union alpha digit)))
  | "space" => some (.union (.range 9 13) (.range 32 32))
  | "upper" => some upper
  | "word" => some (.union (.union alpha digit) (.range 95 95))
  | "xdigit" => some (.union digit (.union (.range 65 70) (.range 97 102)))
  | _ => none

/-- Reads a named ASCII class such as `[:alpha:]` after its first bracket. -/
def namedClass? (cs : List Char) : Option (CharSet × List Char) :=
  match cs with
  | ':' :: rest =>
      let negated := rest.head? == some '^'
      let body := if negated then rest.drop 1 else rest
      match body.dropWhile (· != ':') with
      | ':' :: ']' :: after =>
          (asciiClass (String.ofList (body.takeWhile (· != ':')))).map fun s =>
            (if negated then .compl s else s, after)
      | _ => none
  | _ => none

/-- One item of a class: a character, which may start a range, or a set. -/
def classItem (cs : List Char) : Option (Escape × List Char) :=
  match cs with
  | [] => none
  | '\\' :: rest =>
      match escape rest with
      | some (.anchor _, _) => none
      | other => other
  | c :: rest => some (.char c, rest)

def classRange (cs : List Char) : Option (CharSet × List Char) := do
  let (first, rest) ← classItem cs
  let alone : Option (CharSet × List Char) :=
    match first with
    | .char c => some (.single c, rest)
    | .set s => some (s, rest)
    | .anchor _ => none
  match rest with
  | '-' :: ']' :: _ => alone
  | '-' :: '-' :: _ => alone
  | '-' :: after =>
      let (last, rest) ← classItem after
      match first, last with
      | .char lo, .char hi =>
          if lo.toNat ≤ hi.toNat then some (.range lo.toNat hi.toNat, rest) else none
      | _, _ => none
  | _ => alone

/-- How a class goes on with what was read before: joined, or by a set operation. -/
inductive ClassOp where
  | join
  | intersect
  | subtract
  | differ
  deriving DecidableEq, Repr

def ClassOp.apply (a b : CharSet) : ClassOp → CharSet
  | .join => .union a b
  | .intersect => .inter a b
  | .subtract => .inter a (.compl b)
  | .differ => .union (.inter a (.compl b)) (.inter b (.compl a))

mutual

/-- Reads the items of a class up to its closing bracket: `left` and `op` are the left operand of
a set operation, and `items` the items read since. -/
def classBody (ci : Bool) : (fuel : Nat) → (left : CharSet) → ClassOp → (items : CharSet) →
    List Char → Option (CharSet × List Char)
  | 0, _, _, _, _ => none
  | fuel + 1, left, op, items, cs =>
      match cs with
      | [] => none
      | ']' :: rest => some (op.apply left items, rest)
      | '&' :: '&' :: rest => classBody ci fuel (op.apply left items) .intersect .none rest
      | '-' :: '-' :: rest => classBody ci fuel (op.apply left items) .subtract .none rest
      | '~' :: '~' :: rest => classBody ci fuel (op.apply left items) .differ .none rest
      | '[' :: rest =>
          match namedClass? rest with
          | some (s, after) => classBody ci fuel left op (.union items s) after
          | none =>
              match charClass ci fuel rest with
              | some (s, after) => classBody ci fuel left op (.union items s) after
              | none => none
      | _ =>
          match classRange cs with
          | some (s, after) => classBody ci fuel left op (.union items s) after
          | none => none

/-- Reads a class after its opening bracket. A bracket that comes first, and hyphens before
all else, stand for themselves. -/
def charClass (ci : Bool) : (fuel : Nat) → List Char → Option (CharSet × List Char)
  | 0, _ => none
  | fuel + 1, cs =>
      let negated := cs.head? == some '^'
      let body := if negated then cs.drop 1 else cs
      let hyphens := body.takeWhile (· == '-')
      let after := body.dropWhile (· == '-')
      let start : CharSet := if hyphens.isEmpty then .none else .single '-'
      let opened : CharSet × List Char :=
        match hyphens, after with
        | [], ']' :: rest => (.single ']', rest)
        | _, _ => (start, after)
      match classBody ci fuel .none .join opened.1 opened.2 with
      | some (s, rest) =>
          let folded := if ci then .anyCase s else s
          some (if negated then .compl folded else folded, rest)
      | none => none

end

/-! ## Repetitions -/

/-- The bounds of a repetition; without an upper bound it may go on. -/
structure Bounds where
  least : Nat
  most : Option Nat
  deriving DecidableEq, Repr

/-- Reads a decimal number between white space. -/
def decimal (cs : List Char) : Option (Nat × List Char) :=
  let body := cs.dropWhile isBlank
  let ds := body.takeWhile Char.isDigit
  if ds.isEmpty || 4294967295 < Number.ofDigits ds then none
  else some (Number.ofDigits ds, (body.dropWhile Char.isDigit).dropWhile isBlank)

/-- Reads the bounds of a counted repetition after its brace. -/
def bounds (cs : List Char) : Option (Bounds × List Char) := do
  let (least, rest) ← decimal cs
  match rest with
  | '}' :: after => some (⟨least, some least⟩, after)
  | ',' :: '}' :: after => some (⟨least, none⟩, after)
  | ',' :: more =>
      let (most, rest) ← decimal more
      match rest with
      | '}' :: after => if least ≤ most then some (⟨least, some most⟩, after) else none
      | _ => none
  | _ => none

/-- Reads a repetition operator, if one starts here; one that takes as little as it can finds the
same texts. -/
def repetition? (cs : List Char) : Option (Option (Bounds × List Char)) :=
  let lazily (rest : List Char) : List Char :=
    match rest with
    | '?' :: after => after
    | _ => rest
  match cs with
  | '*' :: rest => some (some (⟨0, none⟩, lazily rest))
  | '+' :: rest => some (some (⟨1, none⟩, lazily rest))
  | '?' :: rest => some (some (⟨0, some 1⟩, lazily rest))
  | '{' :: rest => (bounds rest).map fun b => some (b.1, lazily b.2)
  | _ => some none

def Bounds.repeat (b : Bounds) (a : Pattern) : Pattern :=
  match b.most with
  | none => if b.least = 0 then star a else seq (times a b.least) (star a)
  | some most =>
      if most = b.least then times a b.least
      else if b.least = 0 then upTo a most
      else seq (times a b.least) (upTo a (most - b.least))

/-! ## Groups and alternatives -/

/-- Reads flags: the flags, and the rest from the character after them. -/
def flagsFrom (f : Flags) (on : Bool) (seen : List Char) :
    List Char → Option (Flags × List Char × List Char)
  | [] => none
  | c :: cs =>
      if c = ')' ∨ c = ':' then some (f, seen, c :: cs)
      else if seen.contains c then none
      else if c = '-' then flagsFrom f false (c :: seen) cs
      else if c = 'i' then flagsFrom { f with anyCase := on } on (c :: seen) cs
      else if c = 'm' then flagsFrom { f with multiLine := on } on (c :: seen) cs
      else if c = 's' then flagsFrom { f with dotAll := on } on (c :: seen) cs
      else if c = 'U' ∨ c = 'u' ∨ c = 'R' then flagsFrom f on (c :: seen) cs
      else none

/-- May the name of a group be this? -/
def isGroupName (name : List Char) : Bool :=
  match name with
  | [] => false
  | c :: cs =>
      (c == '_' || isLetter c) &&
        cs.all fun d => d == '_' || d == '.' || d == '[' || d == ']' || isAlphanumeric d

/-- How a group starts: with a name, plain, with flags for itself, or as flags for what
follows. -/
inductive GroupHead where
  | named (name : List Char)
  | plain (flags : Flags)
  | setting (flags : Flags)
  deriving DecidableEq, Repr

def groupName (cs : List Char) : Option (GroupHead × List Char) :=
  match cs.dropWhile (· != '>') with
  | _ :: after =>
      let name := cs.takeWhile (· != '>')
      if isGroupName name then some (.named name, after) else none
  | [] => none

/-- Reads the head of a group after its parenthesis. -/
def groupHead (f : Flags) (cs : List Char) : Option (GroupHead × List Char) :=
  match cs with
  | '?' :: 'P' :: '<' :: rest => groupName rest
  | '?' :: '<' :: rest => groupName rest
  | '?' :: rest =>
      match flagsFrom f true [] rest with
      | some (g, seen, ')' :: after) =>
          if seen.isEmpty || seen.head? == some '-' then none else some (.setting g, after)
      | some (g, seen, ':' :: after) =>
          if seen.head? == some '-' then none else some (.plain g, after)
      | _ => none
  | _ => some (.plain f, cs)

def ofChar (f : Flags) (c : Char) : Pattern :=
  if f.anyCase then
    one (.anyCase ((spellings c).foldl (fun s d => .union s (.single d)) .none))
  else one (.single c)

/-- The pattern of the items of one alternative, the last item first. -/
def ofItems (items : List (Option Pattern)) : Pattern :=
  items.foldl
    (fun tail item =>
      match item with
      | some a => if tail = empty then a else seq a tail
      | none => tail) empty

/-- Adds a finished alternative. -/
def addBranch (done : Option Pattern) (items : List (Option Pattern)) : Option Pattern :=
  match done with
  | none => some (ofItems items)
  | some a => some (alt a (ofItems items))

/-- What has been read of a group: the flags in force, the names of all groups so far, the
finished alternatives, and the items of the last one, the last item first; an item that is no
pattern is a setting of flags. -/
structure Reading where
  flags : Flags
  names : List (List Char)
  done : Option Pattern
  items : List (Option Pattern)
  deriving Inhabited

def Reading.push (r : Reading) (a : Pattern) : Reading :=
  { r with items := some a :: r.items }

def ofEscape (f : Flags) : Escape → Pattern
  | .char c => ofChar f c
  | .set s => one s
  | .anchor a => assert a

/-- Reads a single element that is no group and no operator. -/
def element (f : Flags) (cs : List Char) : Option (Pattern × List Char) :=
  match cs with
  | [] => none
  | '.' :: rest => some (one (if f.dotAll then .compl .none else .compl (.single '\n')), rest)
  | '^' :: rest => some (assert (if f.multiLine then .lineStart else .textStart), rest)
  | '$' :: rest => some (assert (if f.multiLine then .lineEnd else .textEnd), rest)
  | '\\' :: rest => (escape rest).map fun e => (ofEscape f e.1, e.2)
  | '[' :: rest => (charClass f.anyCase (rest.length + 2) rest).map fun s => (one s.1, s.2)
  | c :: rest => some (ofChar f c, rest)

/-- Reads alternatives up to the end of the text or an unmatched closing parenthesis. Every step
takes a character, so `fuel` beyond the length of the text is never used up. -/
def alternatives : (fuel : Nat) → Reading → List Char → Option (Reading × List Char)
  | 0, _, _ => none
  | fuel + 1, r, cs =>
      match cs with
      | [] => some (r, [])
      | ')' :: _ => some (r, cs)
      | '|' :: rest =>
          alternatives fuel { r with done := addBranch r.done r.items, items := [] } rest
      | '(' :: rest =>
          match groupHead r.flags rest with
          | none => none
          | some (.setting f, after) =>
              alternatives fuel { r with flags := f, items := none :: r.items } after
          | some (head, after) =>
              let opened : Option Reading :=
                match head with
                | .named name =>
                    if r.names.contains name then none
                    else some ⟨r.flags, name :: r.names, none, []⟩
                | .plain f => some ⟨f, r.names, none, []⟩
                | .setting f => some ⟨f, r.names, none, []⟩
              match opened with
              | none => none
              | some inner =>
                  match alternatives fuel inner after with
                  | some (inside, ')' :: after) =>
                      let group := (addBranch inside.done inside.items).getD empty
                      alternatives fuel { r.push group with names := inside.names } after
                  | _ => none
      | _ =>
          match repetition? cs with
          | none => none
          | some (some (b, rest)) =>
              match r.items with
              | some a :: items =>
                  alternatives fuel { r with items := some (b.repeat a) :: items } rest
              | _ => none
          | some none =>
              match element r.flags cs with
              | some (a, rest) => alternatives fuel (r.push a) rest
              | none => none

/-- Reads a pattern; none when the text is not one. -/
def parse? (text : String) : Option Pattern :=
  let cs := text.toList
  match alternatives (cs.length + 1) ⟨{}, [], none, []⟩ cs with
  | some (r, []) => addBranch r.done r.items
  | _ => none

/-- Does the text hold a match of the pattern? Text that is no pattern matches nothing. -/
def searches (pattern text : String) : Bool :=
  match parse? pattern with
  | some a => a.occurs text.toList
  | none => false

end SiteConf.Text.Pattern
