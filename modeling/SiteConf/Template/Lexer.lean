import SiteConf.Number.Decimal
import SiteConf.Template.Fault
import SiteConf.Template.Lexeme
import SiteConf.Text.Blank
import SiteConf.Text.Hex
import SiteConf.Text.Lines

set_option autoImplicit false

/-! # Taking a template apart

Output tags are written between double braces, statement tags between a brace and a percent sign,
comments between a brace and a number sign. A statement tag or comment that starts a line takes
the white space before it along, and one newline after it. A hyphen next to a delimiter removes
all white space on its side, a plus sign keeps it all. -/

namespace SiteConf.Template

/-- The fault of a template that is not well formed. -/
def badSyntax : Fault := ⟨.badSyntax, none⟩

/-! ## Lexemes -/

/-- White space inside a tag. -/
def isTagSpace (c : Char) : Bool :=
  c == ' ' || c == '\t' || c == '\n' || c == '\r' || c.toNat == 12

def startsWord (c : Char) : Bool :=
  c.isAlpha || c == '_'

def continuesWord (c : Char) : Bool :=
  c.isAlphanum || c == '_'

def mark? (c : Char) : Option Mark :=
  if c = '+' then some .plus
  else if c = '-' then some .minus
  else if c = '*' then some .star
  else if c = '/' then some .slash
  else if c = '%' then some .percent
  else if c = '.' then some .dot
  else if c = ',' then some .comma
  else if c = ':' then some .colon
  else if c = '~' then some .tilde
  else if c = '|' then some .pipe
  else if c = '=' then some .assign
  else if c = '<' then some .lt
  else if c = '>' then some .gt
  else if c = '(' then some .lparen
  else if c = ')' then some .rparen
  else if c = '[' then some .lbracket
  else if c = ']' then some .rbracket
  else if c = '{' then some .lbrace
  else if c = '}' then some .rbrace
  else none

def wideMark? (c d : Char) : Option Mark :=
  if c = '/' ∧ d = '/' then some .doubleSlash
  else if c = '*' ∧ d = '*' then some .doubleStar
  else if c = '=' ∧ d = '=' then some .eq
  else if c = '!' ∧ d = '=' then some .ne
  else if c = '<' ∧ d = '=' then some .le
  else if c = '>' ∧ d = '=' then some .ge
  else none

/-- The characters of a string up to its closing quote, escapes untouched, and what follows. -/
def rawString (quote : Char) : List Char → Option (List Char × List Char)
  | [] => none
  | c :: cs =>
      if c = quote then some ([], cs)
      else if c = '\\' then
        match cs with
        | [] => none
        | d :: rest => (rawString quote rest).map fun r => (c :: d :: r.1, r.2)
      else (rawString quote cs).map fun r => (c :: r.1, r.2)

/-- The character of an escape of one letter. -/
def escaped? (c : Char) : Option Char :=
  if c = '"' ∨ c = '\\' ∨ c = '/' ∨ c.toNat = 39 then some c
  else if c = 'b' then some (Char.ofNat 8)
  else if c = 'f' then some (Char.ofNat 12)
  else if c = 'n' then some '\n'
  else if c = 'r' then some '\r'
  else if c = 't' then some '\t'
  else none

/-- Resolves the escapes of a string. `high` is the first half of a character whose second half
has to follow. -/
def unescape : (high : Option Nat) → List Char → Option (List Char)
  | none, [] => some []
  | some _, [] => none
  | some h, '\\' :: 'u' :: a :: b :: c :: d :: cs =>
      match Text.ofHex? [a, b, c, d] with
      | some n =>
          if Text.isLowHalf n then (unescape none cs).map (Text.joinHalves h n :: ·) else none
      | none => none
  | some _, _ => none
  | none, '\\' :: 'u' :: a :: b :: c :: d :: cs =>
      match Text.ofHex? [a, b, c, d] with
      | some n =>
          if Text.isHighHalf n then unescape (some n) cs
          else if Text.isLowHalf n then none
          else (unescape none cs).map (Char.ofNat n :: ·)
      | none => none
  | none, '\\' :: e :: cs =>
      match escaped? e with
      | some c => (unescape none cs).map (c :: ·)
      | none => none
  | none, c :: cs => if c = '\\' then none else (unescape none cs).map (c :: ·)

/-- The largest integer that can be written in a template. -/
def maxLiteral : Nat := 340282366920938463463374607431768211455

/-- Reads an integer. Fractions and exponents are no part of the language. -/
def integer (cs : List Char) : Except Fault (Lexeme × List Char) :=
  let ds := cs.takeWhile Char.isDigit
  let rest := cs.dropWhile Char.isDigit
  if rest.head? == some '.' || rest.head? == some 'e' || rest.head? == some 'E' then
    .error badSyntax
  else if maxLiteral < Number.ofDigits ds then .error badSyntax
  else .ok (.int (Number.ofDigits ds), rest)

/-- Reads the lexeme that starts with `c`. -/
def lexeme (c : Char) (cs : List Char) : Except Fault (Lexeme × List Char) :=
  match cs.head?.bind (wideMark? c) with
  | some m => .ok (.mark m, cs.drop 1)
  | none =>
      match mark? c with
      | some m => .ok (.mark m, cs)
      | none =>
          if c = '"' ∨ c.toNat = 39 then
            match rawString c cs with
            | none => .error badSyntax
            | some (raw, rest) =>
                match unescape none raw with
                | some content => .ok (.str (String.ofList content), rest)
                | none => .error ⟨.badEscape, none⟩
          else if c.isDigit then integer (c :: cs)
          else if startsWord c then
            .ok (.word (String.ofList (c :: cs.takeWhile continuesWord)),
              cs.dropWhile continuesWord)
          else .error badSyntax

/-! ## Tags -/

/-- What happens to the white space after a tag. -/
inductive Trim where
  | newline
  | all
  | keep
  deriving DecidableEq, Repr

inductive TagKind where
  | output
  | statement
  deriving DecidableEq, Repr

/-- The end of a tag, if the text starts with it. -/
def tagEnd? : TagKind → List Char → Option (Trim × List Char)
  | .statement, '-' :: '%' :: '}' :: rest => some (.all, rest)
  | .statement, '+' :: '%' :: '}' :: rest => some (.keep, rest)
  | .statement, '%' :: '}' :: rest => some (.newline, rest)
  | .output, '-' :: '}' :: '}' :: rest => some (.all, rest)
  | .output, '}' :: '}' :: rest => some (.keep, rest)
  | _, _ => none

/-- How a lexeme changes the number of open brackets. -/
def Lexeme.balance : Lexeme → Int
  | .mark .lparen | .mark .lbracket | .mark .lbrace => 1
  | .mark .rparen | .mark .rbracket | .mark .rbrace => -1
  | _ => 0

/-- Reads the lexemes of a tag up to its end, which is only looked for outside of brackets. Every
lexeme takes a character, so `fuel` beyond the length of the text is never used up. -/
def tagBody (kind : TagKind) : (fuel : Nat) → (opened : Int) → List Char →
    Except Fault (List Lexeme × Trim × List Char)
  | 0, _, _ => .error badSyntax
  | fuel + 1, opened, cs =>
      let cs := cs.dropWhile isTagSpace
      match if opened = 0 then tagEnd? kind cs else none with
      | some (trim, rest) => .ok ([], trim, rest)
      | none =>
          match cs with
          | [] => .error badSyntax
          | c :: cs =>
              match lexeme c cs with
              | .error e => .error e
              | .ok (l, rest) =>
                  match tagBody kind fuel (opened + l.balance) rest with
                  | .error e => .error e
                  | .ok (ls, trim, rest) => .ok (l :: ls, trim, rest)

/-! ## White space around tags -/

def isLineEnd (c : Char) : Bool :=
  c == '\n' || c == '\r'

/-- The text without the white space at the end of its last line. -/
def stripLine (cs : List Char) : List Char :=
  (cs.reverse.dropWhile fun c => Text.isBlank c && !isLineEnd c).reverse

/-- Is the last line of the text white space only? `fresh` says that the text starts a line. -/
def endsInBlankLine (fresh : Bool) (cs : List Char) : Bool :=
  match cs.reverse.dropWhile fun c => Text.isBlank c && !isLineEnd c with
  | [] => fresh
  | c :: _ => isLineEnd c

def dropLineEnd (cs : List Char) : List Char :=
  let afterReturn :=
    match cs with
    | '\r' :: rest => rest
    | _ => cs
  match afterReturn with
  | '\n' :: rest => rest
  | _ => afterReturn

/-- What follows a tag, and whether it starts a line. -/
def afterTag (trim : Trim) (cs : List Char) : List Char × Bool :=
  match trim with
  | .keep => (cs, false)
  | .newline => (dropLineEnd cs, decide ((dropLineEnd cs).length < cs.length))
  | .all => (cs.dropWhile Text.isBlank, (cs.takeWhile Text.isBlank).any isLineEnd)

/-- The sign next to an opening delimiter: what happens to the white space before the tag, and
what follows the sign. -/
def openingSign (cs : List Char) : Option Trim × List Char :=
  match cs with
  | '-' :: rest => (some .all, rest)
  | '+' :: rest => (some .keep, rest)
  | _ => (none, cs)

/-- The text before a tag, with the white space at its end treated as the sign says; without a
sign, statements and comments that start a line take the indentation along. -/
def leadBefore (sign : Option Trim) (strips fresh : Bool) (cs : List Char) : List Char :=
  match sign with
  | some .all => Text.trimEnd cs
  | some _ => cs
  | none => if strips && endsInBlankLine fresh cs then stripLine cs else cs

/-! ## Comments and verbatim text -/

/-- The text up to the first occurrence of two characters, and what follows them. -/
def splitAtPair (a b : Char) : List Char → Option (List Char × List Char)
  | [] => none
  | [_] => none
  | c :: d :: cs =>
      if c = a ∧ d = b then some ([], cs)
      else (splitAtPair a b (d :: cs)).map fun r => (c :: r.1, r.2)

def comment (cs : List Char) : Option (Trim × List Char) :=
  match splitAtPair '#' '}' cs with
  | none => none
  | some (body, rest) =>
      match body.getLast? with
      | some '-' => some (.all, rest)
      | some '+' => some (.keep, rest)
      | _ => some (.newline, rest)

/-- Reads the rest of a statement tag that holds the given word only. -/
def loneWord? (word : List Char) (cs : List Char) : Option (Trim × List Char) :=
  match Text.dropHead? word (cs.dropWhile isTagSpace) with
  | some rest => tagEnd? .statement (rest.dropWhile isTagSpace)
  | none => none

/-- The verbatim text up to its end tag: the text, the sign of the end tag, and what happens
after it. -/
def verbatim : List Char → Option (List Char × Option Trim × Trim × List Char)
  | [] => none
  | [_] => none
  | c :: d :: cs =>
      let closing :=
        if c = '{' ∧ d = '%' then
          loneWord? "endraw".toList (openingSign cs).2
        else none
      match closing with
      | some (trim, rest) => some ([], (openingSign cs).1, trim, rest)
      | none => (verbatim (d :: cs)).map fun r => (c :: r.1, r.2)

/-- Verbatim text with its ends trimmed. -/
def trimVerbatim (start : Trim) (sign : Option Trim) (cs : List Char) : List Char :=
  leadBefore sign true true (afterTag start cs).1

/-! ## Segments -/

def textSegment (cs : List Char) : List Segment :=
  if cs.isEmpty then [] else [.text (String.ofList cs)]

/-- The text up to the next opening delimiter, and the text from there on. -/
def splitLead : List Char → List Char × List Char
  | [] => ([], [])
  | [c] => ([c], [])
  | c :: d :: cs =>
      if c = '{' ∧ (d = '{' ∨ d = '%' ∨ d = '#') then ([], c :: d :: cs)
      else
        let r := splitLead (d :: cs)
        (c :: r.1, r.2)

/-- The segments of a template; `fresh` says that the text starts a line. Every round takes a
delimiter, so `fuel` beyond the length of the text is never used up. -/
def segmentsFrom : (fuel : Nat) → (fresh : Bool) → List Char → Except Fault (List Segment)
  | 0, _, _ => .error badSyntax
  | fuel + 1, fresh, cs =>
      let split := splitLead cs
      match split.2 with
      | '{' :: '{' :: body =>
          let sign := openingSign body
          match tagBody .output (sign.2.length + 1) 0 sign.2 with
          | .error e => .error e
          | .ok (ls, trim, rest) =>
              let next := afterTag trim rest
              (segmentsFrom fuel next.2 next.1).map fun segments =>
                textSegment (leadBefore sign.1 false fresh split.1) ++ .output ls :: segments
      | '{' :: '#' :: body =>
          let sign := openingSign body
          match comment sign.2 with
          | none => .error badSyntax
          | some (trim, rest) =>
              let next := afterTag trim rest
              (segmentsFrom fuel next.2 next.1).map fun segments =>
                textSegment (leadBefore sign.1 true fresh split.1) ++ segments
      | '{' :: '%' :: body =>
          let sign := openingSign body
          let lead := textSegment (leadBefore sign.1 true fresh split.1)
          match loneWord? "raw".toList sign.2 with
          | some (start, content) =>
              match verbatim content with
              | none => .error badSyntax
              | some (raw, endSign, trim, rest) =>
                  let next := afterTag trim rest
                  (segmentsFrom fuel next.2 next.1).map fun segments =>
                    lead ++ textSegment (trimVerbatim start endSign raw) ++ segments
          | none =>
              match tagBody .statement (sign.2.length + 1) 0 sign.2 with
              | .error e => .error e
              | .ok (ls, trim, rest) =>
                  let next := afterTag trim rest
                  (segmentsFrom fuel next.2 next.1).map fun segments =>
                    lead ++ .statement ls :: segments
      | _ => .ok (textSegment split.1)

def segments (source : String) : Except Fault (List Segment) :=
  segmentsFrom (source.toList.length + 1) true source.toList

end SiteConf.Template
