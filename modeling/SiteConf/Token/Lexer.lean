import SiteConf.Error
import SiteConf.Text.Blank
import SiteConf.Text.Numeral

set_option autoImplicit false

/-! # Reading tokens

Between tokens stand white space and comments, which run from `#` to the end of their line.
Texts are written between single or double quotes; a backslash in them starts an escape, and a
backslash at the end of a line continues the text on the next one. -/

namespace SiteConf.Token

/-! ## Between tokens -/

/-- The text after the white space and comments at its start, and the line it is then on. -/
def skipTrivia (inComment : Bool) (line : Nat) : List Char → List Char × Nat
  | [] => ([], line)
  | c :: cs =>
      if c = '\n' then skipTrivia false (line + 1) cs
      else if inComment || c == '#' then skipTrivia true line cs
      else if Text.isBlank c then skipTrivia false line cs
      else (c :: cs, line)

/-! ## The parts of a token -/

/-- What an escape adds to a text: `n`, `t` and `r` stand for controls, an escaped newline for
nothing, and every other character for itself. -/
def unescape (c : Char) : List Char :=
  if c = 'n' then ['\n']
  else if c = 't' then ['\t']
  else if c = 'r' then ['\r']
  else if c = '\n' then []
  else [c]

/-- Reads a text up to its closing quote: the text, what follows the quote, and the line there.
None when the text ends, or its line does, before the quote. -/
def stringBody (quote : Char) (line : Nat) : List Char → Option (List Char × List Char × Nat)
  | [] => none
  | c :: cs =>
      if c = quote then some ([], cs, line)
      else if c = '\\' then
        match cs with
        | [] => none
        | e :: rest =>
            (stringBody quote (if e = '\n' then line + 1 else line) rest).map
              fun r => (unescape e ++ r.1, r.2)
      else if c = '\n' then none
      else (stringBody quote line cs).map fun r => (c :: r.1, r.2)

/-- May an identifier start with this character? -/
def startsWord (c : Char) : Bool :=
  Text.isLetter c || c == '_'

/-- May an identifier go on with this character? -/
def continuesWord (c : Char) : Bool :=
  Text.isAlphanumeric c || c == '_'

/-- A word is a truth value or an identifier. -/
def ofWord (word : List Char) : TokenKind :=
  let text := String.ofList word
  if text = "true" ∨ text = "True" then .bool true
  else if text = "false" ∨ text = "False" then .bool false
  else .ident text

/-- The token of a run of digits that is followed by `rest`. -/
def ofNumber (run rest : List Char) : Except SyntaxIssue TokenKind :=
  let text := String.ofList run
  if rest.head?.any startsWord then .error (.malformedNumber text)
  else if (Number.ofDigits run : Int) ≤ Number.maxInt then .ok (.int (Number.ofDigits run))
  else .error (.numberRange text)

def punctuation? (c : Char) : Option TokenKind :=
  if c = '{' then some .lbrace
  else if c = '}' then some .rbrace
  else if c = '[' then some .lbracket
  else if c = ']' then some .rbracket
  else if c = ':' then some .colon
  else if c = ',' then some .comma
  else if c = '.' then some .dot
  else if c = '-' then some .minus
  else none

/-- Reads one token that starts with `c`: the token, what follows it, and the line there. -/
def lexeme (line : Nat) (c : Char) (cs : List Char) :
    Except SyntaxIssue (TokenKind × List Char × Nat) :=
  match punctuation? c with
  | some kind => .ok (kind, cs, line)
  | none =>
      if c = '"' ∨ c.toNat = 39 then
        match stringBody c line cs with
        | some (text, rest, line') => .ok (.str (String.ofList text), rest, line')
        | none => .error .unterminatedString
      else if c.isDigit then
        match ofNumber (c :: cs.takeWhile Char.isDigit) (cs.dropWhile Char.isDigit) with
        | .ok kind => .ok (kind, cs.dropWhile Char.isDigit, line)
        | .error issue => .error issue
      else if startsWord c then
        .ok (ofWord (c :: cs.takeWhile continuesWord), cs.dropWhile continuesWord, line)
      else .error (.unexpectedCharacter c)

/-! ## All tokens -/

/-- The tokens of a text that starts on the given line. Every token takes at least one
character, so `fuel` beyond the length of the text is never used up. -/
def scan : (fuel line : Nat) → List Char → Except Error (List Token)
  | 0, line, _ => .ok [⟨.eof, line⟩]
  | fuel + 1, line, cs =>
      match skipTrivia false line cs with
      | ([], line) => .ok [⟨.eof, line⟩]
      | (c :: rest, line) =>
          match lexeme line c rest with
          | .error issue => .error (.badSyntax (some line) issue)
          | .ok (kind, rest, line') =>
              match scan fuel line' rest with
              | .error e => .error e
              | .ok tokens => .ok (⟨kind, line⟩ :: tokens)

/-- The tokens of a text, ended by `eof`. -/
def tokenize (text : String) : Except Error (List Token) :=
  scan (text.toList.length + 1) 1 text.toList

end SiteConf.Token
