import SiteConf.Json.Numeral
import SiteConf.Text.Hex

set_option autoImplicit false

/-! # Reading JSON

A strict reader: no comments, no trailing commas, no control characters in strings, and every
escaped surrogate has its partner. -/

namespace SiteConf.Json

/-- Drops spaces, tabs, newlines and carriage returns. -/
def skipSpace (cs : List Char) : List Char :=
  cs.dropWhile fun c => c == ' ' || c == '\n' || c == '\t' || c == '\r'

/-! ## Strings -/

def shortEscape? (c : Char) : Option Char :=
  if c = '"' ∨ c = '\\' ∨ c = '/' then some c
  else if c = 'b' then some (Char.ofNat 8)
  else if c = 'f' then some (Char.ofNat 12)
  else if c = 'n' then some '\n'
  else if c = 'r' then some '\r'
  else if c = 't' then some '\t'
  else none

/-- Reads a string after its opening quote: the characters and what follows the closing quote.
`high` is the first half of a surrogate pair whose second half has to follow. -/
def stringTail : (high : Option Nat) → List Char → Option (List Char × List Char)
  | _, [] => none
  | some h, '\\' :: 'u' :: a :: b :: c :: d :: cs =>
      match Text.ofHex? [a, b, c, d] with
      | none => none
      | some n =>
          if Text.isLowHalf n then
            (stringTail none cs).map fun r => (Text.joinHalves h n :: r.1, r.2)
          else none
  | some _, _ => none
  | none, '"' :: cs => some ([], cs)
  | none, '\\' :: 'u' :: a :: b :: c :: d :: cs =>
      match Text.ofHex? [a, b, c, d] with
      | none => none
      | some n =>
          if Text.isHighHalf n then stringTail (some n) cs
          else if Text.isLowHalf n then none
          else (stringTail none cs).map fun r => (Char.ofNat n :: r.1, r.2)
  | none, '\\' :: e :: cs =>
      match shortEscape? e with
      | none => none
      | some c => (stringTail none cs).map fun r => (c :: r.1, r.2)
  | none, c :: cs =>
      if c.toNat < 32 ∨ c = '\\' then none
      else (stringTail none cs).map fun r => (c :: r.1, r.2)

/-! ## Numbers -/

def exponentPart (cs : List Char) : Option (Option (Bool × List Char) × List Char) :=
  match cs with
  | c :: rest =>
      if c = 'e' ∨ c = 'E' then
        let signed : Bool × List Char :=
          match rest with
          | '-' :: ds => (true, ds)
          | '+' :: ds => (false, ds)
          | _ => (false, rest)
        let ds := signed.2.takeWhile Char.isDigit
        if ds.isEmpty then none
        else some (some (signed.1, ds), signed.2.dropWhile Char.isDigit)
      else some (none, cs)
  | [] => some (none, [])

def fractionPart (cs : List Char) : Option (Option (List Char) × List Char) :=
  match cs with
  | '.' :: rest =>
      let ds := rest.takeWhile Char.isDigit
      if ds.isEmpty then none else some (some ds, rest.dropWhile Char.isDigit)
  | _ => some (none, cs)

def number (cs : List Char) : Option (Json × List Char) := do
  let signed : Bool × List Char :=
    match cs with
    | '-' :: rest => (true, rest)
    | _ => (false, cs)
  let ds := signed.2.takeWhile Char.isDigit
  if ds.isEmpty || (decide (1 < ds.length) && ds.head? == some '0') then none
  else
    let (fraction, rest) ← fractionPart (signed.2.dropWhile Char.isDigit)
    let (exponent, rest) ← exponentPart rest
    let value ← Numeral.value? ⟨signed.1, ds, fraction, exponent⟩
    return (value, rest)

/-! ## Values -/

/-- Reads the items of an array after the first bracket or a comma. -/
def arrayTail (value : List Char → Option (Json × List Char)) :
    (fuel : Nat) → List Char → Option (List Json × List Char)
  | 0, _ => none
  | fuel + 1, cs => do
      let (v, rest) ← value cs
      match skipSpace rest with
      | ',' :: rest =>
          let (vs, rest) ← arrayTail value fuel rest
          return (v :: vs, rest)
      | ']' :: rest => return ([v], rest)
      | _ => none

/-- Reads the members of an object after the first brace or a comma. -/
def objectTail (value : List Char → Option (Json × List Char)) :
    (fuel : Nat) → List Char → Option (List (String × Json) × List Char)
  | 0, _ => none
  | fuel + 1, cs => do
      match skipSpace cs with
      | '"' :: rest =>
          let (name, rest) ← stringTail none rest
          match skipSpace rest with
          | ':' :: rest =>
              let (v, rest) ← value rest
              match skipSpace rest with
              | ',' :: rest =>
                  let (ms, rest) ← objectTail value fuel rest
                  return ((String.ofList name, v) :: ms, rest)
              | '}' :: rest => return ([(String.ofList name, v)], rest)
              | _ => none
          | _ => none
      | _ => none

/-- Reads a value. Every value takes a character, so `fuel` beyond the length of the text is
never used up. -/
def value : (fuel : Nat) → List Char → Option (Json × List Char)
  | 0, _ => none
  | fuel + 1, cs =>
      match skipSpace cs with
      | 'n' :: 'u' :: 'l' :: 'l' :: rest => some (.null, rest)
      | 't' :: 'r' :: 'u' :: 'e' :: rest => some (.bool true, rest)
      | 'f' :: 'a' :: 'l' :: 's' :: 'e' :: rest => some (.bool false, rest)
      | '"' :: rest => (stringTail none rest).map fun r => (.str (String.ofList r.1), r.2)
      | '[' :: rest =>
          match skipSpace rest with
          | ']' :: rest => some (.array [], rest)
          | other =>
              (arrayTail (value fuel) (other.length + 1) other).map fun r => (.array r.1, r.2)
      | '{' :: rest =>
          match skipSpace rest with
          | '}' :: rest => some (.object [], rest)
          | other =>
              (objectTail (value fuel) (other.length + 1) other).map fun r => (.object r.1, r.2)
      | other => number other

/-- Reads a text that holds one value and nothing else. -/
def parse? (text : String) : Option Json :=
  let cs := text.toList
  match value (cs.length + 1) cs with
  | some (v, rest) => if (skipSpace rest).isEmpty then some v else none
  | none => none

end SiteConf.Json
