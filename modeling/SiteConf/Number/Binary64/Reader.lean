import SiteConf.Number.Binary64
import SiteConf.Number.Decimal

set_option autoImplicit false

/-! # Reading decimal fractions

The notation is an optional minus, digits with an optional point among or around them, and an
optional exponent. The number is rounded correctly, however many digits there are. -/

namespace SiteConf.Number

/-- The exponent part of a decimal fraction, up to the end of the text. -/
def readExponent? : List Char → Option Int
  | [] => some 0
  | c :: cs =>
      if c = 'e' || c = 'E' then
        let signed : Bool × List Char :=
          match cs with
          | '-' :: rest => (true, rest)
          | '+' :: rest => (false, rest)
          | _ => (false, cs)
        if !signed.2.isEmpty && signed.2.all Char.isDigit then
          some (if signed.1 then -(ofDigits signed.2 : Int) else ofDigits signed.2)
        else none
      else none

/-- The number nearest to `digits * 10 ^ e`. Exponents far out of range need no power of ten. -/
def nearest (negative : Bool) (digits : List Char) (e : Int) : Binary64 :=
  let significant := digits.dropWhile (· = '0')
  let magnitude := e + significant.length
  if significant.isEmpty || magnitude < -400 then .finite negative 0 Binary64.minExponent
  else if 400 < magnitude then .infinite negative
  else Binary64.ofDecimal negative (ofDigits significant) e

def readDecimal? (cs : List Char) : Option Binary64 := do
  let (negative, cs) :=
    match cs with
    | '-' :: rest => (true, rest)
    | _ => (false, cs)
  let whole := cs.takeWhile Char.isDigit
  let (fraction, cs) :=
    match cs.dropWhile Char.isDigit with
    | '.' :: rest => (rest.takeWhile Char.isDigit, rest.dropWhile Char.isDigit)
    | rest => ([], rest)
  if whole.isEmpty && fraction.isEmpty then none
  let e ← readExponent? cs
  return nearest negative (whole ++ fraction) (e - fraction.length)

end SiteConf.Number
