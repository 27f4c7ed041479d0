import SiteConf.Number.Decimal

set_option autoImplicit false

/-! # Binary floating point of 64 bits

A finite number is `mantissa * 2 ^ exponent` with a sign; mantissas have at most 53 bits, and
exponents start at -1074. Arithmetic is exact arithmetic followed by one rounding to the nearest
number, where a tie goes to the even mantissa (`ofRatio`). -/

namespace SiteConf.Number

/-- A binary floating-point number of 64 bits. -/
inductive Binary64 where
  | finite (negative : Bool) (mantissa : Nat) (exponent : Int)
  | infinite (negative : Bool)
  | nan
  deriving DecidableEq, Repr, Inhabited

namespace Binary64

def minExponent : Int := -1074

def maxExponent : Int := 971

/-! ## Rounding -/

/-- The quotient rounded to the nearest integer, ties to the even one. -/
def roundQuotient (num den : Nat) : Nat :=
  let q := num / den
  let twice := 2 * (num % den)
  if twice < den then q
  else if den < twice then q + 1
  else if q % 2 = 0 then q else q + 1

/-- The numerator and denominator of `(num / den) / 2 ^ e`. -/
def scaleDown (num den : Nat) (e : Int) : Nat × Nat :=
  match e with
  | .ofNat k => (num, den * Nat.pow 2 k)
  | .negSucc k => (num * Nat.pow 2 (k + 1), den)

/-- The exponent at which the mantissa of `num / den` has 53 bits, or the smallest one. -/
def exponentOf (num den : Nat) : Int :=
  let guess : Int := (Nat.log2 num : Int) - (Nat.log2 den : Int) - 52
  let scaled := scaleDown num den guess
  let e := if scaled.1 < Nat.pow 2 52 * scaled.2 then guess - 1 else guess
  max e minExponent

/-- The number nearest to `num / den`, with the given sign. -/
def ofRatio (negative : Bool) (num den : Nat) : Binary64 :=
  if num = 0 then .finite negative 0 minExponent
  else
    let e := exponentOf num den
    let scaled := scaleDown num den e
    let m := roundQuotient scaled.1 scaled.2
    let rounded : Nat × Int := if m = Nat.pow 2 53 then (Nat.pow 2 52, e + 1) else (m, e)
    if maxExponent < rounded.2 then .infinite negative
    else .finite negative rounded.1 rounded.2

/-- The number nearest to an integer. -/
def ofInt (n : Int) : Binary64 :=
  ofRatio (decide (n < 0)) n.natAbs 1

/-- The number nearest to `digits * 10 ^ e`. -/
def ofDecimal (negative : Bool) (digits : Nat) (e : Int) : Binary64 :=
  match e with
  | .ofNat k => ofRatio negative (digits * Nat.pow 10 k) 1
  | .negSucc k => ofRatio negative digits (Nat.pow 10 (k + 1))

/-- The numerator and denominator of a magnitude. -/
def ratio (mantissa : Nat) (exponent : Int) : Nat × Nat :=
  match exponent with
  | .ofNat k => (mantissa * Nat.pow 2 k, 1)
  | .negSucc k => (mantissa, Nat.pow 2 (k + 1))

def isZero : Binary64 → Bool
  | .finite _ m _ => m == 0
  | _ => false

def isInfinite : Binary64 → Bool
  | .infinite _ => true
  | _ => false

def neg : Binary64 → Binary64
  | .finite s m e => .finite (!s) m e
  | .infinite s => .infinite (!s)
  | .nan => .nan

/-- The product of two magnitudes, of which the second is finite and not zero. -/
def timesMagnitude (x y : Binary64) : Binary64 :=
  match x, y with
  | .finite s m e, .finite _ n f =>
      let a := ratio m e
      let b := ratio n f
      ofRatio s (a.1 * b.1) (a.2 * b.2)
  | other, _ => other

/-- The quotient of two magnitudes, of which the second is finite and not zero. -/
def overMagnitude (x y : Binary64) : Binary64 :=
  match x, y with
  | .finite s m e, .finite _ n f =>
      let a := ratio m e
      let b := ratio n f
      ofRatio s (a.1 * b.2) (a.2 * b.1)
  | other, _ => other

/-! ## The shortest decimal

A number is written with the fewest digits that read back as the same number, and of those with
the digits nearest to it, the larger ones in a tie. -/

/-- The reals that round to a number, as numerators over one denominator: the lower end, the
number and the upper end. The gap below a power of two is half as wide as the one above. -/
structure Interval where
  low : Nat
  value : Nat
  high : Nat
  den : Nat
  closed : Bool
  deriving Repr, Inhabited

/-- The interval of a positive magnitude. -/
def interval (mantissa : Nat) (exponent : Int) : Interval :=
  let narrow := mantissa = Nat.pow 2 52 ∧ minExponent < exponent
  let low := if narrow then 4 * mantissa - 1 else 4 * mantissa - 2
  let unit := ratio 1 (exponent - 2)
  ⟨low * unit.1, 4 * mantissa * unit.1, (4 * mantissa + 2) * unit.1, unit.2, mantissa % 2 = 0⟩

/-- Does `d * num / den` lie in the interval? -/
def Interval.holds (i : Interval) (d num den : Nat) : Bool :=
  let x := d * num * i.den
  if i.closed then decide (i.low * den ≤ x) && decide (x ≤ i.high * den)
  else decide (i.low * den < x) && decide (x < i.high * den)

/-- The power of ten `10 ^ e` as numerator and denominator. -/
def powerOfTen (e : Int) : Nat × Nat :=
  match e with
  | .ofNat k => (Nat.pow 10 k, 1)
  | .negSucc k => (1, Nat.pow 10 (k + 1))

/-- The better one of the two multiples of `10 ^ e` next to the number, if one of them reads
back. -/
def Interval.candidate (i : Interval) (e : Int) : Option Nat :=
  let step := powerOfTen e
  let below := i.value * step.2 / (i.den * step.1)
  let above := below + 1
  match i.holds below step.1 step.2, i.holds above step.1 step.2 with
  | true, false => some below
  | false, true => some above
  | false, false => none
  | true, true =>
      if (below + above) * step.1 * i.den ≤ 2 * i.value * step.2 then some above else some below

/-- The shortest candidate, tried with `digits` and more digits; the number is below
`10 ^ magnitude`. -/
def Interval.shortestFrom (i : Interval) (magnitude : Int) : (fuel digits : Nat) → Nat × Int
  | 0, _ => (0, 0)
  | fuel + 1, digits =>
      let e := magnitude - digits
      match i.candidate e with
      | some d => (d, e)
      | none => i.shortestFrom magnitude fuel (digits + 1)

/-- The least `k` with `num / den < 10 ^ k`, searched upwards from a lower bound. -/
def magnitudeFrom (num den : Nat) : (fuel : Nat) → Int → Int
  | 0, k => k
  | fuel + 1, k =>
      let p := powerOfTen k
      if num * p.2 < den * p.1 then k else magnitudeFrom num den fuel (k + 1)

/-- The digits of a positive magnitude and the power of ten they count. -/
def shortest (mantissa : Nat) (exponent : Int) : Nat × Int :=
  let i := interval mantissa exponent
  -- 3/10 is just below the decimal logarithm of 2, and 4/10 is above it.
  let bits : Int := (Nat.log2 mantissa : Int) + exponent
  let start : Int := if bits < 0 then bits * 4 / 10 - 1 else bits * 3 / 10
  i.shortestFrom (magnitudeFrom i.value i.den 800 start) 17 1

/-- Takes the trailing zeros off a run of digits; also returns how many there were. -/
def stripZeros (ds : List Char) : List Char × Nat :=
  let zeros := (ds.reverse.takeWhile (· == '0')).length
  (ds.take (ds.length - zeros), zeros)

/-- The text of `digits * 10 ^ e` without an exponent. -/
def positional (digits : Nat) (e : Int) : List Char :=
  let stripped := stripZeros (Number.digits digits)
  match e + (stripped.2 : Int) with
  | .ofNat k => stripped.1 ++ List.replicate k '0'
  | .negSucc k =>
      let places := k + 1
      let padded := List.replicate (places + 1 - stripped.1.length) '0' ++ stripped.1
      padded.take (padded.length - places) ++ '.' :: padded.drop (padded.length - places)

/-- A number in decimal: positional, the fewest digits that read back, no point when it is an
integer, and the sign also on zero. -/
def text (x : Binary64) : String :=
  match x with
  | .nan => "NaN"
  | .infinite s => if s then "-inf" else "inf"
  | .finite s m e =>
      let body := if m = 0 then ['0'] else
        let d := shortest m e
        positional d.1 d.2
      String.ofList (if s then '-' :: body else body)

end Binary64

end SiteConf.Number
