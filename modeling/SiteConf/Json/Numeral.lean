import SiteConf.Json

set_option autoImplicit false

/-! # JSON numbers

A numeral is a sign, whole digits, and optionally a fraction and an exponent. Its digits make a
*significand* of at most 64 bits: whole digits that no longer fit count as a power of ten, digits
of the fraction that no longer fit are dropped. Without fraction and exponent a numeral that
fits is an integer; otherwise the significand is rounded, and multiplied or divided by the power
of ten, which rounds once more. A number beyond the largest finite one is an error. -/

namespace SiteConf.Json

structure Numeral where
  negative : Bool
  whole : List Char
  fraction : Option (List Char)
  exponent : Option (Bool × List Char)
  deriving DecidableEq, Repr, Inhabited

/-- One more than the largest significand. -/
def significandLimit : Nat := Nat.pow 2 64

/-- Takes digits into a significand as long as they fit: the significand, and how many digits
were taken and left. -/
def absorb (significand taken : Nat) : List Char → Nat × Nat × Nat
  | [] => (significand, taken, 0)
  | d :: ds =>
      let next := 10 * significand + Number.digitValue d
      if next < significandLimit then absorb next (taken + 1) ds
      else (significand, taken, ds.length + 1)

/-- The power of ten `10 ^ k` for `k` at most 308. -/
def tenTo (k : Nat) : Number.Binary64 :=
  Number.Binary64.ofDecimal false 1 k

/-- Divides by `10 ^ k`, in steps of at most 308 places. -/
def divideDown : (fuel : Nat) → Number.Binary64 → Nat → Number.Binary64
  | 0, x, _ => x
  | fuel + 1, x, k =>
      if x.isZero then x
      else if k ≤ 308 then x.overMagnitude (tenTo k)
      else divideDown fuel (x.overMagnitude (tenTo 308)) (k - 308)

/-- The number `significand * 10 ^ e`, if it is finite. -/
def compose (negative : Bool) (significand : Nat) (e : Int) : Option Number.Binary64 :=
  let x := Number.Binary64.ofRatio negative significand 1
  match e with
  | .ofNat k =>
      if k ≤ 308 then
        let y := x.timesMagnitude (tenTo k)
        if y.isInfinite then none else some y
      else if x.isZero then some x else none
  | .negSucc k => some (divideDown 8 x (k + 1))

/-- The largest exponent that is taken literally. -/
def exponentLimit : Nat := 2147483647

/-- The value of a numeral; none when it is too large. -/
def Numeral.value? (n : Numeral) : Option Json :=
  let whole := absorb 0 0 n.whole
  match n.fraction, n.exponent, whole.2.2 with
  | none, none, 0 =>
      if n.negative then
        if whole.1 = 0 ∨ 9223372036854775808 < whole.1 then
          some (.float (Number.Binary64.ofRatio true whole.1 1))
        else some (.int (-(whole.1 : Int)))
      else some (.int whole.1)
  | _, _, _ =>
      let fraction := absorb whole.1 0 (n.fraction.getD [])
      let shift : Int := (whole.2.2 : Int) - (fraction.2.1 : Int)
      match n.exponent with
      | none => (compose n.negative fraction.1 shift).map .float
      | some (down, ds) =>
          let e := Number.ofDigits ds
          if exponentLimit < e then
            if fraction.1 = 0 ∨ down then some (.float (.finite n.negative 0 (-1074)))
            else none
          else
            let total := if down then shift - e else shift + e
            (compose n.negative fraction.1 total).map .float

end SiteConf.Json
