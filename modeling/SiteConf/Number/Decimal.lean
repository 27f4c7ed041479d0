set_option autoImplicit false

/-! # Decimal integers

Writing natural numbers and integers in decimal, and reading a run of decimal digits back. The
integers of the configuration language are those of 64 bits with a sign. -/

namespace SiteConf.Number

/-- The decimal digit of value `n` below 10. -/
def digitChar (n : Nat) : Char :=
  Char.ofNat (48 + n)

def digitValue (c : Char) : Nat :=
  c.toNat - 48

/-- Decimal digits of `n`, with enough `fuel` for all of them. -/
def digitsUpTo : Nat → Nat → List Char
  | 0, _ => []
  | fuel + 1, n =>
      if n < 10 then [digitChar n] else digitsUpTo fuel (n / 10) ++ [digitChar (n % 10)]

/-- The decimal digits of `n`, without leading zeros. -/
def digits (n : Nat) : List Char :=
  digitsUpTo (n + 1) n

/-- The number that a run of decimal digits denotes. -/
def ofDigits (cs : List Char) : Nat :=
  cs.foldl (fun n c => 10 * n + digitValue c) 0

def showNat (n : Nat) : String :=
  String.ofList (digits n)

/-- An integer in decimal, with a leading minus when it is negative. -/
def showInt : Int → String
  | .ofNat n => showNat n
  | .negSucc n => "-" ++ showNat (n + 1)

/-! ## The range of 64 bits -/

def maxInt : Int := 9223372036854775807

def minInt : Int := -9223372036854775808

/-- Does the integer fit in 64 bits with a sign? -/
def fits (n : Int) : Bool :=
  decide (minInt ≤ n) && decide (n ≤ maxInt)

theorem fits_iff {n : Int} : fits n = true ↔ minInt ≤ n ∧ n ≤ maxInt := by
  rw [fits, Bool.and_eq_true, decide_eq_true_eq, decide_eq_true_eq]

/-- Reads an integer of 64 bits: one optional sign and at least one decimal digit, nothing
else. Leading zeros are allowed. -/
def readInt? (cs : List Char) : Option Int :=
  let signed : Bool × List Char :=
    match cs with
    | '-' :: rest => (true, rest)
    | '+' :: rest => (false, rest)
    | _ => (false, cs)
  if !signed.2.isEmpty && signed.2.all Char.isDigit then
    let n : Int := if signed.1 then -(ofDigits signed.2 : Int) else ofDigits signed.2
    if fits n then some n else none
  else none

end SiteConf.Number
