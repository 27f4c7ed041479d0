set_option autoImplicit false

/-! # Hexadecimal digits -/

namespace SiteConf.Text

/-- The digit of value `n` below 16, in lower case. -/
def hexDigit (n : Nat) : Char :=
  if n < 10 then Char.ofNat (48 + n) else Char.ofNat (87 + n)

/-- Hexadecimal digits of `n`, with enough `fuel` for all of them. -/
def hexUpTo : Nat → Nat → List Char
  | 0, _ => []
  | fuel + 1, n =>
      if n < 16 then [hexDigit n] else hexUpTo fuel (n / 16) ++ [hexDigit (n % 16)]

/-- The hexadecimal digits of `n`, without leading zeros. -/
def hex (n : Nat) : List Char :=
  hexUpTo (n + 1) n

/-- The value of a hexadecimal digit in either case. -/
def hexValue? (c : Char) : Option Nat :=
  if c.isDigit then some (c.toNat - 48)
  else if 'a' ≤ c ∧ c ≤ 'f' then some (c.toNat - 87)
  else if 'A' ≤ c ∧ c ≤ 'F' then some (c.toNat - 55)
  else none

/-- The number that hexadecimal digits denote. -/
def ofHex? (ds : List Char) : Option Nat :=
  if ds.isEmpty then none
  else (ds.mapM hexValue?).map fun vs => vs.foldl (fun n d => 16 * n + d) 0

/-! ## Halves of characters

Escapes by code write a character beyond the first plane as two halves, a high and a low one. -/

/-- Is the code the first half of a character? -/
def isHighHalf (n : Nat) : Bool :=
  decide (0xd800 ≤ n) && decide (n ≤ 0xdbff)

/-- Is the code the second half of a character? -/
def isLowHalf (n : Nat) : Bool :=
  decide (0xdc00 ≤ n) && decide (n ≤ 0xdfff)

/-- The character of two halves. -/
def joinHalves (high low : Nat) : Char :=
  Char.ofNat (0x10000 + 1024 * (high - 0xd800) + (low - 0xdc00))

end SiteConf.Text
