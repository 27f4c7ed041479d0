set_option autoImplicit false

/-! # Tables of code points

A character property is a table of inclusive ranges. Alternating runs, such as the capital and
small letters that take turns in the Latin blocks, are *striped* ranges that carry a step. The
tables of this library are those of Unicode 17, and start above ASCII: each property spells out its
ASCII part by itself, so that a proof about ASCII text never meets a table. -/

namespace SiteConf.Text

/-- Inclusive ranges of code points. -/
abbrev Ranges := List (Nat × Nat)

/-- Is the code point in one of the ranges? -/
def Ranges.mem (table : Ranges) (n : Nat) : Bool :=
  table.any fun r => decide (r.1 ≤ n) && decide (n ≤ r.2)

/-- Inclusive ranges of code points with a step: `(lo, hi, step)`. -/
abbrev Stripes := List (Nat × Nat × Nat)

/-- Is the code point one of those that a striped range steps on? -/
def Stripes.mem (table : Stripes) (n : Nat) : Bool :=
  table.any fun r => decide (r.1 ≤ n) && decide (n ≤ r.2.1) && (n - r.1) % r.2.2 == 0

end SiteConf.Text
