import SiteConf.Template.Expr
import SiteConf.Template.Value
import SiteConf.Text.Lines

set_option autoImplicit false

/-! # Operators

Arithmetic works on integers of 128 bits, and truth values count as integers in it. Texts and
lists can be added to their like. All values can be compared. -/

namespace SiteConf.Template

/-- Does the integer fit in 128 bits with a sign? -/
def fitsWide (n : Int) : Bool :=
  decide (-170141183460469231731687303715884105728 ≤ n)
    && decide (n ≤ 170141183460469231731687303715884105727)

/-- An integer result, if it fits. -/
def wide (n : Int) : Except Fault Value :=
  if fitsWide n then .ok (.int n) else .error invalidOperation

def arithmetic (f : Int → Int → Option Int) (a b : Value) : Except Fault Value :=
  match a.int?, b.int? with
  | some m, some n =>
      match f m n with
      | some r => wide r
      | none => .error invalidOperation
  | _, _ => .error invalidOperation

/-- The sum of two numbers, or two texts or lists one after the other. -/
def add (a b : Value) : Except Fault Value :=
  match a, b with
  | .str s, .str t => .ok (.str (s ++ t))
  | .seq as, .seq bs => .ok (.seq (as ++ bs))
  | _, _ => arithmetic (fun m n => some (m + n)) a b

/-- Is the value in the container? A text holds the printed form of a value, a mapping its keys. -/
def contains (container value : Value) : Except Fault Value :=
  match container with
  | .undefined => .ok (.bool false)
  | .str s => .ok (.bool (Text.occursIn value.text.toList s.toList))
  | .seq items => .ok (.bool (items.any fun v => Value.equal v value))
  | .map pairs => .ok (.bool (Value.find? value pairs).isSome)
  | .none | .bool _ | .int _ => .error invalidOperation
  | _ => .ok (.bool false)

/-- The result of an operator. Division and remainder are such that the remainder is not
negative. -/
def BinaryOp.apply (op : BinaryOp) (a b : Value) : Except Fault Value :=
  match op with
  | .add => Template.add a b
  | .sub => arithmetic (fun m n => some (m - n)) a b
  | .mul => arithmetic (fun m n => some (m * n)) a b
  | .floorDiv => arithmetic (fun m n => if n = 0 then none else some (m / n)) a b
  | .rem => arithmetic (fun m n => if n = 0 then none else some (m % n)) a b
  | .concat => .ok (.str (a.text ++ b.text))
  | .eq => .ok (.bool (Value.equal a b))
  | .ne => .ok (.bool (!Value.equal a b))
  | .lt => .ok (.bool (Value.order a b == .lt))
  | .le => .ok (.bool (Value.order a b != .gt))
  | .gt => .ok (.bool (Value.order a b == .gt))
  | .ge => .ok (.bool (Value.order a b != .lt))
  | .isIn => contains b a

def negate (v : Value) : Except Fault Value :=
  match v with
  | .int n => wide (-n)
  | _ => .error invalidOperation

end SiteConf.Template
