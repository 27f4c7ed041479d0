import SiteConf.Number.Binary64.Reader
import SiteConf.Text.Hex
import SiteConf.Text.Lines

set_option autoImplicit false

/-! # YAML scalars

A scalar is written plainly or in quotes. Quoted scalars are texts; what a plain one is depends on
its spelling. -/

namespace SiteConf.Yaml

inductive Scalar where
  | plain (text : List Char)
  | quoted (text : List Char)
  deriving DecidableEq, Repr, Inhabited

def Scalar.chars : Scalar → List Char
  | .plain cs => cs
  | .quoted cs => cs

/-- What a scalar stands for. An integer is `huge` if it needs more than 64 bits but no more than
128; beyond that it counts as a fraction. -/
inductive Atom where
  | null
  | bool (value : Bool)
  | int (value : Int)
  | huge
  | float (value : Number.Binary64)
  | str (text : String)
  deriving DecidableEq, Repr, Inhabited

/-! ## Integers -/

/-- The number that digits of a base denote. -/
def inBase? (base : Nat) (ds : List Char) : Option Nat :=
  if ds.isEmpty then none
  else (ds.mapM fun c => (Text.hexValue? c).bind fun d =>
    if d < base then some d else none).map fun vs => vs.foldl (fun n d => base * n + d) 0

/-- The digits after the mark of a base. -/
def based? (cs : List Char) : Option (Option Nat) :=
  match cs with
  | '0' :: 'x' :: ds => some (inBase? 16 ds)
  | '0' :: 'o' :: ds => some (inBase? 8 ds)
  | '0' :: 'b' :: ds => some (inBase? 2 ds)
  | _ => none

/-- Is it a run of digits with a zero too many at its start? Such a run is a text. -/
def hasLeadingZero (cs : List Char) : Bool :=
  let ds := match cs with
    | '-' :: rest => rest
    | '+' :: rest => rest
    | _ => cs
  match ds with
  | '0' :: d :: rest => (d :: rest).all Char.isDigit
  | _ => false

/-- The magnitude of an integer without its sign. -/
def magnitude? (cs : List Char) : Option Nat :=
  match based? cs with
  | some value => value
  | none => if hasLeadingZero cs then none else inBase? 10 cs

/-- Sorts an integer by its size: below 64 bits, below 128 bits, or none. -/
def sized (negative : Bool) (n : Nat) : Option Atom :=
  if negative then
    if n ≤ Nat.pow 2 63 then some (.int (-(n : Int)))
    else if n ≤ Nat.pow 2 127 then some .huge
    else none
  else if n < Nat.pow 2 64 then some (.int n)
  else if n < Nat.pow 2 128 then some .huge
  else none

def integer? (cs : List Char) : Option Atom :=
  match cs with
  | '-' :: ds => (magnitude? ds).bind (sized true)
  | '+' :: ds => (magnitude? ds).bind (sized false)
  | ds => (magnitude? ds).bind (sized false)

/-! ## Fractions -/

/-- Reads a fraction; one too large for a number is none. -/
def fraction? (cs : List Char) : Option Number.Binary64 :=
  let positive := match cs with
    | '+' :: rest => rest
    | _ => cs
  if [".inf", ".Inf", ".INF"].contains (String.ofList positive) then some (.infinite false)
  else if ["-.inf", "-.Inf", "-.INF"].contains (String.ofList cs) then some (.infinite true)
  else if [".nan", ".NaN", ".NAN"].contains (String.ofList cs) then some .nan
  else if cs.head? = some '+' && positive.head? = some '-' then none
  else
    match Number.readDecimal? positive with
    | some x => if x.isInfinite then none else some x
    | none => none

/-! ## Plain scalars -/

def plainAtom (cs : List Char) : Atom :=
  let s := String.ofList cs
  if ["", "~", "null", "Null", "NULL"].contains s then .null
  else if ["true", "True", "TRUE"].contains s then .bool true
  else if ["false", "False", "FALSE"].contains s then .bool false
  else
    match integer? cs with
    | some a => a
    | none =>
        if hasLeadingZero cs then .str s
        else
          match fraction? cs with
          | some x => .float x
          | none => .str s

def Scalar.atom : Scalar → Atom
  | .plain cs => plainAtom cs
  | .quoted cs => .str (String.ofList cs)

end SiteConf.Yaml
