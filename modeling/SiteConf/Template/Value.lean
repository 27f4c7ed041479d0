import SiteConf.Document
import SiteConf.Number.Decimal
import SiteConf.Template.Fault
import SiteConf.Text.Quoted

set_option autoImplicit false

/-! # Values of templates

Templates work on dynamic values. Namespaces, loops, macros and writer sinks live in the machine
that runs the template; a value names them by their number. -/

namespace SiteConf.Template

/-- A value. `arguments` are arguments by name, which a callee gets as its last argument. -/
inductive Value where
  | undefined
  | none
  | bool (value : Bool)
  | int (value : Int)
  | str (text : String)
  | seq (items : List Value)
  | map (pairs : List (Value × Value))
  | arguments (named : List (String × Value))
  | space (number : Nat)
  | macroRef (name : String) (number : Nat)
  | sink (number : Nat)
  | loop (number : Nat)
  | noop
  | walk
  | makeSpace
  deriving Repr, Inhabited

namespace Value

/-! ## Kinds -/

/-- The kinds of values in their order. -/
inductive Kind where
  | undefined
  | none
  | bool
  | number
  | string
  | sequence
  | mapping
  | plain
  deriving DecidableEq, Repr

def Kind.rank : Kind → Nat
  | .undefined => 0
  | .none => 1
  | .bool => 2
  | .number => 3
  | .string => 4
  | .sequence => 5
  | .mapping => 6
  | .plain => 7

/-- The kind of a value. Sinks and built-in functions count as mappings that cannot be listed. -/
def kind : Value → Kind
  | undefined => .undefined
  | none => .none
  | bool _ => .bool
  | int _ => .number
  | str _ => .string
  | seq _ => .sequence
  | map _ => .mapping
  | arguments _ => .mapping
  | space _ => .mapping
  | macroRef _ _ => .plain
  | sink _ => .mapping
  | loop _ => .plain
  | noop => .mapping
  | walk => .mapping
  | makeSpace => .plain

def isUndefined : Value → Bool
  | undefined => true
  | _ => false

/-- Is the value undefined or none? -/
def isAbsent : Value → Bool
  | undefined => true
  | none => true
  | _ => false

/-- Does the value count as true in a condition? -/
def isTrue : Value → Bool
  | undefined => false
  | none => false
  | bool b => b
  | int n => n != 0
  | str s => !s.toList.isEmpty
  | seq items => !items.isEmpty
  | map pairs => !pairs.isEmpty
  | arguments named => !named.isEmpty
  | _ => true

/-- The integer that a number or truth value stands for. -/
def int? : Value → Option Int
  | int n => some n
  | bool true => some 1
  | bool false => some 0
  | _ => Option.none

/-! ## Values of a configuration -/

def ofScalar : Scalar → Value
  | .str s => str s
  | .int n => int n
  | .bool b => bool b

mutual

def ofTree : Tree → Value
  | .scalar v => ofScalar v
  | .sequence items => seq (ofItems items)
  | .mapping fields => map (ofFields fields)

def ofItems : List Tree → List Value
  | [] => []
  | t :: ts => ofTree t :: ofItems ts

def ofFields : List (String × Tree) → List (Value × Value)
  | [] => []
  | (k, t) :: rest => (str k, ofTree t) :: ofFields rest

end

def ofOrigins (o : Origins) : Value :=
  map (o.entries.map fun e => (str e.1, int e.2))

/-! ## Printing -/

mutual

/-- A value inside a list or mapping: texts are quoted. -/
def inner : Value → String
  | undefined => "undefined"
  | none => "None"
  | bool true => "True"
  | bool false => "False"
  | int n => Number.showInt n
  | str s => Text.quoted s
  | seq items => "[" ++ String.intercalate ", " (innerItems items) ++ "]"
  | map pairs => "\x7b" ++ String.intercalate ", " (innerPairs pairs) ++ "\x7d"
  | arguments named => "\x7b" ++ String.intercalate ", " (innerNamed named) ++ "\x7d"
  | macroRef name _ => "<macro " ++ name ++ ">"
  | loop _ => "<loop>"
  | space _ => "\x7b\x7d"
  | sink _ => "\x7b\x7d"
  | noop => "\x7b\x7d"
  | walk => "\x7b\x7d"
  | makeSpace => "<function>"

def innerItems : List Value → List String
  | [] => []
  | v :: vs => inner v :: innerItems vs

def innerPairs : List (Value × Value) → List String
  | [] => []
  | (k, v) :: rest => (inner k ++ ": " ++ inner v) :: innerPairs rest

def innerNamed : List (String × Value) → List String
  | [] => []
  | (k, v) :: rest => (Text.quoted k ++ ": " ++ inner v) :: innerNamed rest

end

/-- The text of a value: undefined is empty, and a text stands for itself. -/
def text : Value → String
  | undefined => ""
  | str s => s
  | v => inner v

/-! ## Comparing -/

mutual

/-- Are two values equal? Truth values equal their integers, and the order of a mapping does not
matter. -/
def equal : Value → Value → Bool
  | undefined, v => v.isUndefined
  | none, none => true
  | bool a, v => v.int? == some (if a then 1 else 0)
  | int a, v => v.int? == some a
  | str a, str b => a == b
  | seq as, seq bs => equalItems as bs
  | map as, map bs => as.length == bs.length && equalPairs as bs
  | space a, space b => a == b
  | macroRef _ a, macroRef _ b => a == b
  | sink a, sink b => a == b
  | noop, noop => true
  | walk, walk => true
  | _, _ => false

def equalItems : List Value → List Value → Bool
  | [], [] => true
  | a :: as, b :: bs => equal a b && equalItems as bs
  | _, _ => false

/-- Is every pair of the first mapping in the second? -/
def equalPairs : List (Value × Value) → List (Value × Value) → Bool
  | [], _ => true
  | (k, v) :: rest, bs => bs.any (fun p => equal k p.1 && equal v p.2) && equalPairs rest bs

end

/-- The order of two texts, by code points. -/
def compareText (a b : String) : Ordering :=
  if a < b then .lt else if b < a then .gt else .eq

mutual

/-- The order of two values: by their kinds first. -/
def order : Value → Value → Ordering
  | bool a, v => (compare 2 v.kind.rank).then
      (compare (if a then 1 else 0) (v.int?.getD 0))
  | int a, v => (compare 3 v.kind.rank).then (compare a (v.int?.getD 0))
  | str a, str b => compareText a b
  | seq as, seq bs => orderItems as bs
  | map as, map bs => orderPairs as bs
  | a, b => compare a.kind.rank b.kind.rank

/-- The order of two lists: by the first items that differ, then by length. -/
def orderItems : List Value → List Value → Ordering
  | [], [] => .eq
  | [], _ :: _ => .lt
  | _ :: _, [] => .gt
  | a :: as, b :: bs => (order a b).then (orderItems as bs)

/-- The order of two mappings: pair by pair. -/
def orderPairs : List (Value × Value) → List (Value × Value) → Ordering
  | [], [] => .eq
  | [], _ :: _ => .lt
  | _ :: _, [] => .gt
  | (k, v) :: as, (l, w) :: bs => ((order k l).then (order v w)).then (orderPairs as bs)

end

/-! ## Parts -/

def find? (key : Value) : List (Value × Value) → Option Value
  | [] => Option.none
  | (k, v) :: rest => if equal k key then some v else find? key rest

/-- Puts a value under a key: in the place of an equal key, else at the end. -/
def put (key value : Value) : List (Value × Value) → List (Value × Value)
  | [] => [(key, value)]
  | (k, v) :: rest => if equal k key then (k, value) :: rest else (k, v) :: put key value rest

/-- The place that an index means in a list; negative ones count from the end. -/
def place? (index : Value) (length : Nat) : Option Nat :=
  match index.int? with
  | some (.ofNat n) => some n
  | some (.negSucc n) => if n + 1 ≤ length then some (length - (n + 1)) else Option.none
  | Option.none => Option.none

/-- The values that a loop over the value runs through, none when it cannot be looped over: the
items of a list, the keys of a mapping, the characters of a text. -/
def items? : Value → Option (List Value)
  | undefined => some []
  | none => some []
  | str s => some (s.toList.map fun c => str (String.ofList [c]))
  | seq items => some items
  | map pairs => some (pairs.map (·.1))
  | arguments named => some (named.map fun a => str a.1)
  | _ => Option.none

end Value

end SiteConf.Template
