import SiteConf.KeyPath
import SiteConf.Ordered

set_option autoImplicit false

/-! # The configuration tree

Scalars are texts, integers and truth values; a node of the tree is a scalar, a sequence of
nodes or a mapping from keys to nodes. Mappings keep the order of their source text. -/

namespace SiteConf

/-- A value without parts. -/
inductive Scalar where
  | str (text : String)
  | int (value : Int)
  | bool (value : Bool)
  deriving DecidableEq, Repr, Inhabited

def Scalar.text : Scalar → String
  | .str s => s
  | .int n => Number.showInt n
  | .bool true => "true"
  | .bool false => "false"

/-- A node of the configuration. -/
inductive Tree where
  | scalar (value : Scalar)
  | sequence (items : List Tree)
  | mapping (fields : List (String × Tree))
  deriving Repr, Inhabited

namespace Tree

def get? (key : String) : Tree → Option Tree
  | mapping fields => Ordered.get? key fields
  | _ => none

/-- Texts and integers need no writer of their own; truth values and containers do. -/
def isPlain : Tree → Bool
  | scalar (.str _) => true
  | scalar (.int _) => true
  | _ => false

/-- The items of a sequence; anything else, and nothing at all, has none. -/
def itemsOf : Option Tree → List Tree
  | some (sequence items) => items
  | _ => []

/-! ## The names of the fields -/

mutual

/-- The keys of all mappings in the tree, in document order and with repetitions. -/
def fieldNames : Tree → List String
  | scalar _ => []
  | sequence items => fieldNamesOfItems items
  | mapping fields => fieldNamesOfFields fields

def fieldNamesOfItems : List Tree → List String
  | [] => []
  | t :: ts => fieldNames t ++ fieldNamesOfItems ts

def fieldNamesOfFields : List (String × Tree) → List String
  | [] => []
  | (k, t) :: rest => k :: fieldNames t ++ fieldNamesOfFields rest

end

/-! ## Steps into a tree -/

/-- A step from a node to one of its parts. -/
inductive Step where
  | key (name : String)
  | index (position : Nat)
  deriving DecidableEq, Repr

def at? : List Step → Tree → Option Tree
  | [], t => some t
  | .key k :: path, mapping fields => (Ordered.get? k fields).bind (at? path)
  | .index i :: path, sequence items => (items[i]?).bind (at? path)
  | _ :: _, _ => none

/-- Changes the node that the steps lead to; none when there is no such node or the change
does not apply to it. -/
def modify? (change : Tree → Option Tree) : List Step → Tree → Option Tree
  | [], t => change t
  | .key k :: path, mapping fields =>
      match Ordered.get? k fields with
      | some t => (modify? change path t).map fun t => mapping (Ordered.insert k t fields)
      | none => none
  | .index i :: path, sequence items =>
      match items[i]? with
      | some t => (modify? change path t).map fun t => sequence (items.set i t)
      | none => none
  | _ :: _, _ => none

def push? (item : Tree) : Tree → Option Tree
  | sequence items => some (sequence (items ++ [item]))
  | _ => none

def put? (key : String) (value : Tree) : Tree → Option Tree
  | mapping fields => some (mapping (Ordered.insert key value fields))
  | _ => none

end Tree

end SiteConf
