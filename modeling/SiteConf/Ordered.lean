set_option autoImplicit false

/-! # Tables in insertion order

A table from names to values whose entries keep the order in which their names first came in.
Inserting under a name that is there replaces the value and keeps the place. -/

namespace SiteConf

/-- Entries in insertion order. -/
abbrev Ordered (α : Type) := List (String × α)

namespace Ordered

variable {α : Type}

def get? (key : String) : Ordered α → Option α
  | [] => none
  | (k, v) :: rest => if k = key then some v else get? key rest

def contains (key : String) (table : Ordered α) : Bool :=
  (get? key table).isSome

/-- Puts a value under a name: in the place of the old value, else at the end. -/
def insert (key : String) (value : α) : Ordered α → Ordered α
  | [] => [(key, value)]
  | (k, v) :: rest =>
      if k = key then (key, value) :: rest else (k, v) :: insert key value rest

/-- Takes a name out; the other entries keep their order. -/
def erase (key : String) (table : Ordered α) : Ordered α :=
  table.filter fun entry => entry.1 ≠ key

def keys (table : Ordered α) : List String :=
  table.map (·.1)

def insertAll (entries : List (String × α)) (table : Ordered α) : Ordered α :=
  entries.foldl (fun t e => insert e.1 e.2 t) table

end Ordered

/-! ## Sets in insertion order -/

/-- The names of a list in the order of their first occurrence. -/
def distinct (names : List String) : List String :=
  names.foldl (fun seen n => if seen.contains n then seen else seen ++ [n]) []

end SiteConf
