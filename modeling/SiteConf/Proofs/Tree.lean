import SiteConf.Tree
import SiteConf.Proofs.Ordered

set_option autoImplicit false

/-! # The nodes of a tree

`Tree.nodes` lists the steps to all nodes of a tree, depth first and from left to right. Every
node that `Tree.at?` finds is in the list. -/

namespace SiteConf.Tree

/-! ## Listing the nodes -/

mutual

/-- The steps to the nodes of a tree that stands at `steps` in a larger one. -/
def nodes (steps : List Step) : Tree → List (List Step)
  | scalar _ => [steps]
  | sequence items => steps :: nodesOfItems steps 0 items
  | mapping fields => steps :: nodesOfFields steps fields

/-- The steps to the nodes of the items of a sequence from `index` on. -/
def nodesOfItems (steps : List Step) (index : Nat) : List Tree → List (List Step)
  | [] => []
  | t :: ts => nodes (steps ++ [.index index]) t ++ nodesOfItems steps (index + 1) ts

/-- The steps to the nodes of the entries of a mapping. -/
def nodesOfFields (steps : List Step) : List (String × Tree) → List (List Step)
  | [] => []
  | (k, t) :: rest => nodes (steps ++ [.key k]) t ++ nodesOfFields steps rest

end

/-! ## Finding nodes -/

@[simp] theorem at?_nil (t : Tree) : t.at? [] = some t := by
  cases t <;> rfl

theorem at?_key_cons (k : String) (path : List Step) (t : Tree) :
    t.at? (.key k :: path) = (t.get? k).bind (at? path) := by
  cases t <;> rfl

theorem at?_index_cons (i : Nat) (path : List Step) (t : Tree) :
    t.at? (.index i :: path) = ((itemsOf (some t))[i]?).bind (at? path) := by
  cases t with
  | scalar v => rfl
  | sequence items => rfl
  | mapping fields => rfl

@[simp] theorem at?_key (k : String) (t : Tree) : t.at? [.key k] = t.get? k := by
  rw [at?_key_cons]
  cases t.get? k with
  | none => rfl
  | some u => exact at?_nil u

@[simp] theorem at?_index (i : Nat) (t : Tree) :
    t.at? [.index i] = (itemsOf (some t))[i]? := by
  rw [at?_index_cons]
  cases (itemsOf (some t))[i]? with
  | none => rfl
  | some u => exact at?_nil u

/-- Steps are taken one after another. -/
theorem at?_append (p q : List Step) (t : Tree) : t.at? (p ++ q) = (t.at? p).bind (at? q) := by
  induction p generalizing t with
  | nil => rw [List.nil_append, at?_nil, Option.bind_some]
  | cons step p ih =>
      cases step with
      | key k =>
          rw [List.cons_append, at?_key_cons, at?_key_cons, Option.bind_assoc]
          exact Option.bind_congr fun t _ => ih t
      | index i =>
          rw [List.cons_append, at?_index_cons, at?_index_cons, Option.bind_assoc]
          exact Option.bind_congr fun t _ => ih t

/-- A step to an item leads into a sequence. -/
theorem bind_at?_index (t : Option Tree) (i : Nat) :
    t.bind (at? [.index i]) = (itemsOf t)[i]? := by
  cases t with
  | none => rfl
  | some t => exact at?_index i t

theorem nodes_subset_nodesOfFields (steps : List Step) {k : String} {t : Tree}
    {fields : List (String × Tree)} (h : (k, t) ∈ fields) :
    nodes (steps ++ [.key k]) t ⊆ nodesOfFields steps fields := by
  induction fields with
  | nil => cases h
  | cons e fields ih =>
      rw [nodesOfFields]
      rcases List.mem_cons.mp h with rfl | h
      · exact List.subset_append_left _ _
      · exact List.Subset.trans (ih h) (List.subset_append_right _ _)

theorem nodes_subset_nodesOfItems (steps : List Step) (index : Nat) {i : Nat} {t : Tree}
    {items : List Tree} (h : items[i]? = some t) :
    nodes (steps ++ [.index (index + i)]) t ⊆ nodesOfItems steps index items := by
  induction items generalizing index i with
  | nil => cases h
  | cons u items ih =>
      rw [nodesOfItems]
      cases i with
      | zero =>
          cases h
          exact List.subset_append_left _ _
      | succ i =>
          have hi := ih (index + 1) (i := i) h
          rw [Nat.add_right_comm] at hi
          exact List.Subset.trans hi (List.subset_append_right _ _)

theorem self_mem_nodes (steps : List Step) (t : Tree) : steps ∈ nodes steps t := by
  cases t with
  | scalar | sequence | mapping => rw [nodes]; exact List.mem_cons_self

/-- Every node that can be reached is listed. -/
theorem mem_nodes_of_at? (steps : List Step) {rest : List Step} {t u : Tree}
    (h : t.at? rest = some u) : steps ++ rest ∈ nodes steps t := by
  induction rest generalizing steps t with
  | nil =>
      rw [List.append_nil]
      exact self_mem_nodes steps t
  | cons step rest ih =>
      cases t with
      | scalar v => cases step <;> cases h
      | sequence items =>
          cases step with
          | key k => cases h
          | index i =>
              obtain ⟨t, hi, hrest⟩ := Option.bind_eq_some_iff.mp h
              have hmem := nodes_subset_nodesOfItems steps 0 hi (ih _ hrest)
              rw [Nat.zero_add, List.append_assoc] at hmem
              exact List.mem_cons_of_mem _ hmem
      | mapping fields =>
          cases step with
          | index i => cases h
          | key k =>
              obtain ⟨t, hk, hrest⟩ := Option.bind_eq_some_iff.mp h
              have hmem := nodes_subset_nodesOfFields steps (Ordered.mem_of_get? hk) (ih _ hrest)
              rw [List.append_assoc] at hmem
              exact List.mem_cons_of_mem _ hmem

end SiteConf.Tree
