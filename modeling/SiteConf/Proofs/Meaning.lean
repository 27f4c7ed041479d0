import SiteConf.Proofs.Scoping
import SiteConf.Proofs.Tree

set_option autoImplicit false

/-! # What literals denote

The tree that a literal denotes has the shape, the keys and the order of the literal: it mirrors
the literal (`Mirrors`). At each scalar node it holds what the literal there denotes
(`Denotes`): a constant itself, a negation the integer it comes to, and a reference the scalar
at the path it names. References may name references, and `LeadsTo` follows such a chain to the
constant or negation at its end. -/

namespace SiteConf.Literal

open KeyPath

/-! ## Scalars -/

/-- What a scalar literal denotes, when `value` says which scalar stands at a path. -/
inductive Denotes (value : String → Scalar → Prop) : Literal → Scalar → Prop where
  | constant (line : Nat) (v : Scalar) : Denotes value (.constant line v) v
  | negate {line : Nat} {operand : Literal} {n : Int} (h : operand.integer? = some n) :
      Denotes value (.negate line operand) (.int (-n))
  | reference {line : Nat} {segments : List String} {v : Scalar}
      (h : value (ofSegments segments) v) : Denotes value (.reference line segments) v

theorem Denotes.imp {value value' : String → Scalar → Prop} (himp : ∀ p v, value p v → value' p v)
    {l : Literal} {v : Scalar} (h : Denotes value l v) : Denotes value' l v := by
  cases h with
  | constant line v => exact .constant line v
  | negate h => exact .negate h
  | reference h => exact .reference (himp _ _ h)

/-- From a node a chain of references leads to a constant or a negation with the given value. -/
inductive LeadsTo (ns : List Placed) : Placed → Scalar → Prop where
  | constant {n : Placed} {line : Nat} {v : Scalar} (h : n.literal = .constant line v) :
      LeadsTo ns n v
  | negate {n : Placed} {line : Nat} {operand : Literal} {k : Int}
      (h : n.literal = .negate line operand) (hk : operand.integer? = some k) :
      LeadsTo ns n (.int (-k))
  | reference {n m : Placed} {line : Nat} {segments : List String} {v : Scalar}
      (h : n.literal = .reference line segments) (hm : m ∈ ns)
      (hpath : m.path = ofSegments segments) (hv : LeadsTo ns m v) : LeadsTo ns n v

theorem LeadsTo.mono {ns ns' : List Placed} (hsub : ns ⊆ ns') {n : Placed} {v : Scalar}
    (h : LeadsTo ns n v) : LeadsTo ns' n v := by
  induction h with
  | constant h => exact .constant h
  | negate h hk => exact .negate h hk
  | reference h hm hpath _ ih => exact .reference h (hsub hm) hpath ih

/-! ## Trees of the shape of a literal -/

mutual

/-- The tree at `steps` has the shape of the literal, and its scalars are as `holds` says. -/
inductive Mirrors (holds : List Tree.Step → Literal → Scalar → Prop) :
    List Tree.Step → Literal → Tree → Prop where
  | mapping {steps : List Tree.Step} {line : Nat} {entries : List (Key × Literal)}
      {fields : List (String × Tree)} (h : MirrorsEntries holds steps entries fields) :
      Mirrors holds steps (.mapping line entries) (.mapping fields)
  | sequence {steps : List Tree.Step} {line : Nat} {items : List Literal} {trees : List Tree}
      (h : MirrorsItems holds steps 0 items trees) :
      Mirrors holds steps (.sequence line items) (.sequence trees)
  | scalar {steps : List Tree.Step} {l : Literal} {v : Scalar} (hl : l.isScalar = true)
      (h : holds steps l v) : Mirrors holds steps l (.scalar v)

/-- The fields have the keys of the entries in their order, and the values mirror theirs. -/
inductive MirrorsEntries (holds : List Tree.Step → Literal → Scalar → Prop) :
    List Tree.Step → List (Key × Literal) → List (String × Tree) → Prop where
  | nil {steps : List Tree.Step} : MirrorsEntries holds steps [] []
  | cons {steps : List Tree.Step} {k : Key} {v : Literal} {rest : List (Key × Literal)}
      {t : Tree} {fields : List (String × Tree)}
      (hv : Mirrors holds (steps ++ [.key k.name]) v t)
      (hrest : MirrorsEntries holds steps rest fields) :
      MirrorsEntries holds steps ((k, v) :: rest) ((k.name, t) :: fields)

/-- The trees mirror the items from `index` on, one by one. -/
inductive MirrorsItems (holds : List Tree.Step → Literal → Scalar → Prop) :
    List Tree.Step → Nat → List Literal → List Tree → Prop where
  | nil {steps : List Tree.Step} {index : Nat} : MirrorsItems holds steps index [] []
  | cons {steps : List Tree.Step} {index : Nat} {v : Literal} {rest : List Literal} {t : Tree}
      {trees : List Tree} (hv : Mirrors holds (steps ++ [.index index]) v t)
      (hrest : MirrorsItems holds steps (index + 1) rest trees) :
      MirrorsItems holds steps index (v :: rest) (t :: trees)

end

section Shape

variable {holds holds' : List Tree.Step → Literal → Scalar → Prop}

mutual

theorem Mirrors.imp (himp : ∀ steps l v, holds steps l v → holds' steps l v) :
    ∀ {steps : List Tree.Step} {l : Literal} {t : Tree}, Mirrors holds steps l t →
      Mirrors holds' steps l t
  | _, _, _, .mapping h => .mapping (MirrorsEntries.imp himp h)
  | _, _, _, .sequence h => .sequence (MirrorsItems.imp himp h)
  | _, _, _, .scalar hl h => .scalar hl (himp _ _ _ h)

theorem MirrorsEntries.imp (himp : ∀ steps l v, holds steps l v → holds' steps l v) :
    ∀ {steps : List Tree.Step} {entries : List (Key × Literal)} {fields : List (String × Tree)},
      MirrorsEntries holds steps entries fields → MirrorsEntries holds' steps entries fields
  | _, _, _, .nil => .nil
  | _, _, _, .cons hv hrest => .cons (Mirrors.imp himp hv) (MirrorsEntries.imp himp hrest)

theorem MirrorsItems.imp (himp : ∀ steps l v, holds steps l v → holds' steps l v) :
    ∀ {steps : List Tree.Step} {index : Nat} {items : List Literal} {trees : List Tree},
      MirrorsItems holds steps index items trees → MirrorsItems holds' steps index items trees
  | _, _, _, _, .nil => .nil
  | _, _, _, _, .cons hv hrest => .cons (Mirrors.imp himp hv) (MirrorsItems.imp himp hrest)

end

theorem outline_of_isScalar {l : Literal} (h : l.isScalar = true) (steps : List Tree.Step)
    (line : Nat) (first : LineRef) : outline steps line first l = [⟨steps, line, first, l⟩] := by
  cases l with
  | mapping | sequence => cases h
  | constant | negate | reference => rw [outline]

mutual

/-- **The nodes of the literal are the nodes of the tree, in the same order.** -/
theorem Mirrors.map_steps_outline : ∀ {steps : List Tree.Step} {l : Literal} {t : Tree}
    (line : Nat) (first : LineRef), Mirrors holds steps l t →
    (outline steps line first l).map Placed.steps = t.nodes steps
  | steps, _, _, line, first, .mapping h => by
      rw [outline, List.map_cons, MirrorsEntries.map_steps_outlineEntries [] h, Tree.nodes]
  | steps, _, _, line, first, .sequence h => by
      rw [outline, List.map_cons, MirrorsItems.map_steps_outlineItems h, Tree.nodes]
  | steps, _, _, line, first, .scalar hl h => by
      rw [outline_of_isScalar hl, Tree.nodes]
      rfl

theorem MirrorsEntries.map_steps_outlineEntries : ∀ {steps : List Tree.Step}
    {entries : List (Key × Literal)} {fields : List (String × Tree)} (seen : List Key),
    MirrorsEntries holds steps entries fields →
    (outlineEntries steps seen entries).map Placed.steps = Tree.nodesOfFields steps fields
  | steps, _, _, seen, .nil => by
      rw [outlineEntries, Tree.nodesOfFields]
      rfl
  | steps, _, _, seen, .cons hv hrest => by
      rw [outlineEntries, List.map_append, Mirrors.map_steps_outline _ _ hv,
        MirrorsEntries.map_steps_outlineEntries _ hrest, Tree.nodesOfFields]

theorem MirrorsItems.map_steps_outlineItems : ∀ {steps : List Tree.Step} {index : Nat}
    {items : List Literal} {trees : List Tree}, MirrorsItems holds steps index items trees →
    (outlineItems steps index items).map Placed.steps = Tree.nodesOfItems steps index trees
  | steps, _, _, _, .nil => by
      rw [outlineItems, Tree.nodesOfItems]
      rfl
  | steps, _, _, _, .cons hv hrest => by
      rw [outlineItems, List.map_append, Mirrors.map_steps_outline _ _ hv,
        MirrorsItems.map_steps_outlineItems hrest, Tree.nodesOfItems]

end

/-! ## The node of the tree for a node of the literal -/

theorem MirrorsEntries.keys_eq {steps : List Tree.Step} {entries : List (Key × Literal)}
    {fields : List (String × Tree)} (h : MirrorsEntries holds steps entries fields) :
    Ordered.keys fields = entries.map fun e => e.1.name := by
  induction entries generalizing fields with
  | nil =>
      cases h
      rfl
  | cons e entries ih =>
      cases h with
      | cons hv hrest =>
          rw [List.map_cons, ← ih hrest]
          rfl

mutual

/-- **The steps to a node of the literal lead to a node of the tree that mirrors it.** A key
leads to its own entry because no mapping has it twice. -/
theorem Mirrors.exists_at? : ∀ {steps : List Tree.Step} {l : Literal} {t : Tree} (line : Nat)
    (first : LineRef), Mirrors holds steps l t → Everywhere Admissible l →
    ∀ n ∈ outline steps line first l, ∃ rest u, n.steps = steps ++ rest ∧
      t.at? rest = some u ∧ Mirrors holds n.steps n.literal u
  | steps, _, _, line, first, .mapping h, hadm, n, hn => by
      rw [outline, List.mem_cons] at hn
      rcases hn with rfl | hn
      · exact ⟨[], _, (List.append_nil steps).symm, Tree.at?_nil _, .mapping h⟩
      · rw [Everywhere] at hadm
        obtain ⟨k, rest, t, u, hsteps, hk, hu, hm⟩ :=
          MirrorsEntries.exists_at? [] h hadm.1 hadm.2 n hn
        refine ⟨.key k :: rest, u, hsteps, ?_, hm⟩
        rw [Tree.at?, hk]
        exact hu
  | steps, _, _, line, first, .sequence h, hadm, n, hn => by
      rw [outline, List.mem_cons] at hn
      rcases hn with rfl | hn
      · exact ⟨[], _, (List.append_nil steps).symm, Tree.at?_nil _, .sequence h⟩
      · rw [Everywhere] at hadm
        obtain ⟨i, rest, t, u, hsteps, hi, hu, hm⟩ := MirrorsItems.exists_at? h hadm.2 n hn
        refine ⟨.index i :: rest, u, by rw [hsteps, Nat.zero_add], ?_, hm⟩
        rw [Tree.at?, hi]
        exact hu
  | steps, _, _, line, first, .scalar hl h, hadm, n, hn => by
      rw [outline_of_isScalar hl, List.mem_singleton] at hn
      rw [hn]
      exact ⟨[], _, (List.append_nil steps).symm, Tree.at?_nil _, .scalar hl h⟩

theorem MirrorsEntries.exists_at? : ∀ {steps : List Tree.Step} {entries : List (Key × Literal)}
    {fields : List (String × Tree)} (seen : List Key), MirrorsEntries holds steps entries fields →
    (entries.map fun e => e.1.name).Nodup → EverywhereInEntries Admissible entries →
    ∀ n ∈ outlineEntries steps seen entries, ∃ k rest t u, n.steps = steps ++ .key k :: rest ∧
      Ordered.get? k fields = some t ∧ t.at? rest = some u ∧ Mirrors holds n.steps n.literal u
  | steps, _, _, seen, .nil, hnodup, hadm, n, hn => by
      rw [outlineEntries] at hn
      cases hn
  | steps, (k, _) :: _, _, seen, .cons hv hrest, hnodup, hadm, n, hn => by
      rw [EverywhereInEntries] at hadm
      rw [List.map_cons, List.nodup_cons] at hnodup
      rw [outlineEntries, List.mem_append] at hn
      rcases hn with hn | hn
      · obtain ⟨rest, u, hsteps, hu, hm⟩ := Mirrors.exists_at? _ _ hv hadm.1 n hn
        refine ⟨k.name, rest, _, u, ?_, ?_, hu, hm⟩
        · rw [hsteps, List.append_assoc]
          rfl
        · rw [Ordered.get?_cons, if_pos rfl]
      · obtain ⟨k', rest, t, u, hsteps, hk', hu, hm⟩ :=
          MirrorsEntries.exists_at? _ hrest hnodup.2 hadm.2 n hn
        have hne : k.name ≠ k' := by
          rintro rfl
          rw [← hrest.keys_eq] at hnodup
          exact hnodup.1 (Ordered.mem_keys_of_get? hk')
        refine ⟨k', rest, t, u, hsteps, ?_, hu, hm⟩
        rw [Ordered.get?_cons, if_neg hne, hk']

theorem MirrorsItems.exists_at? : ∀ {steps : List Tree.Step} {index : Nat} {items : List Literal}
    {trees : List Tree}, MirrorsItems holds steps index items trees →
    EverywhereInItems Admissible items → ∀ n ∈ outlineItems steps index items,
    ∃ i rest t u, n.steps = steps ++ .index (index + i) :: rest ∧ trees[i]? = some t ∧
      t.at? rest = some u ∧ Mirrors holds n.steps n.literal u
  | steps, _, _, _, .nil, hadm, n, hn => by
      rw [outlineItems] at hn
      cases hn
  | steps, _, _, _, .cons hv hrest, hadm, n, hn => by
      rw [EverywhereInItems] at hadm
      rw [outlineItems, List.mem_append] at hn
      rcases hn with hn | hn
      · obtain ⟨rest, u, hsteps, hu, hm⟩ := Mirrors.exists_at? _ _ hv hadm.1 n hn
        refine ⟨0, rest, _, u, ?_, rfl, hu, hm⟩
        rw [hsteps, List.append_assoc]
        rfl
      · obtain ⟨i, rest, t, u, hsteps, hi, hu, hm⟩ := MirrorsItems.exists_at? hrest hadm.2 n hn
        refine ⟨i + 1, rest, t, u, ?_, hi, hu, hm⟩
        rw [hsteps, Nat.add_right_comm, Nat.add_assoc]

end

end Shape

end SiteConf.Literal
