import SiteConf.Proofs.Children
import SiteConf.Proofs.Meaning

set_option autoImplicit false

/-! # The parts of literals

A tree that mirrors a literal has its children from the parts of the literal
(`Mirrors.exists_part`). So what is to be shown of such a tree can be shown by induction over its
children, without the lists of entries and items. -/

namespace SiteConf.Literal

/-- The values of the entries of a mapping or the items of a sequence. -/
def parts : Literal → List Literal
  | .mapping _ entries => entries.map Prod.snd
  | .sequence _ items => items
  | _ => []

section Mirrors

variable {holds : List Tree.Step → Literal → Scalar → Prop} {steps : List Tree.Step}
  {c : Tree.Step × Tree}

theorem MirrorsEntries.exists_part {entries : List (Key × Literal)}
    {fields : List (String × Tree)} (h : MirrorsEntries holds steps entries fields)
    (hc : c ∈ Tree.fieldSteps fields) :
    ∃ v ∈ entries.map Prod.snd, Mirrors holds (steps ++ [c.1]) v c.2 := by
  induction entries generalizing fields with
  | nil =>
      cases h
      cases hc
  | cons e entries ih =>
      cases h with
      | cons hv hrest =>
          rcases List.mem_cons.mp hc with rfl | hc
          · exact ⟨_, List.mem_cons_self, hv⟩
          · obtain ⟨v, hmem, hm⟩ := ih hrest hc
            exact ⟨v, List.mem_cons_of_mem _ hmem, hm⟩

theorem MirrorsItems.exists_part {index : Nat} {items : List Literal} {trees : List Tree}
    (h : MirrorsItems holds steps index items trees) (hc : c ∈ Tree.itemSteps index trees) :
    ∃ v ∈ items, Mirrors holds (steps ++ [c.1]) v c.2 := by
  induction items generalizing index trees with
  | nil =>
      cases h
      cases hc
  | cons v items ih =>
      cases h with
      | cons hv hrest =>
          rcases List.mem_cons.mp hc with rfl | hc
          · exact ⟨_, List.mem_cons_self, hv⟩
          · obtain ⟨u, hmem, hm⟩ := ih hrest hc
            exact ⟨u, List.mem_cons_of_mem _ hmem, hm⟩

/-- **The children of a tree mirror the parts of the literal.** -/
theorem Mirrors.exists_part {l : Literal} {t : Tree} (h : Mirrors holds steps l t)
    (hc : c ∈ t.children) : ∃ v ∈ l.parts, Mirrors holds (steps ++ [c.1]) v c.2 := by
  cases h with
  | mapping h => exact h.exists_part hc
  | sequence h => exact h.exists_part hc
  | scalar => cases hc

/-- What is said of containers in general and of the scalars that are held is true everywhere in
the tree. -/
theorem Mirrors.everywhere {P : Tree → Prop}
    (hscalar : ∀ steps l v, holds steps l v → P (.scalar v))
    (hmapping : ∀ fields, P (.mapping fields)) (hsequence : ∀ items, P (.sequence items))
    {l : Literal} {t : Tree} (h : Mirrors holds steps l t) : t.Everywhere P := by
  induction t using Tree.children_induction generalizing steps l with
  | h t ih =>
      have hchild : ∀ c ∈ t.children, c.2.Everywhere P := by
        intro c hc
        obtain ⟨v, -, hv⟩ := h.exists_part hc
        exact ih c hc hv
      refine .intro ?_ hchild
      cases h with
      | mapping => exact hmapping _
      | sequence => exact hsequence _
      | scalar _ h => exact hscalar _ _ _ h

end Mirrors

end SiteConf.Literal
