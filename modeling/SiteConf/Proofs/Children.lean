import SiteConf.Proofs.KeyPath
import SiteConf.Proofs.Tree

set_option autoImplicit false

/-! # The children of a node

`Tree.children` lists the parts of a node with the steps that lead to them, indices for a sequence
and keys for a mapping, so that what holds of both kinds of containers is said once. `Everywhere`
is a property of a node and of all nodes below it.

A tree is *keyed* when the keys of each of its mappings are different and hold no dot. In a keyed
tree the children of a node have different segments, every child is the node that its step finds,
and so the path of a node determines its steps (`Keyed.steps_eq_of_ofSteps_eq`). -/

namespace SiteConf.Tree

open KeyPath

/-! ## Children -/

/-- The items of a sequence from `index` on, with the steps to them. -/
def itemSteps (index : Nat) : List Tree → List (Step × Tree)
  | [] => []
  | t :: ts => (.index index, t) :: itemSteps (index + 1) ts

/-- The entries of a mapping, with the steps to them. -/
def fieldSteps : List (String × Tree) → List (Step × Tree)
  | [] => []
  | (k, t) :: rest => (.key k, t) :: fieldSteps rest

/-- The parts of a node, with the steps to them. -/
def children : Tree → List (Step × Tree)
  | scalar _ => []
  | sequence items => itemSteps 0 items
  | mapping fields => fieldSteps fields

theorem mem_itemSteps {index : Nat} {items : List Tree} {c : Step × Tree} :
    c ∈ itemSteps index items ↔ ∃ i, c.1 = .index (index + i) ∧ items[i]? = some c.2 := by
  induction items generalizing index with
  | nil => simp [itemSteps]
  | cons t items ih =>
      rw [itemSteps, List.mem_cons, ih]
      constructor
      · rintro (rfl | ⟨i, hstep, hi⟩)
        · exact ⟨0, rfl, rfl⟩
        · exact ⟨i + 1, by rw [hstep, Nat.add_assoc, Nat.add_comm 1 i], hi⟩
      · rintro ⟨i, hstep, hi⟩
        cases i with
        | zero =>
            have htree : t = c.2 := by simpa using hi
            left
            rw [htree, ← Nat.add_zero index, ← hstep]
        | succ i =>
            right
            exact ⟨i, by rw [hstep, Nat.add_assoc, Nat.add_comm 1 i], hi⟩

theorem mem_fieldSteps {fields : List (String × Tree)} {c : Step × Tree} :
    c ∈ fieldSteps fields ↔ ∃ k, c.1 = .key k ∧ (k, c.2) ∈ fields := by
  induction fields with
  | nil => simp [fieldSteps]
  | cons e fields ih =>
      obtain ⟨k, t⟩ := e
      rw [fieldSteps, List.mem_cons, ih]
      constructor
      · rintro (rfl | ⟨k', hstep, hmem⟩)
        · exact ⟨k, rfl, List.mem_cons_self⟩
        · exact ⟨k', hstep, List.mem_cons_of_mem _ hmem⟩
      · rintro ⟨k', hstep, hmem⟩
        rcases List.mem_cons.mp hmem with he | hmem
        · obtain ⟨rfl, htree⟩ := Prod.mk.inj he
          left
          rw [← htree, ← hstep]
        · exact .inr ⟨k', hstep, hmem⟩

theorem map_segment_fieldSteps (fields : List (String × Tree)) :
    (fieldSteps fields).map (fun c => c.1.segment) = Ordered.keys fields := by
  induction fields with
  | nil => rfl
  | cons e fields ih =>
      show e.1 :: (fieldSteps fields).map (fun c => c.1.segment) = e.1 :: Ordered.keys fields
      rw [ih]

theorem nodup_segments_itemSteps (index : Nat) (items : List Tree) :
    ((itemSteps index items).map fun c => c.1.segment).Nodup := by
  induction items generalizing index with
  | nil => exact List.nodup_nil
  | cons t items ih =>
      rw [itemSteps, List.map_cons, List.nodup_cons]
      refine ⟨?_, ih (index + 1)⟩
      intro hmem
      obtain ⟨c, hc, hsegment⟩ := List.mem_map.mp hmem
      obtain ⟨i, hstep, -⟩ := mem_itemSteps.mp hc
      -- the later items have larger indices
      rw [hstep] at hsegment
      have hindex : index + 1 + i = index := Number.showNat_injective hsegment
      omega

/-- What a step finds is a child. -/
theorem exists_mem_children_of_at? {t u : Tree} {step : Step} {rest : List Step}
    (h : t.at? (step :: rest) = some u) :
    ∃ v, (step, v) ∈ t.children ∧ v.at? rest = some u := by
  cases t with
  | scalar v => cases step <;> cases h
  | sequence items =>
      cases step with
      | key k => cases h
      | index i =>
          obtain ⟨v, hi, hu⟩ := Option.bind_eq_some_iff.mp h
          exact ⟨v, mem_itemSteps.mpr ⟨i, by rw [Nat.zero_add], hi⟩, hu⟩
  | mapping fields =>
      cases step with
      | index i => cases h
      | key k =>
          obtain ⟨v, hk, hu⟩ := Option.bind_eq_some_iff.mp h
          exact ⟨v, mem_fieldSteps.mpr ⟨k, rfl, Ordered.mem_of_get? hk⟩, hu⟩

theorem sizeOf_lt_of_mem_children {t : Tree} {c : Step × Tree} (hc : c ∈ t.children) :
    sizeOf c.2 < sizeOf t := by
  cases t with
  | scalar v => cases hc
  | sequence items =>
      obtain ⟨i, -, hi⟩ := mem_itemSteps.mp hc
      have hlt := List.sizeOf_lt_of_mem (List.mem_of_getElem? hi)
      rw [sequence.sizeOf_spec]
      omega
  | mapping fields =>
      obtain ⟨k, -, hmem⟩ := mem_fieldSteps.mp hc
      have hlt := List.sizeOf_lt_of_mem hmem
      rw [Prod.mk.sizeOf_spec] at hlt
      rw [mapping.sizeOf_spec]
      omega

/-- What holds of a node if it holds of its children holds of all nodes. -/
theorem children_induction {P : Tree → Prop} (h : ∀ t, (∀ c ∈ t.children, P c.2) → P t)
    (t : Tree) : P t :=
  h t fun c hc =>
    have := sizeOf_lt_of_mem_children hc
    children_induction h c.2
termination_by sizeOf t

/-! ## Properties of all nodes -/

/-- The property holds of the node and of all nodes below it. -/
inductive Everywhere (P : Tree → Prop) : Tree → Prop where
  | intro {t : Tree} (here : P t) (child : ∀ c ∈ t.children, Everywhere P c.2) : Everywhere P t

section Everywhere

variable {P Q : Tree → Prop} {t : Tree}

theorem Everywhere.here (h : Everywhere P t) : P t := by
  cases h with
  | intro here child => exact here

theorem Everywhere.child (h : Everywhere P t) : ∀ c ∈ t.children, Everywhere P c.2 := by
  cases h with
  | intro here child => exact child

theorem Everywhere.imp (himp : ∀ t, P t → Q t) (h : Everywhere P t) : Everywhere Q t := by
  induction h with
  | intro here _ ih => exact .intro (himp _ here) ih

/-- What holds everywhere in a tree holds everywhere below each of its nodes. -/
theorem Everywhere.of_at? {steps : List Step} {u : Tree} (h : Everywhere P t)
    (hu : t.at? steps = some u) : Everywhere P u := by
  induction steps generalizing t with
  | nil =>
      obtain rfl : t = u := by simpa using hu
      exact h
  | cons step steps ih =>
      obtain ⟨v, hv, hrest⟩ := exists_mem_children_of_at? hu
      exact ih (h.child _ hv) hrest

@[simp] theorem everywhere_scalar (v : Scalar) : Everywhere P (scalar v) ↔ P (scalar v) := by
  constructor
  · exact Everywhere.here
  · intro h
    exact .intro h fun c hc => nomatch hc

@[simp] theorem everywhere_sequence (items : List Tree) :
    Everywhere P (sequence items) ↔ P (sequence items) ∧ ∀ t ∈ items, Everywhere P t := by
  constructor
  · intro h
    refine ⟨h.here, fun t ht => ?_⟩
    obtain ⟨i, hi⟩ := List.mem_iff_getElem?.mp ht
    have hc : (Step.index i, t) ∈ (sequence items).children :=
      mem_itemSteps.mpr ⟨i, by rw [Nat.zero_add], hi⟩
    exact h.child _ hc
  · rintro ⟨here, hitems⟩
    refine .intro here fun c hc => ?_
    obtain ⟨i, -, hi⟩ := mem_itemSteps.mp hc
    exact hitems _ (List.mem_of_getElem? hi)

@[simp] theorem everywhere_mapping (fields : List (String × Tree)) :
    Everywhere P (mapping fields) ↔ P (mapping fields) ∧ ∀ e ∈ fields, Everywhere P e.2 := by
  constructor
  · intro h
    refine ⟨h.here, fun e he => ?_⟩
    have hc : (Step.key e.1, e.2) ∈ (mapping fields).children := mem_fieldSteps.mpr ⟨e.1, rfl, he⟩
    exact h.child _ hc
  · rintro ⟨here, hfields⟩
    refine .intro here fun c hc => ?_
    obtain ⟨k, -, hmem⟩ := mem_fieldSteps.mp hc
    exact hfields _ hmem

end Everywhere

/-! ## Keyed trees -/

/-- The keys of the node, if it is a mapping, are different and hold no dot. -/
def DistinctKeys : Tree → Prop
  | mapping fields => (Ordered.keys fields).Nodup ∧ ∀ k ∈ Ordered.keys fields, Dotless k
  | _ => True

/-- The keys of every mapping in the tree are different and hold no dot. -/
abbrev Keyed (t : Tree) : Prop :=
  Everywhere DistinctKeys t

section Children

variable {t : Tree} (ht : DistinctKeys t)
include ht

theorem nodup_segments_children : (t.children.map fun c => c.1.segment).Nodup := by
  cases t with
  | scalar v => exact List.nodup_nil
  | sequence items => exact nodup_segments_itemSteps 0 items
  | mapping fields =>
      rw [children, map_segment_fieldSteps]
      exact ht.1

theorem dotless_of_mem_children {c : Step × Tree} (hc : c ∈ t.children) :
    Dotless c.1.segment := by
  cases t with
  | scalar v => cases hc
  | sequence items =>
      obtain ⟨i, hstep, -⟩ := mem_itemSteps.mp hc
      rw [hstep]
      exact dotless_showNat _
  | mapping fields =>
      obtain ⟨k, hstep, hmem⟩ := mem_fieldSteps.mp hc
      rw [hstep]
      exact ht.2 k (List.mem_map_of_mem hmem)

/-- A child is what its step finds. -/
theorem at?_cons_of_mem_children {c : Step × Tree} (hc : c ∈ t.children) (rest : List Step) :
    t.at? (c.1 :: rest) = c.2.at? rest := by
  cases t with
  | scalar v => cases hc
  | sequence items =>
      obtain ⟨i, hstep, hi⟩ := mem_itemSteps.mp hc
      rw [Nat.zero_add] at hstep
      rw [hstep, at?, hi, Option.bind_some]
  | mapping fields =>
      obtain ⟨k, hstep, hmem⟩ := mem_fieldSteps.mp hc
      rw [hstep, at?, Ordered.get?_of_mem ht.1 hmem, Option.bind_some]

end Children

namespace Keyed

theorem plain_of_at? {t u : Tree} (ht : t.Keyed) {steps : List Step} (h : t.at? steps = some u) :
    Plain (segments steps) := by
  induction steps generalizing t with
  | nil => exact fun _ hs => nomatch hs
  | cons step steps ih =>
      obtain ⟨v, hv, hu⟩ := exists_mem_children_of_at? h
      have hstep : Dotless step.segment := dotless_of_mem_children ht.here hv
      exact List.forall_mem_cons.mpr ⟨hstep, ih (ht.child _ hv) hu⟩

/-- Two children with one segment are one child. -/
theorem eq_of_segment_eq {t : Tree} (ht : DistinctKeys t) {c d : Step × Tree}
    (hc : c ∈ t.children) (hd : d ∈ t.children) (h : c.1.segment = d.1.segment) : c = d :=
  List.inj_on_of_nodup_map (nodup_segments_children ht) hc hd h

/-- **In a keyed tree a path determines its steps.** -/
theorem steps_eq_of_ofSteps_eq {t u v : Tree} (ht : t.Keyed) {p q : List Step}
    (hp : t.at? p = some u) (hq : t.at? q = some v) (h : ofSteps p = ofSteps q) : p = q := by
  have hsegments : segments p = segments q :=
    ofSegments_injective (ht.plain_of_at? hp) (ht.plain_of_at? hq) h
  clear h
  induction p generalizing t q with
  | nil =>
      cases q with
      | nil => rfl
      | cons step q => cases hsegments
  | cons step p ih =>
      cases q with
      | nil => cases hsegments
      | cons step' q =>
          obtain ⟨hstep, hrest⟩ : step.segment = step'.segment ∧ segments p = segments q := by
            simpa using hsegments
          obtain ⟨x, hx, hpx⟩ := exists_mem_children_of_at? hp
          obtain ⟨y, hy, hqy⟩ := exists_mem_children_of_at? hq
          obtain ⟨rfl, rfl⟩ : step = step' ∧ x = y :=
            Prod.mk.inj (eq_of_segment_eq ht.here hx hy hstep)
          rw [ih (ht.child _ hx) hpx hqy hrest]

end Keyed

end SiteConf.Tree
