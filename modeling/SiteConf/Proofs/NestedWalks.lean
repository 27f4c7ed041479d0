import SiteConf.Proofs.Calls
import SiteConf.Proofs.NestedLines
import Mathlib

set_option autoImplicit false

/-! # Walks that nest

A writer either emits rows that nest by themselves, or it opens a block that its counterpart
closes on the same level (`Surrounds`). If this is so for all writers, everything that a walk emits
nests, however the tree is built (`walkTree_nests`). -/

namespace SiteConf.Writer

open Text SiteConf.Tree

variable {σ α β : Type}

/-! ## What a step emits -/

section Emits

variable (out : σ → Emitter) (Inv : σ → Prop)

/-- If the step succeeds, it keeps the invariant and emits rows of which `Q` holds. -/
def Emits (x : Step σ Error α) (Q : List Row → Prop) : Prop :=
  ∀ s a s', Inv s → x.run s = (.ok a, s') → Inv s' ∧ ∃ rs, out s' = (out s).rows rs ∧ Q rs

def OpensAt (level : Nat) (rs : List Row) : Prop :=
  ∃ content, rs = [⟨level, content⟩] ∧ OpeningLine content

def ClosesAt (level : Nat) (rs : List Row) : Prop :=
  ∃ content, rs = [⟨level, content⟩] ∧ ClosingLine content

/-- What the two steps emit before and after something that nests. -/
inductive Surrounds (x : Step σ Error α) (y : Step σ Error Unit) : Prop where
  | nest (hx : Emits out Inv x Nest) (hy : Emits out Inv y Nest)
  | block (level : Nat) (hx : Emits out Inv x (OpensAt level))
      (hy : Emits out Inv y (ClosesAt level))

variable {out : σ → Emitter} {Inv : σ → Prop} {x : Step σ Error α} {f : α → Step σ Error β}
  {P Q R : List Row → Prop}

theorem emits_pure (a : α) (h : Q []) : Emits out Inv (pure a) Q := by
  intro s b s' hs hrun
  cases hrun
  exact ⟨hs, [], rfl, h⟩

theorem emits_throw (e : Error) : Emits out Inv (throw e : Step σ Error α) Q := by
  intro s a s' hs hrun
  cases hrun

theorem Emits.imp (hx : Emits out Inv x P) (h : ∀ rs, P rs → Q rs) : Emits out Inv x Q := by
  intro s a s' hs hrun
  obtain ⟨hs', rs, hrs, hP⟩ := hx s a s' hs hrun
  exact ⟨hs', rs, hrs, h rs hP⟩

theorem Emits.bind (hx : Emits out Inv x P) (hf : ∀ a, Emits out Inv (f a) Q)
    (h : ∀ rs ss, P rs → Q ss → R (rs ++ ss)) : Emits out Inv (x >>= f) R := by
  intro s b s'' hs hrun
  obtain ⟨a, s', hfirst, hrest⟩ := Step.run_bind_eq_ok_iff.mp hrun
  obtain ⟨hs', rs, hrs, hP⟩ := hx s a s' hs hfirst
  obtain ⟨hs'', ss, hss, hQ⟩ := hf a s' b s'' hs' hrest
  refine ⟨hs'', rs ++ ss, ?_, h rs ss hP hQ⟩
  rw [hss, hrs, Emitter.rows_append]

/-- The result may be changed. -/
theorem Emits.bind_pure (hx : Emits out Inv x Q) (g : α → β) :
    Emits out Inv (x >>= fun a => pure (g a)) Q := by
  have hreturn (a : α) : Emits out Inv (pure (g a) : Step σ Error β) (· = []) := emits_pure _ rfl
  refine hx.bind hreturn ?_
  rintro rs _ hrs rfl
  rwa [List.append_nil]

/-- Steps that nest may follow each other. -/
theorem Emits.then (hx : Emits out Inv x Nest) (hf : ∀ a, Emits out Inv (f a) Nest) :
    Emits out Inv (x >>= f) Nest :=
  hx.bind hf fun _ _ => .append

/-- How a failure is reported does not matter. -/
theorem Emits.call {hook : Visit → Step σ Error α} {v : Visit} (h : Emits out Inv (hook v) Q) :
    Emits out Inv (call hook v) Q := by
  intro s a s' hs hrun
  rw [Writer.call, Step.run_tryCatch] at hrun
  rcases hhook : (hook v).run s with ⟨e | b, s₁⟩
  · rw [hhook] at hrun
    cases hrun
  · rw [hhook] at hrun
    cases hrun
    exact h s a s' hs hhook

/-- What stands between two steps that surround it nests, and so does the whole. -/
theorem Surrounds.bracket {enter : Step σ Error (Bool × Nat)} {inside : Nat → Step σ Error Unit}
    {close : Step σ Error Unit} (h : Surrounds out Inv enter close)
    (hinside : ∀ level, Emits out Inv (inside level) Nest) :
    Emits out Inv (bracket enter inside close) Nest := by
  have hbody (a : Bool × Nat) :
      Emits out Inv (if a.1 then pure () else inside a.2) Nest := by
    split
    · exact emits_pure () .nil
    · exact hinside a.2
  cases h with
  | nest hx hy => exact hx.then fun a => (hbody a).then fun _ => hy
  | block level hx hy =>
      have hrest (a : Bool × Nat) :
          Emits out Inv ((if a.1 then pure () else inside a.2) >>= fun _ => close)
            fun rs => ∃ body content, rs = body ++ [⟨level, content⟩] ∧ Nest body ∧
              ClosingLine content := by
        refine (hbody a).bind (fun _ => hy) ?_
        rintro body _ hnest ⟨content, rfl, hcloses⟩
        exact ⟨body, content, rfl, hnest, hcloses⟩
      refine hx.bind hrest ?_
      rintro _ _ ⟨head, rfl, hopens⟩ ⟨body, content, rfl, hnest, hcloses⟩
      exact .block hopens hcloses rfl hnest

end Emits

/-! ## The whole walk -/

/-- The writers surround every node of which `P` holds throughout, and taking note of a field
emits nothing. -/
structure Walker.Nests (w : Walker σ) (out : σ → Emitter) (Inv : σ → Prop) (P : Tree → Prop) :
    Prop where
  note : ∀ v s, Inv s → Inv (w.note v s) ∧ out (w.note v s) = out s
  field : ∀ v, Everywhere P v.value →
    Surrounds out Inv (enter (w.registry.writersOf v.key).opening v)
      (callClose (w.registry.writersOf v.key).closing v)
  item : ∀ v, Everywhere P v.value → ∀ openItem,
    (w.registry.writersOf v.key).openItem = some openItem →
    Surrounds out Inv (call openItem v) (callClose (w.registry.writersOf v.key).closeItem v)

section Walk

variable {w : Walker σ} {out : σ → Emitter} {Inv : σ → Prop} {P : Tree → Prop}

theorem around_nests (hw : w.Nests out Inv P) {v : Visit} (hv : Everywhere P v.value)
    {inside : Option (FieldWriters σ) → Nat → Step σ Error Unit}
    (hinside : ∀ level, Emits out Inv (inside (Ordered.get? v.key w.registry) level) Nest) :
    Emits out Inv (around w v inside) Nest := by
  have hnote : Emits out Inv (Step.of fun s => (.ok (), w.note v s) : Step σ Error Unit)
      (· = []) := by
    intro s a s' hs hrun
    cases hrun
    obtain ⟨hinv, hout⟩ := hw.note v s hs
    exact ⟨hinv, [], hout, rfl⟩
  have hcome {Q : List Row → Prop}
      (h : Emits out Inv (enter (w.registry.writersOf v.key).opening v) Q) :
      Emits out Inv (comeTo w v) Q := by
    refine hnote.bind (fun _ => h) ?_
    rintro _ ss rfl hss
    exact hss
  rw [around_eq]
  refine Surrounds.bracket ?_ hinside
  cases hw.field v hv with
  | nest hx hy => exact .nest (hcome hx) hy
  | block level hx hy => exact .block level (hcome hx) hy

theorem aroundItem_nests (hw : w.Nests out Inv P) {v : Visit} (hv : Everywhere P v.value)
    {openItem : OpenHook σ} (hopen : (w.registry.writersOf v.key).openItem = some openItem)
    {inside : Step σ Error Unit} (hinside : Emits out Inv inside Nest) :
    Emits out Inv (aroundItem openItem (w.registry.writersOf v.key).closeItem v inside) Nest := by
  rw [aroundItem_eq]
  refine Surrounds.bracket ?_ fun _ => hinside
  cases hw.item v hv openItem hopen with
  | nest hx hy => exact .nest (hx.bind_pure _) hy
  | block level hx hy => exact .block level (hx.bind_pure _) hy

mutual

/-- What a walk emits nests. The recursion is that of the walk. -/
theorem walkTree_nests (hw : w.Nests out Inv P) : ∀ (t : Tree) (level : Nat) (path : String),
    Everywhere P t → Emits out Inv (walkTree w level path t) Nest
  | .scalar v, level, path, ht => by
      rw [walkTree]
      exact emits_pure () .nil
  | .sequence items, level, path, ht => by
      rw [walkTree]
      exact walkItems_nests hw items level path 0 ((everywhere_sequence items).mp ht).2
  | .mapping fields, level, path, ht => by
      rw [walkTree]
      exact walkFields_nests hw fields level path ((everywhere_mapping fields).mp ht).2

theorem walkItems_nests (hw : w.Nests out Inv P) : ∀ (items : List Tree) (level : Nat)
    (path : String) (index : Nat), (∀ t ∈ items, Everywhere P t) →
    Emits out Inv (walkItems w level path index items) Nest
  | [], level, path, index, h => by
      rw [walkItems]
      exact emits_pure () .nil
  | t :: ts, level, path, index, h => by
      obtain ⟨ht, hts⟩ := List.forall_mem_cons.mp h
      rw [walkItems]
      exact (walkTree_nests hw t level _ ht).then fun _ =>
        walkItems_nests hw ts level path (index + 1) hts

theorem walkFields_nests (hw : w.Nests out Inv P) : ∀ (fields : List (String × Tree))
    (level : Nat) (path : String), (∀ e ∈ fields, Everywhere P e.2) →
    Emits out Inv (walkFields w level path fields) Nest
  | [], level, path, h => by
      rw [walkFields]
      exact emits_pure () .nil
  | (key, t) :: rest, level, path, h => by
      obtain ⟨ht, hrest⟩ := List.forall_mem_cons.mp h
      rw [walkFields]
      exact (visitField_nests hw t level _ key ht).then fun _ =>
        walkFields_nests hw rest level path hrest

theorem visitField_nests (hw : w.Nests out Inv P) : ∀ (t : Tree) (level : Nat)
    (path key : String), Everywhere P t → Emits out Inv (visitField w level path key t) Nest
  | .scalar v, level, path, key, ht => by
      rw [visitField]
      exact around_nests hw ht fun _ => emits_pure () .nil
  | .mapping fields, level, path, key, ht => by
      rw [visitField]
      refine around_nests hw ht fun inner => ?_
      exact walkFields_nests hw fields inner path ((everywhere_mapping fields).mp ht).2
  | .sequence items, level, path, key, ht => by
      have hitems := ((everywhere_sequence items).mp ht).2
      rw [visitField]
      refine around_nests hw ht fun inner => ?_
      simp only [Registry.bind_openItem, Registry.bind_closeItem]
      split
      · next openItem hopen =>
          exact visitItems_nests hw items hopen inner path 0 hitems
      · exact walkItems_nests hw items inner path 0 hitems

theorem visitItems_nests (hw : w.Nests out Inv P) : ∀ (items : List Tree) {key : String}
    {openItem : OpenHook σ} (_ : (w.registry.writersOf key).openItem = some openItem)
    (level : Nat) (path : String) (index : Nat), (∀ t ∈ items, Everywhere P t) →
    Emits out Inv (visitItems w openItem (w.registry.writersOf key).closeItem level path key index
      items) Nest
  | [], key, openItem, hopen, level, path, index, h => by
      rw [visitItems]
      exact emits_pure () .nil
  | t :: ts, key, openItem, hopen, level, path, index, h => by
      obtain ⟨ht, hts⟩ := List.forall_mem_cons.mp h
      rw [visitItems]
      have hitem := walkTree_nests hw t (level + 1) (KeyPath.item path index) ht
      exact (aroundItem_nests hw ht hopen hitem).then fun _ =>
        visitItems_nests hw ts hopen level path (index + 1) hts

end

end Walk

end SiteConf.Writer
