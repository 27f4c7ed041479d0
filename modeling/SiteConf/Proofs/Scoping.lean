import SiteConf.Error
import SiteConf.Proofs.Outline

set_option autoImplicit false

/-! # Well-scoped literals

When a literal denotes a tree, said without running the resolver. A literal is well-scoped when
no mapping in it has a key twice, every chain of minuses ends in an integer that can be negated,
and every reference names a scalar that comes before it (`WellScoped`). For literals that are not,
`firstOffence` goes through the nodes in document order and gives the error of the first one that
is at fault; it finds none exactly in well-scoped literals (`firstOffence_nodes_eq_none_iff`). -/

namespace SiteConf.Literal

open KeyPath

/-! ## Scalars and negations -/

/-- Constants, negations and references stand for a scalar. -/
def isScalar : Literal → Bool
  | .mapping .. => false
  | .sequence .. => false
  | .constant .. => true
  | .negate .. => true
  | .reference .. => true

/-- What a chain of minuses stands in front of. -/
def core : Literal → Literal
  | .negate _ operand => operand.core
  | other => other

/-- The integer that a chain of minuses makes of the integer at its end. -/
def integer? : Literal → Option Int
  | .constant _ (.int n) => some n
  | .negate _ operand => operand.integer?.map fun n => -n
  | _ => none

/-- What is wrong with the operand of the minus on a line. The smallest integer and a scalar that
is no integer are reported at the minus next to them, anything else at its own line. -/
def badOperand? (line : Nat) : Literal → Option Error
  | .constant _ (.int n) =>
      if n = Number.minInt then some (.badSyntax (some line) (.cannotNegate n)) else none
  | .constant _ value => some (.badSyntax (some line) (.negatedScalar value))
  | .negate inner operand => operand.badOperand? inner
  | other => some (.badSyntax (some other.line) .negatedOther)

/-- What is wrong with a literal as a negation. -/
def badNegation? : Literal → Option Error
  | .negate line operand => operand.badOperand? line
  | _ => none

/-! ## Well-scoped literals -/

/-- A mapping has no key twice, and a chain of minuses ends in an integer other than the smallest
one. -/
def Admissible : Literal → Prop
  | .mapping _ entries => (entries.map fun e => e.1.name).Nodup
  | .negate _ operand =>
      ∃ line n, operand.core = .constant line (.int n) ∧ n ≠ Number.minInt
  | _ => True

/-- One of the nodes is a scalar at the path. -/
def InScope (before : List Placed) (path : String) : Prop :=
  ∃ m ∈ before, m.literal.isScalar = true ∧ m.path = path

instance (before : List Placed) (path : String) : Decidable (InScope before path) :=
  inferInstanceAs (Decidable (∃ m ∈ before, m.literal.isScalar = true ∧ m.path = path))

/-- **Well-scoped literals**: each part is admissible, and each reference names a scalar node
strictly before it in document order. -/
structure WellScoped (l : Literal) : Prop where
  admissible : Everywhere Admissible l
  inScope : ∀ before n after line segments, nodes l = before ++ n :: after →
    n.literal = .reference line segments → InScope before (ofSegments segments)

/-- The error of a node after the nodes before it: a key that was there before, a negation that
cannot be carried out, or a reference to nothing. -/
def offence (before : List Placed) (n : Placed) : Option Error :=
  match n.first with
  | some first => some (.duplicate n.path (some n.line) (some first))
  | none =>
      match n.literal with
      | .reference line segments =>
          if InScope before (ofSegments segments) then none
          else some (.unresolved (String.intercalate "." segments) (some line))
      | other => other.badNegation?

def firstOffence (before : List Placed) : List Placed → Option Error
  | [] => none
  | n :: ns => (offence before n).or (firstOffence (before ++ [n]) ns)

theorem firstOffence_append (before a b : List Placed) :
    firstOffence before (a ++ b) = (firstOffence before a).or (firstOffence (before ++ a) b) := by
  induction a generalizing before with
  | nil => rw [List.nil_append, firstOffence, Option.none_or, List.append_nil]
  | cons n a ih =>
      rw [List.cons_append, firstOffence, firstOffence, ih, Option.or_assoc, List.append_assoc]
      rfl

theorem firstOffence_eq_none_iff {before ns : List Placed} :
    firstOffence before ns = none ↔
      ∀ a n b, ns = a ++ n :: b → offence (before ++ a) n = none := by
  constructor
  · rintro h a n b rfl
    rw [firstOffence_append, Option.or_eq_none_iff, firstOffence, Option.or_eq_none_iff] at h
    exact h.2.1
  · intro h
    induction ns generalizing before with
    | nil => rfl
    | cons n ns ih =>
        rw [firstOffence, Option.or_eq_none_iff]
        constructor
        · simpa using h [] n ns rfl
        · refine ih fun a m b hab => ?_
          simpa using h (n :: a) m b (by rw [hab, List.cons_append])

/-! ## Admissible parts and blameless nodes -/

mutual

theorem badOperand?_eq_none_iff : ∀ (l : Literal) (line : Nat),
    l.badOperand? line = none ↔
      ∃ line' n, l.core = .constant line' (.int n) ∧ n ≠ Number.minInt
  | .mapping l entries, line => by simp [badOperand?, core]
  | .sequence l items, line => by simp [badOperand?, core]
  | .constant l value, line => by cases value <;> simp [badOperand?, core]
  | .negate l operand, line => by
      rw [badOperand?, core]
      exact badOperand?_eq_none_iff operand l
  | .reference l segments, line => by simp [badOperand?, core]

/-- Nothing but minuses stands in front of the integer. -/
theorem everywhere_admissible_of_core : ∀ (l : Literal) {line : Nat} {n : Int},
    l.core = .constant line (.int n) → n ≠ Number.minInt → Everywhere Admissible l
  | .mapping l entries, line, n, h, hn => by cases h
  | .sequence l items, line, n, h, hn => by cases h
  | .constant l value, line, n, h, hn => by
      rw [Everywhere]
      trivial
  | .negate l operand, line, n, h, hn => by
      rw [core] at h
      rw [Everywhere]
      exact ⟨⟨line, n, h, hn⟩, everywhere_admissible_of_core operand h hn⟩
  | .reference l segments, line, n, h, hn => by cases h

end

/-- The node repeats no key and is no negation that cannot be carried out. -/
def Blameless (n : Placed) : Prop :=
  n.first = none ∧ n.literal.badNegation? = none

theorem offence_eq_none_iff {before : List Placed} {n : Placed} :
    offence before n = none ↔ Blameless n ∧
      ∀ line segments, n.literal = .reference line segments →
        InScope before (ofSegments segments) := by
  obtain ⟨steps, line, first, l⟩ := n
  cases first with
  | some first => simp [offence, Blameless]
  | none => cases l <;> simp [offence, Blameless, badNegation?]

mutual

theorem blameless_outline_iff : ∀ (l : Literal) (steps : List Tree.Step) (line : Nat)
    (first : LineRef), (∀ n ∈ outline steps line first l, Blameless n) ↔
      first = none ∧ Everywhere Admissible l
  | .mapping l entries, steps, line, first => by
      rw [outline, List.forall_mem_cons, blameless_outlineEntries_iff entries steps [], Everywhere]
      simp [Blameless, badNegation?, Admissible]
  | .sequence l items, steps, line, first => by
      rw [outline, List.forall_mem_cons, blameless_outlineItems_iff items steps 0, Everywhere]
      simp [Blameless, badNegation?, Admissible]
  | .constant l value, steps, line, first => by
      rw [outline, List.forall_mem_singleton, Everywhere]
      simp [Blameless, badNegation?, Admissible]
  | .negate l operand, steps, line, first => by
      rw [outline, List.forall_mem_singleton, Everywhere, Admissible, Blameless, badNegation?,
        badOperand?_eq_none_iff operand l]
      refine and_congr_right fun _ => ⟨fun h => ⟨h, ?_⟩, And.left⟩
      obtain ⟨line', n, hcore, hn⟩ := h
      exact everywhere_admissible_of_core operand hcore hn
  | .reference l segments, steps, line, first => by
      rw [outline, List.forall_mem_singleton, Everywhere]
      simp [Blameless, badNegation?, Admissible]

theorem blameless_outlineEntries_iff : ∀ (entries : List (Key × Literal))
    (steps : List Tree.Step) (seen : List Key),
    (∀ n ∈ outlineEntries steps seen entries, Blameless n) ↔
      ((seen.map Key.name).Disjoint (entries.map fun e => e.1.name) ∧
        (entries.map fun e => e.1.name).Nodup) ∧ EverywhereInEntries Admissible entries
  | [], steps, seen => by simp [outlineEntries, EverywhereInEntries]
  | (k, v) :: rest, steps, seen => by
      rw [outlineEntries, List.forall_mem_append, blameless_outline_iff v,
        blameless_outlineEntries_iff rest, firstLine_eq_none_iff, EverywhereInEntries,
        List.map_append, List.map_singleton, List.disjoint_append_left, List.singleton_disjoint,
        List.map_cons, List.nodup_cons, List.disjoint_cons_right]
      have hname : (∀ k' ∈ seen, k'.name ≠ k.name) ↔ k.name ∉ seen.map Key.name := by
        simp
      rw [hname]
      tauto

theorem blameless_outlineItems_iff : ∀ (items : List Literal) (steps : List Tree.Step)
    (index : Nat), (∀ n ∈ outlineItems steps index items, Blameless n) ↔
      EverywhereInItems Admissible items
  | [], steps, index => by simp [outlineItems, EverywhereInItems]
  | v :: rest, steps, index => by
      rw [outlineItems, List.forall_mem_append, blameless_outline_iff v,
        blameless_outlineItems_iff rest, EverywhereInItems]
      simp

end

/-- **A literal is well-scoped when no node of it is at fault.** -/
theorem firstOffence_nodes_eq_none_iff (l : Literal) :
    firstOffence [] (nodes l) = none ↔ WellScoped l := by
  have hblameless : (∀ n ∈ nodes l, Blameless n) ↔ Everywhere Admissible l := by
    rw [nodes, blameless_outline_iff]
    simp
  rw [firstOffence_eq_none_iff]
  constructor
  · intro h
    constructor
    · refine hblameless.mp fun n hn => ?_
      obtain ⟨a, b, hab⟩ := List.append_of_mem hn
      exact (offence_eq_none_iff.mp (h a n b hab)).1
    · intro before n after line segments hsplit
      exact (offence_eq_none_iff.mp (h before n after hsplit)).2 line segments
  · intro h a n b hab
    refine offence_eq_none_iff.mpr ⟨hblameless.mpr h.admissible n (by simp [hab]), ?_⟩
    intro line segments
    exact h.inScope a n b line segments hab

end SiteConf.Literal
