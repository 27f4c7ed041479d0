import SiteConf.Proofs.Lexical
import SiteConf.Proofs.Resolve

set_option autoImplicit false

/-! # The document of a literal

The resolver accepts exactly the well-scoped literals. The document it returns has a tree that
mirrors the literal, with what each scalar literal denotes in it; for other literals it fails
with the error of the first offence. `resolve_characterized` says all this of the literals that
the grammar can give, from any tokens with integers of 64 bits. The smallest of these integers
cannot be negated; no text has it, but tokens can (`resolve_refuses_smallest`). -/

namespace SiteConf

/-- At the path stands the scalar. -/
def Tree.Holds (t : Tree) (path : String) (v : Scalar) : Prop :=
  ∃ steps, KeyPath.ofSteps steps = path ∧ t.at? steps = some (.scalar v)

namespace Literal

open KeyPath

/-! ## Runs of the resolver on lexical literals -/

/-- The two ways in which resolving a literal ends. -/
theorem resolve_cases {l : Literal} (hl : Everywhere Lexical l) :
    (∃ doc s, resolve l = .ok doc ∧ firstOffence [] (nodes l) = none ∧ Visited (nodes l) s ∧
      doc.origins = s.origins ∧ Mirrors (Known s) [] l doc.tree) ∨
    ∃ e, resolve l = .error e ∧ firstOffence [] (nodes l) = some e := by
  have hann := nodes_announced (hl.imp properKeys_of_lexicalIn)
  have hwalk := visit_walked l [] l.line [] {} hl hann visited_nil
  rcases hrun : Step.run (visit root l.line l) {} with ⟨e | t, s⟩
  · rw [show ofSteps [] = root from rfl, hrun] at hwalk
    refine .inr ⟨e, ?_, hwalk⟩
    rw [resolve, resolveIn, hrun]
  · rw [show ofSteps [] = root from rfl, hrun] at hwalk
    obtain ⟨hnone, hvisited, -, hmirrors⟩ := hwalk
    refine .inl ⟨⟨t, s.origins⟩, s, ?_, hnone, hvisited, rfl, hmirrors⟩
    rw [resolve, resolveIn, hrun]

/-- What a run that returns leaves behind. -/
theorem resolve_eq_ok {l : Literal} (hl : Everywhere Lexical l) {doc : Document}
    (h : resolve l = .ok doc) :
    ∃ s, firstOffence [] (nodes l) = none ∧ Visited (nodes l) s ∧ doc.origins = s.origins ∧
      Mirrors (Known s) [] l doc.tree := by
  rcases resolve_cases hl with ⟨doc', s, hdoc, hs⟩ | ⟨e, he, -⟩
  · rw [h] at hdoc
    cases hdoc
    exact ⟨s, hs⟩
  · rw [h] at he
    cases he

/-! ## The values in the tree -/

theorem Mirrors.exists_scalar {holds : List Tree.Step → Literal → Scalar → Prop}
    {steps : List Tree.Step} {l : Literal} {t : Tree} (h : Mirrors holds steps l t)
    (hl : l.isScalar = true) : ∃ v, t = .scalar v ∧ holds steps l v := by
  cases h with
  | mapping h => cases hl
  | sequence h => cases hl
  | scalar _ h => exact ⟨_, rfl, h⟩

section Values

variable {l : Literal} {s : Scope} {t : Tree}

/-- The tree has at a scalar node what the scope has for its path. -/
theorem at?_steps_of_holds (hadm : Everywhere Admissible l) (h : Mirrors (Known s) [] l t)
    {n : Placed} (hn : n ∈ nodes l) (hscalar : n.literal.isScalar = true) {v : Scalar}
    (hv : s.Holds n.path v) : t.at? n.steps = some (.scalar v) := by
  obtain ⟨rest, u, hsteps, hu, hm⟩ := h.exists_at? l.line none hadm n hn
  obtain ⟨w, rfl, hw⟩ := hm.exists_scalar hscalar
  have hvw : some w = some v := by
    rw [← hw.1, ← hv]
    rfl
  rw [hsteps, List.nil_append, hu, Option.some.inj hvw]

/-- The tree holds every scalar that the scope has. -/
theorem holds_of_scope_holds (hadm : Everywhere Admissible l) (hs : Visited (nodes l) s)
    (h : Mirrors (Known s) [] l t) {path : String} {v : Scalar} (hv : s.Holds path v) :
    t.Holds path v := by
  obtain ⟨n, hn, hscalar, rfl⟩ := hs.inScope path v hv
  exact ⟨n.steps, rfl, at?_steps_of_holds hadm h hn hscalar hv⟩

end Values

/-- **Resolving a literal.** For a literal that the grammar reads from any tokens with integers of
64 bits: the resolver returns a document exactly when the literal is well-scoped; the tree of the
document mirrors the literal, where every reference has the value that the tree holds at the path it
names, which is the value at the end of the chain of references that starts there; and an error is
that of the first node at fault. -/
theorem resolve_characterized {tokens : List Token} {limit : Nat} {l : Literal}
    (htokens : ∀ t ∈ tokens, ∀ n, t.kind = .int n → Number.fits n = true)
    (hl : ofTokens limit tokens = .ok l) :
    ((∃ doc, resolve l = .ok doc) ↔ WellScoped l) ∧
      (∀ doc, resolve l = .ok doc →
        Mirrors (fun _ => Denotes doc.tree.Holds) [] l doc.tree ∧
          ∀ n ∈ nodes l, n.literal.isScalar = true →
            ∃ v, doc.tree.at? n.steps = some (.scalar v) ∧ LeadsTo (nodes l) n v) ∧
      ∀ e, resolve l = .error e ↔ firstOffence [] (nodes l) = some e := by
  have hlex : Everywhere Lexical l := ofTokens_lexicalIn htokens hl
  refine ⟨?_, ?_, ?_⟩
  · rw [← firstOffence_nodes_eq_none_iff]
    constructor
    · rintro ⟨doc, hdoc⟩
      obtain ⟨s, hnone, -⟩ := resolve_eq_ok hlex hdoc
      exact hnone
    · intro hnone
      rcases resolve_cases hlex with ⟨doc, s, hdoc, -⟩ | ⟨e, -, he⟩
      · exact ⟨doc, hdoc⟩
      · rw [hnone] at he
        cases he
  · intro doc hdoc
    obtain ⟨s, hnone, hs, -, hmirrors⟩ := resolve_eq_ok hlex hdoc
    have hadm := ((firstOffence_nodes_eq_none_iff l).mp hnone).admissible
    constructor
    · refine hmirrors.imp fun steps l' v hv => ?_
      exact hv.2.imp fun path w hw => holds_of_scope_holds hadm hs hmirrors hw
    · intro n hn hscalar
      obtain ⟨v, hv, hleads⟩ := hs.leadsTo n hn hscalar
      exact ⟨v, at?_steps_of_holds hadm hmirrors hn hscalar hv, hleads⟩
  · intro e
    rcases resolve_cases hlex with ⟨doc, s, hdoc, hnone, -⟩ | ⟨e', he', hoffence⟩
    · rw [hdoc, hnone]
      constructor <;> intro h <;> cases h
    · rw [he', hoffence, Except.error.injEq, Option.some.injEq]

/-- The tokens of a mapping with a negation under `a`, a chain of references to it under `b`, and
the smallest integer under `c`, which no text has. -/
def openChain : List Token :=
  [⟨.lbrace, 1⟩, ⟨.ident "a", 1⟩, ⟨.colon, 1⟩, ⟨.minus, 1⟩, ⟨.minus, 1⟩, ⟨.int 7, 1⟩, ⟨.comma, 1⟩,
    ⟨.ident "b", 1⟩, ⟨.colon, 1⟩, ⟨.lbracket, 1⟩, ⟨.ident "a", 1⟩, ⟨.comma, 1⟩, ⟨.ident "b", 1⟩,
    ⟨.dot, 1⟩, ⟨.int 0, 1⟩, ⟨.rbracket, 1⟩, ⟨.comma, 1⟩, ⟨.ident "c", 1⟩, ⟨.colon, 1⟩,
    ⟨.int Number.minInt, 1⟩, ⟨.rbrace, 1⟩, ⟨.eof, 1⟩]

/-- A chain of references through a sequence that is still open, down to a negation. -/
theorem resolve_chain_in_open_sequence :
    ∃ l doc, ofTokens 4 openChain = .ok l ∧ resolve l = .ok doc ∧ WellScoped l ∧
      doc.tree.Holds ".b.1" (.int 7) ∧ doc.tree.Holds ".c" (.int Number.minInt) := by
  obtain ⟨l, doc, hl, hdoc, hholds⟩ :
      ∃ l doc, ofTokens 4 openChain = .ok l ∧ resolve l = .ok doc ∧
        doc.tree.Holds ".b.1" (.int 7) ∧ doc.tree.Holds ".c" (.int Number.minInt) :=
    ⟨.mapping 1 [(⟨"a", 1⟩, .negate 1 (.negate 1 (.constant 1 (.int 7)))),
        (⟨"b", 1⟩, .sequence 1 [.reference 1 ["a"], .reference 1 ["b", "0"]]),
        (⟨"c", 1⟩, .constant 1 (.int Number.minInt))],
      ⟨.mapping [("a", .scalar (.int 7)),
          ("b", .sequence [.scalar (.int 7), .scalar (.int 7)]),
          ("c", .scalar (.int Number.minInt))],
        ⟨[("", 1), (".a", 1), (".b", 1), (".b.0", 1), (".b.1", 1), (".c", 1)]⟩⟩,
      by cbv, by cbv, ⟨[.key "b", .index 1], rfl, rfl⟩, [.key "c"], rfl, rfl⟩
  have hfits : ∀ t ∈ openChain, ∀ n, t.kind = .int n → Number.fits n = true := by
    simp [openChain, Number.fits, Number.minInt, Number.maxInt]
  exact ⟨l, doc, hl, hdoc, (resolve_characterized hfits hl).1.mp ⟨doc, hdoc⟩, hholds⟩

/-- A minus in front of the smallest integer: no key is repeated, the minus stands in front of an
integer, and there is no reference, but the resolver refuses the literal. -/
theorem resolve_refuses_smallest :
    ∃ l : Literal,
      ofTokens maxDepth [⟨.minus, 1⟩, ⟨.int Number.minInt, 1⟩, ⟨.eof, 1⟩] = .ok l ∧
      (∀ n ∈ nodes l, n.first = none) ∧
      (∀ n ∈ nodes l, ∀ line operand, n.literal = .negate line operand →
        ∃ line' k, operand.core = .constant line' (.int k)) ∧
      (∀ n ∈ nodes l, ∀ line segments, n.literal ≠ .reference line segments) ∧
      resolve l = .error (.badSyntax (some 1) (.cannotNegate Number.minInt)) := by
  refine ⟨.negate 1 (.constant 1 (.int Number.minInt)), by cbv, ?_, ?_, ?_, by cbv⟩
  · exact List.forall_mem_singleton.mpr rfl
  · refine List.forall_mem_singleton.mpr ?_
    rintro line operand ⟨⟩
    exact ⟨1, Number.minInt, rfl⟩
  · refine List.forall_mem_singleton.mpr ?_
    rintro line segments ⟨⟩

end Literal

end SiteConf
