import SiteConf.Compiler
import SiteConf.Proofs.Keyed

set_option autoImplicit false

/-! # Loaded configurations

Loading a configuration preprocesses its text, parses the result and settles the document. Every
node of a loaded document has a line, and its tree is keyed. -/

namespace SiteConf.Compiler

open KeyPath Document

variable {c : Compiler} {name text : String}

theorem result_load (c : Compiler) (name text : String) :
    (c.load name text).result
      = Source.preprocessNamed c.conditions c.placeholders name text >>= fun source =>
          (Document.parse source).result.map settle := by
  simp only [load, preprocess, Outcome.note, Outcome.result_bind, Outcome.result_ofResult,
    Outcome.result_write, Outcome.result_pure]
  rcases Source.preprocessNamed c.conditions c.placeholders name text with e | source
  · rfl
  · show ((Document.parse source).result >>= fun doc => .ok doc.settle)
      = (Document.parse source).result.map settle
    cases (Document.parse source).result <;> rfl

theorem result_load_of_ok {source : String}
    (h : Source.preprocessNamed c.conditions c.placeholders name text = .ok source) :
    (c.load name text).result = (Document.parse source).result.map settle := by
  rw [result_load, h]
  rfl

theorem result_load_of_error {e : Error}
    (h : Source.preprocessNamed c.conditions c.placeholders name text = .error e) :
    (c.load name text).result = .error e := by
  rw [result_load, h]
  rfl

/-- A text is loaded when it is preprocessed and parsed; then the document is settled. -/
theorem result_load_eq_ok_iff {doc : Document} :
    (c.load name text).result = .ok doc ↔
      ∃ source parsed, Source.preprocessNamed c.conditions c.placeholders name text = .ok source ∧
        (Document.parse source).result = .ok parsed ∧ doc = parsed.settle := by
  constructor
  · intro h
    rcases hsource : Source.preprocessNamed c.conditions c.placeholders name text with e | source
    · rw [result_load_of_error hsource] at h
      cases h
    · rw [result_load_of_ok hsource] at h
      obtain ⟨parsed, hparsed, rfl⟩ := Step.exists_of_map_eq_ok h
      exact ⟨source, parsed, rfl, hparsed, rfl⟩
  · rintro ⟨source, parsed, hsource, hparsed, rfl⟩
    rw [result_load_of_ok hsource, hparsed]
    rfl

/-- A text that is not loaded is not preprocessed or not parsed. -/
theorem exists_of_load_error {e : Error} (h : (c.load name text).result = .error e) :
    Source.preprocessNamed c.conditions c.placeholders name text = .error e ∨
      ∃ source, Source.preprocessNamed c.conditions c.placeholders name text = .ok source ∧
        (Document.parse source).result = .error e := by
  rcases hsource : Source.preprocessNamed c.conditions c.placeholders name text with e' | source
  · rw [result_load_of_error hsource] at h
    cases h
    exact .inl rfl
  · rw [result_load_of_ok hsource] at h
    exact .inr ⟨source, rfl, Step.eq_error_of_map h⟩

/-- The tree of a loaded document is keyed, and the table has the lines of all its nodes. -/
theorem keyed_of_load {doc : Document} (h : (c.load name text).result = .ok doc) :
    doc.tree.Keyed ∧ ∀ steps u, doc.tree.at? steps = some u →
      (doc.origins.lineOf (ofSteps steps)).isSome = true := by
  obtain ⟨source, parsed, -, hparsed, rfl⟩ := result_load_eq_ok_iff.mp h
  obtain ⟨d, -, -, -, hlex, hdoc⟩ := exists_derivation_of_parse hparsed
  refine ⟨keyed_settle (Literal.keyed_of_resolve hlex hdoc), fun steps u hu => ?_⟩
  have haddressed := addressed_of_resolve hlex hdoc
  obtain ⟨-, hline, v, hv, -⟩ := settle_traces haddressed steps u hu
  rw [show parsed.settle.origins.lineOf (ofSteps steps) = _ from hline]
  exact haddressed.covered _ _ hv

end SiteConf.Compiler
