import SiteConf.Document.Parse
import SiteConf.Proofs.Resolution

set_option autoImplicit false

/-! # The addresses of a parsed document

The table of lines of a parsed document lists the nodes of its tree in document order, each
under its path and with the line that introduces it, and no path comes twice. So parsing gives
every node an address, gives no address to anything else, and the address of a node is its
own. -/

namespace SiteConf.Document

open KeyPath Literal

/-! ## Documents read from a text -/

/-- Log lines do not matter for the result. -/
theorem result_parse (text : String) :
    (parse text).result
      = (Token.tokenize text >>= fun tokens => ofTokens maxDepth tokens >>= resolve) := by
  simp only [parse, Outcome.note, Outcome.result_bind, Outcome.result_ofResult,
    Outcome.result_write, Outcome.result_pure]
  show (Token.tokenize text >>= fun tokens =>
    ofTokens maxDepth tokens >>= fun l => resolve l >>= pure) = _
  simp only [bind_pure]

/-- A text is read when each of the three stages returns. -/
theorem result_parse_eq_ok_iff {text : String} {doc : Document} :
    (parse text).result = .ok doc ↔
      ∃ tokens l, Token.tokenize text = .ok tokens ∧ ofTokens maxDepth tokens = .ok l ∧
        resolve l = .ok doc := by
  rw [result_parse]
  constructor
  · intro h
    rcases htokens : Token.tokenize text with e | tokens
    · rw [htokens] at h
      cases h
    · rw [htokens] at h
      have hstages : (ofTokens maxDepth tokens >>= resolve) = .ok doc := h
      rcases hl : ofTokens maxDepth tokens with e | l
      · rw [hl] at hstages
        cases hstages
      · rw [hl] at hstages
        exact ⟨tokens, l, rfl, hl, hstages⟩
  · rintro ⟨tokens, l, htokens, hl, hdoc⟩
    rw [htokens]
    show (ofTokens maxDepth tokens >>= resolve) = .ok doc
    rw [hl]
    exact hdoc

/-- A document that is read from a text is the document of the literal of a derivation. -/
theorem exists_derivation_of_parse {text : String} {doc : Document}
    (h : (parse text).result = .ok doc) :
    ∃ (d : Derivation) (last : Token), Token.tokenize text = .ok (d.tokens ++ [last]) ∧
      last.kind = .eof ∧ Everywhere Lexical d.literal ∧ resolve d.literal = .ok doc := by
  obtain ⟨tokens, l, htokens, hl, hdoc⟩ := result_parse_eq_ok_iff.mp h
  obtain ⟨d, last, rfl, hlast, rfl, hlex⟩ := exists_lexical_derivation htokens hl
  exact ⟨d, last, htokens, hlast, hlex, hdoc⟩

/-! ## The table of lines -/

section Table

variable {l : Literal} {doc : Document}

theorem entries_of_resolve (hl : Everywhere Lexical l) (h : resolve l = .ok doc) :
    doc.origins.entries = (nodes l).map fun n => (n.path, n.line) := by
  obtain ⟨s, -, hs, horigins, -⟩ := resolve_eq_ok hl h
  rw [horigins, hs.entries]

theorem map_steps_nodes_of_resolve (hl : Everywhere Lexical l) (h : resolve l = .ok doc) :
    (nodes l).map Placed.steps = doc.tree.nodes [] := by
  obtain ⟨s, -, -, -, hmirrors⟩ := resolve_eq_ok hl h
  exact hmirrors.map_steps_outline l.line none

/-- Different nodes of the tree have different paths. -/
theorem nodup_paths_of_resolve (hl : Everywhere Lexical l) (h : resolve l = .ok doc) :
    ((doc.tree.nodes []).map ofSteps).Nodup := by
  obtain ⟨s, -, hs, -, -⟩ := resolve_eq_ok hl h
  rw [← map_steps_nodes_of_resolve hl h, List.map_map]
  exact hs.nodup

end Table

/-- **Parsing addresses every node exactly once.** The table of lines is the list of the nodes
of the tree in document order, with their paths and the lines of the derivation: the line of the
key for an entry of a mapping, the line of the first token for an item of a sequence and for the
root. No two nodes share a path. -/
theorem parse_addresses {text : String} {doc : Document} (h : (parse text).result = .ok doc) :
    ∃ (d : Derivation) (last : Token),
      Token.tokenize text = .ok (d.tokens ++ [last]) ∧ last.kind = .eof ∧
      (∀ d' : Derivation, d'.tokens.head?.map Token.line = some d'.literal.line) ∧
      doc.origins.entries = d.literal.nodes.map (fun n => (ofSteps n.steps, n.line)) ∧
      d.literal.nodes.map Placed.steps = doc.tree.nodes [] ∧
      ((doc.tree.nodes []).map ofSteps).Nodup ∧
      doc.origins.size = (doc.tree.nodes []).length := by
  obtain ⟨d, last, htokens, hlast, hlex, hdoc⟩ := exists_derivation_of_parse h
  have hentries := entries_of_resolve hlex hdoc
  have hsteps := map_steps_nodes_of_resolve hlex hdoc
  refine ⟨d, last, htokens, hlast, ?_, hentries, hsteps, nodup_paths_of_resolve hlex hdoc, ?_⟩
  · intro d'
    obtain ⟨kind, ts, htokens', -, -⟩ := d'.exists_tokens_eq_cons
    rw [htokens']
    rfl
  · rw [Origins.size, hentries, ← hsteps, List.length_map, List.length_map]

/-- A sequence in a mapping, over three lines. -/
theorem parse_addresses_sequence_in_mapping :
    ∃ doc, (parse "\x7ba:\n [1,\n 2]\x7d").result = .ok doc ∧
      doc.origins.size = (doc.tree.nodes []).length ∧
      doc.origins.entries = [("", 1), (".a", 1), (".a.0", 2), (".a.1", 3)] := by
  have hdoc : (parse "\x7ba:\n [1,\n 2]\x7d").result = .ok
      ⟨.mapping [("a", .sequence [.scalar (.int 1), .scalar (.int 2)])],
        ⟨[("", 1), (".a", 1), (".a.0", 2), (".a.1", 3)]⟩⟩ :=
    result_parse_eq_ok_iff.mpr
      ⟨[⟨.lbrace, 1⟩, ⟨.ident "a", 1⟩, ⟨.colon, 1⟩, ⟨.lbracket, 2⟩, ⟨.int 1, 2⟩, ⟨.comma, 2⟩,
          ⟨.int 2, 3⟩, ⟨.rbracket, 3⟩, ⟨.rbrace, 3⟩, ⟨.eof, 3⟩],
        .mapping 1 [(⟨"a", 1⟩, .sequence 2 [.constant 2 (.int 1), .constant 3 (.int 2)])],
        by decide +kernel, by cbv, by cbv⟩
  obtain ⟨-, -, -, -, -, -, -, -, hsize⟩ := parse_addresses hdoc
  exact ⟨_, hdoc, hsize, rfl⟩

end SiteConf.Document
