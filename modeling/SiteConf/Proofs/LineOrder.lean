import SiteConf.Proofs.LiteralLines
import SiteConf.Proofs.Readings

set_option autoImplicit false

/-! # The order of lines

The lexer counts lines up, so the lines of its tokens are in order (`tokenize_inOrder`). The descent
moves its cursor onward only, and takes the lines of a literal from the tokens it passes. So the
lines of a literal are in order if those of the tokens are (`ofTokens_lines_inOrder`), and then so
are the lines of its nodes in document order (`lines_nodes_inOrder`). -/

namespace SiteConf

namespace Token

theorem inOrder_tokensFrom {line : Nat} {pieces : List Piece} {last : Token}
    (hlast : line + (spread pieces).count '\n' ≤ last.line) :
    InOrder (tokensFrom line pieces ++ [last]) := by
  induction pieces generalizing line with
  | nil => exact List.pairwise_singleton _ _
  | cons p ps ih =>
      rw [spread_cons, List.count_append, List.count_append] at hlast
      rw [InOrder, tokensFrom, List.cons_append, List.map_cons, List.pairwise_cons,
        List.count_append]
      constructor
      · -- a later token has the newlines of this one before it
        intro n hn
        obtain ⟨t, ht, rfl⟩ := List.mem_map.mp hn
        show line + p.gap.count '\n' ≤ t.line
        rcases List.mem_append.mp ht with ht | ht
        · obtain ⟨before, q, after, -, rfl⟩ := exists_piece_of_mem_tokensFrom ht
          show _ ≤ line + _ + _
          omega
        · rw [List.mem_singleton.mp ht]
          omega
      · exact ih (by omega)

/-- **The lexer gives the tokens of a text in the order of their lines.** -/
theorem tokenize_inOrder {text : String} {tokens : List Token}
    (h : tokenize text = .ok tokens) : InOrder tokens := by
  obtain ⟨r, hproper, hchars⟩ := exists_reading text.toList
  rw [tokenize_eq_answer hproper hchars] at h
  obtain ⟨-, rfl⟩ := Reading.answer_eq_ok h
  refine inOrder_tokensFrom ?_
  show _ ≤ 1 + (spread r.pieces ++ r.gap).count '\n'
  rw [List.count_append]
  omega

end Token

namespace Literal

/-- **The lines of a literal are in order** if those of the tokens are. -/
theorem ofTokens_lines_inOrder {limit : Nat} {tokens : List Token} {l : Literal}
    (horder : Token.InOrder tokens) (h : ofTokens limit tokens = .ok l) :
    l.lines.Pairwise (· ≤ ·) := by
  have hstart : ∀ s : Descent, Token.InOrder s.tokens → (Step.run (document limit) s).1 = .ok l →
      l.lines.Pairwise (· ≤ ·) := by
    intro s hs hl
    obtain ⟨ns, hspans, rfl, -⟩ := (rules_moves.document grows_trivial limit s).2 l hl
    exact (List.pairwise_append.mp (List.pairwise_cons.mp (hspans.inOrder hs)).2).1
  cases tokens with
  | nil => exact hstart ⟨⟨.eof, 1⟩, [], 0⟩ (List.pairwise_singleton _ _) h
  | cons t ts => exact hstart ⟨t, ts, 0⟩ horder h

/-! ## The lines of nodes -/

mutual

/-- The lines of nodes are lines of the literal, in their order. A node in a mapping is on the line
of its key, which comes before that of its own first token. -/
theorem lines_outline_sublist : ∀ (l : Literal) (steps : List Tree.Step) (line : Nat)
    (first : LineRef),
    ((outline steps line first l).map Placed.line).Sublist (line :: l.lines.tail)
  | .mapping l entries, steps, line, first => by
      rw [outline, lines]
      exact (lines_outlineEntries_sublist entries steps []).cons_cons line
  | .sequence l items, steps, line, first => by
      rw [outline, lines]
      exact (lines_outlineItems_sublist items steps 0).cons_cons line
  | .constant l v, steps, line, first => by
      rw [outline, lines]
      exact List.Sublist.refl _
  | .negate l operand, steps, line, first => by
      rw [outline, lines]
      exact List.singleton_sublist.mpr List.mem_cons_self
  | .reference l segments, steps, line, first => by
      rw [outline, lines]
      exact List.Sublist.refl _

theorem lines_outlineEntries_sublist : ∀ (entries : List (Key × Literal))
    (steps : List Tree.Step) (seen : List Key),
    ((outlineEntries steps seen entries).map Placed.line).Sublist (linesOfEntries entries)
  | [], steps, seen => by
      rw [outlineEntries]
      exact List.nil_sublist _
  | (k, v) :: rest, steps, seen => by
      rw [outlineEntries, linesOfEntries, List.map_append, ← List.cons_append]
      refine List.Sublist.append ?_ (lines_outlineEntries_sublist rest steps _)
      exact (lines_outline_sublist v _ k.line _).trans ((List.tail_sublist _).cons_cons k.line)

theorem lines_outlineItems_sublist : ∀ (items : List Literal) (steps : List Tree.Step)
    (index : Nat), ((outlineItems steps index items).map Placed.line).Sublist (linesOfItems items)
  | [], steps, index => by
      rw [outlineItems]
      exact List.nil_sublist _
  | v :: rest, steps, index => by
      have hv := lines_outline_sublist v (steps ++ [.index index]) v.line none
      rw [← lines_eq_cons] at hv
      rw [outlineItems, linesOfItems, List.map_append]
      exact hv.append (lines_outlineItems_sublist rest steps _)

end

/-- **The nodes of a literal are in the order of their lines** if the tokens are. -/
theorem lines_nodes_inOrder {limit : Nat} {tokens : List Token} {l : Literal}
    (horder : Token.InOrder tokens) (h : ofTokens limit tokens = .ok l) :
    ((nodes l).map Placed.line).Pairwise (· ≤ ·) := by
  have hsub := lines_outline_sublist l [] l.line none
  rw [← lines_eq_cons] at hsub
  exact (ofTokens_lines_inOrder horder h).sublist hsub

end Literal

end SiteConf
