import SiteConf.Proofs.BlockStructure
import SiteConf.Proofs.LineLocality
import SiteConf.Proofs.Markers
import Mathlib

set_option autoImplicit false

/-! # Texts that preprocessing leaves alone

A line is inert when it is no directive and no inline conditional, and has no character that could
start a marker. A text of inert lines stays as it is, whatever the conditions and the placeholders
are (`Compiler.result_preprocess_of_isInert`). -/

namespace SiteConf.Source

open Text

/-- There is nothing on the line that preprocessing acts on. -/
def isInert (line : List Char) : Bool :=
  (directive? line).isNone && (inlineConditional? line).isNone && !line.contains '@'

section Inert

variable {conditions : Conditions} {placeholders : Placeholders} {line : List Char}

theorem directive?_of_isInert (h : isInert line = true) : directive? line = none := by
  simp only [isInert, Bool.and_eq_true, Option.isNone_iff_eq_none] at h
  exact h.1.1

theorem applyInlineToLine_of_isInert (h : isInert line = true) :
    applyInlineToLine conditions line = line := by
  simp only [isInert, Bool.and_eq_true, Option.isNone_iff_eq_none] at h
  rw [applyInlineToLine, h.1.2]

theorem not_mem_of_isInert (h : isInert line = true) : '@' ∉ line := by
  simp only [isInert, Bool.and_eq_true, Bool.not_eq_true', List.contains_eq_mem] at h
  exact of_decide_eq_false h.2

theorem fill_pieces_of_not_mem {number : Nat} (h : '@' ∉ line) :
    fill placeholders number (pieces line) = .ok line := by
  induction line with
  | nil => rfl
  | cons c line ih =>
      rw [List.mem_cons, not_or] at h
      obtain ⟨hc, hline⟩ := h
      rw [pieces_plain (marker?_cons_of_ne (Ne.symm hc) line), fill, ih hline]
      rfl

theorem fillLines_of_isInert {number : Nat} {ls : List (List Char)}
    (h : ∀ l ∈ ls, isInert l = true) : fillLines placeholders number ls = .ok ls := by
  induction ls generalizing number with
  | nil => rfl
  | cons l ls ih =>
      obtain ⟨hl, hls⟩ := List.forall_mem_cons.mp h
      rw [fillLines, fill_pieces_of_not_mem (not_mem_of_isInert hl), ih hls]
      rfl

/-- All three passes give the text back. -/
theorem preprocessNamed_of_isInert {source text : String}
    (h : ∀ l ∈ lines text.toList, isInert l = true) :
    preprocessNamed conditions placeholders source text = .ok text := by
  have htext : String.ofList (unlines (lines text.toList)) = text := by
    rw [unlines_lines, String.ofList_toList]
  have hblocks : resolveBlocks conditions text = .ok text := by
    rw [resolveBlocks, resolveLines_of_text fun l hl => directive?_of_isInert (h l hl)]
    exact congrArg Except.ok htext
  have hinline : applyInline conditions text = text := by
    rw [applyInline, List.map_congr_left fun l hl => applyInlineToLine_of_isInert (h l hl),
      List.map_id', htext]
  have hmarkers : substitute placeholders text = .ok text := by
    rw [substitute, fillLines_of_isInert h]
    exact congrArg Except.ok htext
  rw [preprocessNamed_eq, hblocks]
  simp [hinline, hmarkers, checkLines, bind, Except.bind, pure, Except.pure]

end Inert

end SiteConf.Source

namespace SiteConf.Compiler

theorem result_preprocess_of_isInert {text : String}
    (h : ∀ l ∈ Text.lines text.toList, Source.isInert l = true) (c : Compiler) (name : String) :
    (c.preprocess name text).result = .ok text := by
  rw [result_preprocess]
  exact Source.preprocessNamed_of_isInert h

/-- Compiling renders the preprocessed template with the loaded configuration. -/
theorem result_compile {c : Compiler} {config template source : String} {document : Document}
    (hload : (c.load configName config).result = .ok document)
    (hsource : (c.preprocess templateName template).result = .ok source) :
    (c.compile config template).result
      = (Template.render document c.conditions source).result := by
  simp only [compile, compileNamed, compileWith, Outcome.note, Outcome.result_bind, hload, hsource,
    Outcome.result_write, Outcome.result_pure]
  show ((Template.render document c.conditions source).result >>= fun rendered => .ok rendered) = _
  cases (Template.render document c.conditions source).result <;> rfl

end SiteConf.Compiler
