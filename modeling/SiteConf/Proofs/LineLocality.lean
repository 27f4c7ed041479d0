import SiteConf.Compiler
import SiteConf.Proofs.Preprocessing

set_option autoImplicit false

/-! # Preprocessing is line-local

A line of a preprocessed text depends on the line of the source in its place and on the blocks
around that line, and on nothing else: `rewriteLine` is what a line becomes on its own.

Lines can be added in one way only, by a value that holds newlines. `broughtNewlines` counts them
over all markers of a text, and substituting adds exactly that many lines (`lineCount_substitute`).
So the number of lines is wrong after the placeholders if and only if some marker brings a
newline, and it is never wrong after the blocks (`preprocess_lineLocal`). -/

namespace SiteConf.Source

open Text

variable {conditions : Conditions} {placeholders : Placeholders}

/-! ## Substituted values -/

/-- The value that a piece stands for, if it is a marker of a placeholder. -/
def Piece.value? (placeholders : Placeholders) : Piece → Option Placeholder.Value
  | .plain _ => none
  | .marker name => Ordered.get? (String.ofList name) placeholders

def Piece.image (placeholders : Placeholders) : Piece → List Char
  | .plain c => [c]
  | .marker name => ((Ordered.get? (String.ofList name) placeholders).map (·.text.toList)).getD []

/-- The values that are substituted in a line, one for every marker, from left to right. -/
def substituted (placeholders : Placeholders) (line : List Char) : List Placeholder.Value :=
  (pieces line).filterMap (Piece.value? placeholders)

/-- The number of newlines in the values that are substituted in a text. -/
def broughtNewlines (placeholders : Placeholders) (text : String) : Nat :=
  (((lines text.toList).flatMap (substituted placeholders)).map
    fun value => value.text.toList.count '\n').sum

/-- A line with its markers filled in. -/
def fillLine (placeholders : Placeholders) (line : List Char) : List Char :=
  (pieces line).flatMap (Piece.image placeholders)

/-- What a line outside of inactive blocks becomes: its inline conditional is carried out and its
markers are filled in. -/
def rewriteLine (conditions : Conditions) (placeholders : Placeholders) (line : List Char) :
    List Char :=
  fillLine placeholders (applyInlineToLine conditions line)

theorem eq_flatMap_of_fill {line : Nat} {ps : List Piece} {out : List Char}
    (h : fill placeholders line ps = .ok out) : out = ps.flatMap (Piece.image placeholders) := by
  induction ps generalizing out with
  | nil =>
      cases h
      rfl
  | cons p ps ih =>
      cases p with
      | plain c =>
          rw [fill] at h
          obtain ⟨rest, hrest, rfl⟩ := Step.exists_of_map_eq_ok h
          rw [List.flatMap_cons, ← ih hrest]
          rfl
      | marker name =>
          rw [fill] at h
          rcases hvalue : Ordered.get? (String.ofList name) placeholders with _ | value
          · simp only [hvalue] at h
            cases h
          · simp only [hvalue] at h
            obtain ⟨rest, hrest, rfl⟩ := Step.exists_of_map_eq_ok h
            have himage : Piece.image placeholders (.marker name) = value.text.toList := by
              rw [Piece.image, hvalue]
              rfl
            rw [List.flatMap_cons, ← ih hrest, himage]

theorem eq_map_of_fillLines {line : Nat} {ls out : List (List Char)}
    (h : fillLines placeholders line ls = .ok out) : out = ls.map (fillLine placeholders) := by
  induction ls generalizing line out with
  | nil =>
      cases h
      rfl
  | cons l ls ih =>
      obtain ⟨here, later, hhere, hlater, rfl⟩ := fillLines_cons_eq_ok h
      rw [List.map_cons, ← ih hlater, fillLine, ← eq_flatMap_of_fill hhere]

/-! ## Counting newlines -/

/-- A piece that is no marker is a character of the text. -/
theorem mem_of_plain_mem_piecesFrom {c : Char} {skip : Nat} {cs : List Char}
    (h : Piece.plain c ∈ piecesFrom skip cs) : c ∈ cs := by
  induction cs generalizing skip with
  | nil => cases skip <;> cases h
  | cons d cs ih =>
      cases skip with
      | succ skip => exact List.mem_cons_of_mem d (ih h)
      | zero =>
          rw [piecesFrom] at h
          rcases hmarker : marker? (d :: cs) with _ | name
          · simp only [hmarker] at h
            rcases List.mem_cons.mp h with hd | h
            · cases hd
              exact List.mem_cons_self
            · exact List.mem_cons_of_mem d (ih h)
          · simp only [hmarker] at h
            rcases List.mem_cons.mp h with hd | h
            · cases hd
            · exact List.mem_cons_of_mem d (ih h)

/-- The newlines of pieces that are filled in are those of the values. -/
theorem count_flatMap_image {ps : List Piece} (hplain : Piece.plain '\n' ∉ ps) :
    (ps.flatMap (Piece.image placeholders)).count '\n'
      = ((ps.filterMap (Piece.value? placeholders)).map
          fun value => value.text.toList.count '\n').sum := by
  induction ps with
  | nil => rfl
  | cons p ps ih =>
      have hps := ih fun h => hplain (List.mem_cons_of_mem p h)
      rw [List.flatMap_cons, List.count_append, hps]
      cases p with
      | plain c =>
          have hc : c ≠ '\n' := by
            rintro rfl
            exact hplain List.mem_cons_self
          rw [Piece.image, List.filterMap_cons_none rfl]
          simp [hc]
      | marker name =>
          rcases hvalue : Ordered.get? (String.ofList name) placeholders with _ | value
          · have hnone : Piece.value? placeholders (.marker name) = none := hvalue
            rw [Piece.image, hvalue, List.filterMap_cons_none hnone]
            simp
          · have hsome : Piece.value? placeholders (.marker name) = some value := hvalue
            rw [Piece.image, hvalue, List.filterMap_cons_some hsome, List.map_cons, List.sum_cons]
            rfl

theorem count_fillLine {line : List Char} (hline : '\n' ∉ line) :
    (fillLine placeholders line).count '\n'
      = ((substituted placeholders line).map fun value => value.text.toList.count '\n').sum :=
  count_flatMap_image fun h => hline (mem_of_plain_mem_piecesFrom h)

theorem sum_count_fillLines {ls : List (List Char)} (hls : ∀ l ∈ ls, '\n' ∉ l) :
    ((ls.map (fillLine placeholders)).map (List.count '\n')).sum
      = ((ls.flatMap (substituted placeholders)).map
          fun value => value.text.toList.count '\n').sum := by
  induction ls with
  | nil => rfl
  | cons l ls ih =>
      obtain ⟨hl, hls⟩ := List.forall_mem_cons.mp hls
      rw [List.map_cons, List.map_cons, List.sum_cons, ih hls, List.flatMap_cons, List.map_append,
        List.sum_append, count_fillLine hl]

/-- **Substituting adds the newlines of the values.** -/
theorem lineCount_substitute {text out : String} (h : substitute placeholders text = .ok out) :
    lineCount out = lineCount text + broughtNewlines placeholders text := by
  rw [substitute] at h
  obtain ⟨filled, hfilled, rfl⟩ := Step.exists_of_map_eq_ok h
  have hmap := eq_map_of_fillLines hfilled
  have hlength : filled.length = lineCount text := by
    rw [hmap, List.length_map, lineCount]
  have hne : filled ≠ [] := by
    rintro rfl
    rw [lineCount, length_lines] at hlength
    cases hlength
  have hsum : (filled.map (List.count '\n')).sum = broughtNewlines placeholders text := by
    rw [hmap, sum_count_fillLines newline_not_mem_of_mem_lines, broughtNewlines]
  have hcount := count_unlines hne
  rw [lineCount, String.toList_ofList, length_lines]
  omega

/-! ## Errors of the passes -/

/-- Blocks that do not match are reported at a line. -/
theorem lines_ne_nil_of_resolveLines {line : Nat} {blocks : List Block} {ls : List (List Char)}
    {e : Error} (h : resolveLines conditions line blocks ls = .error e) : e.lines ≠ [] := by
  fun_induction resolveLines conditions line blocks ls generalizing e with
  | case1 | case5 | case6 =>
      cases h
      exact List.cons_ne_nil _ _
  | case2 => cases h
  | case3 | case4 | case7 =>
      rename_i ih
      exact ih (Step.eq_error_of_map h)

/-- A marker without a value is reported at a line. -/
theorem lines_ne_nil_of_fill {line : Nat} {ps : List Piece} {e : Error}
    (h : fill placeholders line ps = .error e) : e.lines ≠ [] := by
  fun_induction fill placeholders line ps generalizing e with
  | case1 => cases h
  | case2 c rest ih => exact ih (Step.eq_error_of_map h)
  | case3 name rest value hvalue ih => exact ih (Step.eq_error_of_map h)
  | case4 name rest hvalue =>
      cases h
      exact List.cons_ne_nil _ _

theorem lines_ne_nil_of_fillLines {line : Nat} {ls : List (List Char)} {e : Error}
    (h : fillLines placeholders line ls = .error e) : e.lines ≠ [] := by
  induction ls generalizing line with
  | nil => cases h
  | cons l ls ih =>
      rw [fillLines] at h
      rcases hfill : fill placeholders line (pieces l) with e' | here
      · rw [hfill] at h
        cases h
        exact lines_ne_nil_of_fill hfill
      · rcases hlater : fillLines placeholders (line + 1) ls with e' | later
        · rw [hfill, hlater] at h
          cases h
          exact ih hlater
        · rw [hfill, hlater] at h
          cases h

/-! ## The number of lines -/

section Named

variable {source text resolved filled : String}

/-- When all passes return, only newlines that values bring stand against the result. -/
theorem preprocessNamed_of_passes (source : String)
    (hresolved : resolveBlocks conditions text = .ok resolved)
    (hfilled : substitute placeholders (applyInline conditions resolved) = .ok filled) :
    preprocessNamed conditions placeholders source text
      = if broughtNewlines placeholders (applyInline conditions resolved) = 0 then .ok filled
        else .error (.lineCount source .placeholders (lineCount text)
          (lineCount text + broughtNewlines placeholders (applyInline conditions resolved))) := by
  have hblocks : lineCount resolved = lineCount text := lineCount_of_resolveBlocks_ok hresolved
  have hcount : lineCount filled = lineCount text
      + broughtNewlines placeholders (applyInline conditions resolved) := by
    rw [lineCount_substitute hfilled, lineCount_applyInline, hblocks]
  rw [preprocessNamed_eq]
  simp only [bind, Except.bind, pure, Except.pure, hresolved, hfilled, checkLines, hblocks, if_true,
    hcount, Nat.add_eq_left]
  split_ifs <;> rfl

/-- How preprocessing can end: a pass fails at some line, or all passes return. -/
theorem preprocessNamed_cases (conditions : Conditions) (placeholders : Placeholders)
    (source text : String) :
    (∃ e, preprocessNamed conditions placeholders source text = .error e ∧ e.lines ≠ []) ∨
      ∃ resolved filled, resolveBlocks conditions text = .ok resolved ∧
        substitute placeholders (applyInline conditions resolved) = .ok filled := by
  rcases hresolved : resolveBlocks conditions text with e | resolved
  · refine .inl ⟨e, ?_, ?_⟩
    · rw [preprocessNamed_eq, hresolved]
      rfl
    · rw [resolveBlocks] at hresolved
      exact lines_ne_nil_of_resolveLines (Step.eq_error_of_map hresolved)
  · rcases hfilled : substitute placeholders (applyInline conditions resolved) with e | filled
    · have hblocks : lineCount resolved = lineCount text := lineCount_of_resolveBlocks_ok hresolved
      refine .inl ⟨e, ?_, ?_⟩
      · rw [preprocessNamed_eq]
        simp only [bind, Except.bind, hresolved, hfilled, checkLines, hblocks, if_true]
      · rw [substitute] at hfilled
        exact lines_ne_nil_of_fillLines (Step.eq_error_of_map hfilled)
    · exact .inr ⟨resolved, filled, rfl, hfilled⟩

/-! ## Line by line -/

/-- What the blocks leave of a line: all of it, or nothing if it is a directive or lies in an
inactive block. -/
theorem getElem?_resolveLines {ls out : List (List Char)}
    (h : resolveLines conditions 1 [] ls = .ok out) {i : Nat} {l : List Char}
    (hl : ls[i]? = some l) :
    ((directive? l).isSome = true ∨ Inactive conditions (ls.take i)) ∧ out[i]? = some [] ∨
      (directive? l = none ∧ ¬ Inactive conditions (ls.take i)) ∧ out[i]? = some l := by
  have hlt : i < out.length := by
    rw [length_resolveLines h]
    exact (List.getElem?_eq_some_iff.mp hl).1
  obtain ⟨here, hhere⟩ : ∃ here, out[i]? = some here := ⟨_, List.getElem?_eq_getElem hlt⟩
  by_cases htext : directive? l = none ∧ ¬ Inactive conditions (ls.take i)
  · refine .inr ⟨htext, ?_⟩
    rw [hhere, resolveLines_text h hhere hl htext.1 htext.2 fun k b hb => nomatch hb]
  · have hblank : here = [] := by
      by_contra hne
      obtain ⟨hsource, hdirective, hinactive, -⟩ := resolveLines_kept h hhere hne
      obtain rfl : l = here := by simpa [hl] using hsource
      exact htext ⟨hdirective, hinactive⟩
    refine .inl ⟨?_, by rw [hhere, hblank]⟩
    rw [not_and_or, not_not] at htext
    exact htext.imp_left Option.isSome_iff_ne_none.mpr

/-- **A line of the result is made from the line of the source in its place.** -/
theorem getElem?_preprocessNamed
    (h : preprocessNamed conditions placeholders source text = .ok filled) {i : Nat}
    {l : List Char} (hl : (lines text.toList)[i]? = some l) :
    ((directive? l).isSome = true ∨ Inactive conditions ((lines text.toList).take i)) ∧
        (lines filled.toList)[i]? = some [] ∨
      (directive? l = none ∧ ¬ Inactive conditions ((lines text.toList).take i)) ∧
        (lines filled.toList)[i]? = some (rewriteLine conditions placeholders l) := by
  obtain ⟨kept, hkept, hfill⟩ := exists_lines_of_preprocessNamed h
  have hlines : lines filled.toList = kept.map (rewriteLine conditions placeholders) := by
    rw [eq_map_of_fillLines hfill, List.map_map]
    rfl
  rw [hlines, List.getElem?_map]
  rcases getElem?_resolveLines hkept hl with ⟨hblank, hi⟩ | ⟨htext, hi⟩
  · -- the passes behind the blocks leave a blank line blank
    exact .inl ⟨hblank, by rw [hi]; rfl⟩
  · exact .inr ⟨htext, by rw [hi]; rfl⟩

end Named

end SiteConf.Source

namespace SiteConf.Compiler

open Source Text

theorem result_preprocess (c : Compiler) (name text : String) :
    (c.preprocess name text).result
      = preprocessNamed c.conditions c.placeholders name text := by
  simp only [preprocess, Outcome.note, Outcome.result_bind, Outcome.result_ofResult,
    Outcome.result_write, Outcome.result_pure]
  cases preprocessNamed c.conditions c.placeholders name text <;> rfl

/-- **Preprocessing is line-local, and only a value with newlines changes the number of lines.**
Blocks never do. When all passes return, the number of lines is refused if and only if some
substituted value brings a newline, and then after the placeholders and with the lines before and
after. Otherwise the result has the lines of the source: each is empty, if the line of the source
is a directive or lies in an inactive block, or is what that line becomes on its own. -/
theorem preprocess_lineLocal (c : Compiler) (name text : String) :
    (∀ source before after, (c.preprocess name text).result
      ≠ .error (.lineCount source .conditionals before after)) ∧
    ∀ resolved filled, resolveBlocks c.conditions text = .ok resolved →
      substitute c.placeholders (applyInline c.conditions resolved) = .ok filled →
      let total := broughtNewlines c.placeholders (applyInline c.conditions resolved)
      ((∃ source stage before after, (c.preprocess name text).result
          = .error (.lineCount source stage before after)) ↔ 0 < total) ∧
      (0 < total → (c.preprocess name text).result
        = .error (.lineCount name .placeholders (lineCount text) (lineCount text + total))) ∧
      (total = 0 → (c.preprocess name text).result = .ok filled ∧
        lineCount filled = lineCount text ∧
        ∀ i l, (lines text.toList)[i]? = some l →
          ((directive? l).isSome = true ∨ Inactive c.conditions ((lines text.toList).take i)) ∧
              (lines filled.toList)[i]? = some [] ∨
            (directive? l = none ∧ ¬ Inactive c.conditions ((lines text.toList).take i)) ∧
              (lines filled.toList)[i]? = some (rewriteLine c.conditions c.placeholders l)) := by
  rw [result_preprocess]
  constructor
  · intro source before after h
    rcases preprocessNamed_cases c.conditions c.placeholders name text with
      ⟨e, he, hlines⟩ | ⟨resolved, filled, hresolved, hfilled⟩
    · -- an error of a pass names a line, and a wrong number of lines names none
      rw [h] at he
      cases he
      exact hlines rfl
    · rw [preprocessNamed_of_passes name hresolved hfilled] at h
      split_ifs at h
      cases h
  · intro resolved filled hresolved hfilled total
    have hrun := preprocessNamed_of_passes name hresolved hfilled
    have hzero : total = 0 → preprocessNamed c.conditions c.placeholders name text = .ok filled :=
      fun h => hrun.trans (if_pos h)
    have hpos : 0 < total → preprocessNamed c.conditions c.placeholders name text
        = .error (.lineCount name .placeholders (lineCount text) (lineCount text + total)) :=
      fun h => hrun.trans (if_neg (Nat.ne_of_gt h))
    refine ⟨⟨?_, fun h => ⟨_, _, _, _, hpos h⟩⟩, hpos, fun h => ⟨hzero h, ?_, ?_⟩⟩
    · rintro ⟨source, stage, before, after, herror⟩
      rw [Nat.pos_iff_ne_zero]
      intro h
      rw [hzero h] at herror
      cases herror
    · obtain ⟨-, -, -, hcount⟩ := exists_of_preprocessNamed_ok (hzero h)
      exact hcount
    · exact fun i l hl => getElem?_preprocessNamed (hzero h) hl

/-- A text with a block, an inline conditional and a marker. -/
def markedText : String :=
  "#ifdef A\nx\n#endif\n#B y: @@P@@"

/-- A value of one line keeps the lines in their places, and a value of two lines is refused. -/
theorem preprocess_lineLocal_markedText :
    (preprocess ⟨["B"], [("P", .int 7)]⟩ "site" markedText).result = .ok "\n\n\ny: 7" ∧
      (preprocess ⟨["B"], [("P", .str "a\nb")]⟩ "site" markedText).result
        = .error (.lineCount "site" .placeholders 4 5) := by
  have hresolved : resolveBlocks ["B"] markedText = .ok "\n\n\n#B y: @@P@@" := by decide +kernel
  have hshort : substitute [("P", .int 7)] (applyInline ["B"] "\n\n\n#B y: @@P@@")
      = .ok "\n\n\ny: 7" := by decide +kernel
  have hlong : substitute [("P", .str "a\nb")] (applyInline ["B"] "\n\n\n#B y: @@P@@")
      = .ok "\n\n\ny: a\nb" := by decide +kernel
  obtain ⟨-, hseven⟩ := preprocess_lineLocal ⟨["B"], [("P", .int 7)]⟩ "site" markedText
  obtain ⟨-, htwo⟩ := preprocess_lineLocal ⟨["B"], [("P", .str "a\nb")]⟩ "site" markedText
  obtain ⟨-, -, hkept⟩ := hseven _ _ hresolved hshort
  obtain ⟨-, hrefused, -⟩ := htwo _ _ hresolved hlong
  exact ⟨(hkept (by decide +kernel)).1, hrefused (by decide +kernel)⟩

end SiteConf.Compiler
