import SiteConf.Proofs.Blocks
import SiteConf.Proofs.Step
import SiteConf.Source.Preprocess

set_option autoImplicit false

/-! # Preprocessing keeps lines in their places

The three passes work line by line. Blocks keep or blank a line, inline conditionals and
placeholders leave a blank line blank. Only a placeholder whose value holds a newline could move
lines, and then the text has more lines than before, which is refused. So a line of a preprocessed
text that is not blank stands where a line of the source stands that is no directive and lies in no
inactive block (`preprocessNamed_kept`). -/

namespace SiteConf.Source

open Text

variable {conditions : Conditions} {placeholders : Placeholders}

/-! ## Blocks -/

theorem exists_of_resolveBlocks_ok {text resolved : String}
    (h : resolveBlocks conditions text = .ok resolved) :
    resolveLines conditions 1 [] (lines text.toList) = .ok (lines resolved.toList) := by
  rw [resolveBlocks] at h
  obtain ⟨out, hout, rfl⟩ := Step.exists_of_map_eq_ok h
  have hlength := length_resolveLines hout
  have hne : out ≠ [] := by
    rintro rfl
    rw [length_lines] at hlength
    cases hlength
  -- a line is blank or a line of the text, so none holds a newline
  have hfree : ∀ l ∈ out, '\n' ∉ l := by
    intro l hl
    obtain ⟨i, hi⟩ := List.mem_iff_getElem?.mp hl
    by_cases hblank : l = []
    · simp [hblank]
    · obtain ⟨hline, -⟩ := resolveLines_kept hout hi hblank
      exact newline_not_mem_of_mem_lines l (List.mem_of_getElem? hline)
  rw [hout, String.toList_ofList, lines_unlines hne hfree]

theorem lineCount_of_resolveBlocks_ok {text resolved : String}
    (h : resolveBlocks conditions text = .ok resolved) : lineCount resolved = lineCount text :=
  length_resolveLines (exists_of_resolveBlocks_ok h)

theorem resolveBlocks_within {text : String} {e : Error}
    (h : resolveBlocks conditions text = .error e) : e.Within (HasLine text) := by
  rw [resolveBlocks] at h
  have hlines := Step.eq_error_of_map h
  refine resolveLines_within hlines (List.forall_mem_nil _) fun n hlo hhi => ⟨hlo, ?_⟩
  rw [lineCount]
  omega

/-! ## Inline conditionals -/

/-- An inline conditional adds no character to its line. -/
theorem mem_of_inlineConditional? {line : List Char} {c : InlineConditional}
    (h : inlineConditional? line = some c) : ∀ x ∈ c.indent ++ c.rest, x ∈ line := by
  unfold inlineConditional? at h
  split at h
  · rename_i body hbody
    split at h
    · rename_i ending rest hrest
      obtain ⟨tests, -, rfl⟩ := Option.map_eq_some_iff.mp h
      have hsub : body ⊆ line := by
        intro x hx
        have hmem : x ∈ line.dropWhile isBlank := by simp [hbody, hx]
        exact (List.dropWhile_suffix isBlank).subset hmem
      intro x hx
      rcases List.mem_append.mp hx with hx | hx
      · exact (List.takeWhile_prefix isBlank).subset hx
      · have hmem : x ∈ body.dropWhile fun c => !endsTests c := by simp [hrest, hx]
        exact hsub ((List.dropWhile_suffix _).subset hmem)
    · cases h
  · cases h

theorem mem_of_mem_applyInlineToLine {line : List Char} {x : Char}
    (h : x ∈ applyInlineToLine conditions line) : x ∈ line := by
  unfold applyInlineToLine at h
  rcases hc : inlineConditional? line with _ | c
  · simp only [hc] at h
    exact h
  · simp only [hc] at h
    by_cases htests : c.tests.all (·.holds conditions) = true
    · rw [if_pos htests] at h
      exact mem_of_inlineConditional? hc x h
    · rw [if_neg htests] at h
      exact h

theorem applyInlineToLine_nil : applyInlineToLine conditions [] = [] := rfl

theorem lines_applyInline (text : String) :
    lines (applyInline conditions text).toList
      = (lines text.toList).map (applyInlineToLine conditions) := by
  obtain ⟨l, ls, hlines⟩ := exists_lines_eq_cons text.toList
  rw [applyInline, String.toList_ofList]
  apply lines_unlines
  · rw [hlines]
    exact List.cons_ne_nil _ _
  · refine List.forall_mem_map.mpr fun line hline hmem => ?_
    exact newline_not_mem_of_mem_lines line hline (mem_of_mem_applyInlineToLine hmem)

theorem lineCount_applyInline (text : String) :
    lineCount (applyInline conditions text) = lineCount text := by
  rw [lineCount, lines_applyInline, List.length_map, lineCount]

/-! ## Placeholders -/

theorem fillLines_cons_eq_ok {line : Nat} {l : List Char} {ls out : List (List Char)}
    (h : fillLines placeholders line (l :: ls) = .ok out) :
    ∃ here later, fill placeholders line (pieces l) = .ok here ∧
      fillLines placeholders (line + 1) ls = .ok later ∧ out = here :: later := by
  rw [fillLines] at h
  rcases hhere : fill placeholders line (pieces l) with e | here
  · rw [hhere] at h
    cases h
  · rcases hlater : fillLines placeholders (line + 1) ls with e | later
    · rw [hhere, hlater] at h
      cases h
    · rw [hhere, hlater] at h
      cases h
      exact ⟨here, later, rfl, rfl, rfl⟩

theorem length_fillLines {line : Nat} {ls out : List (List Char)}
    (h : fillLines placeholders line ls = .ok out) : out.length = ls.length := by
  induction ls generalizing line out with
  | nil =>
      cases h
      rfl
  | cons l ls ih =>
      obtain ⟨here, later, -, hlater, rfl⟩ := fillLines_cons_eq_ok h
      rw [List.length_cons, List.length_cons, ih hlater]

/-- Line by line, the markers are substituted. -/
theorem getElem?_fillLines {line : Nat} {ls out : List (List Char)}
    (h : fillLines placeholders line ls = .ok out) {i : Nat} {o : List Char}
    (hi : out[i]? = some o) :
    ∃ l, ls[i]? = some l ∧ fill placeholders (line + i) (pieces l) = .ok o := by
  induction ls generalizing line out i with
  | nil =>
      cases h
      cases hi
  | cons l ls ih =>
      obtain ⟨here, later, hhere, hlater, rfl⟩ := fillLines_cons_eq_ok h
      cases i with
      | zero =>
          obtain rfl : here = o := by simpa using hi
          exact ⟨l, rfl, hhere⟩
      | succ i =>
          obtain ⟨l', hl', hfill⟩ := ih hlater hi
          refine ⟨l', hl', ?_⟩
          rw [show line + (i + 1) = line + 1 + i by omega]
          exact hfill

theorem fill_within {P : Nat → Prop} {line : Nat} {ps : List Piece} {e : Error}
    (h : fill placeholders line ps = .error e) (hline : P line) : e.Within P := by
  induction ps with
  | nil => cases h
  | cons p ps ih =>
      cases p with
      | plain c =>
          rw [fill] at h
          exact ih (Step.eq_error_of_map h)
      | marker name =>
          rw [fill] at h
          rcases hvalue : Ordered.get? (String.ofList name) placeholders with _ | value
          · simp only [hvalue] at h
            cases h
            exact Error.within_singleton rfl hline
          · simp only [hvalue] at h
            exact ih (Step.eq_error_of_map h)

theorem fillLines_within {P : Nat → Prop} {line : Nat} {ls : List (List Char)} {e : Error}
    (h : fillLines placeholders line ls = .error e)
    (hlines : ∀ n, line ≤ n → n < line + ls.length → P n) : e.Within P := by
  induction ls generalizing line with
  | nil => cases h
  | cons l ls ih =>
      have hhere : P line := by
        apply hlines
        · omega
        · rw [List.length_cons]
          omega
      rw [fillLines] at h
      rcases hfill : fill placeholders line (pieces l) with e' | here
      · rw [hfill] at h
        cases h
        exact fill_within hfill hhere
      · rcases hlater : fillLines placeholders (line + 1) ls with e' | later
        · rw [hfill, hlater] at h
          cases h
          refine ih hlater fun n hlo hhi => hlines n (by omega) ?_
          rw [List.length_cons]
          omega
        · rw [hfill, hlater] at h
          cases h

theorem substitute_within {text : String} {e : Error}
    (h : substitute placeholders text = .error e) : e.Within (HasLine text) := by
  rw [substitute] at h
  refine fillLines_within (Step.eq_error_of_map h) fun n hlo hhi => ⟨hlo, ?_⟩
  rw [lineCount]
  omega

/-! ## The whole of preprocessing -/

/-- A wrong number of lines is no matter of a single line. -/
theorem checkLines_within {P : Nat → Prop} {source out : String} {before : Nat} (stage : Pass)
    {e : Error} (h : checkLines source before stage out = .error e) : e.Within P := by
  unfold checkLines at h
  split at h
  · cases h
  · split at h
    · cases h
    · cases h
      exact List.forall_mem_nil _

theorem preprocessNamed_eq (conditions : Conditions) (placeholders : Placeholders)
    (source text : String) :
    preprocessNamed conditions placeholders source text
      = (do
          let resolved ← resolveBlocks conditions text
          checkLines source (lineCount text) .conditionals resolved
          let filled ← substitute placeholders (applyInline conditions resolved)
          checkLines source (lineCount text) .placeholders filled
          return filled) := by
  unfold preprocessNamed preprocessInspected
  simp only [Step.run_bind, Step.run_lift, Step.run_pure, checkLines]
  simp only [bind, Except.bind, pure, Except.pure]
  rcases resolveBlocks conditions text with e | resolved
  · rfl
  · by_cases hresolved : lineCount resolved = lineCount text
    · rcases hfill : substitute placeholders (applyInline conditions resolved) with e | filled
      · simp only [hresolved, if_true, hfill]
      · by_cases hfilled : lineCount filled = lineCount text
        · simp only [hresolved, if_true, hfill, hfilled]
        · simp only [hresolved, if_true, hfill, hfilled, if_false]
    · simp only [hresolved, if_false]

section Named

variable {source text out : String}

theorem exists_of_preprocessNamed_ok
    (h : preprocessNamed conditions placeholders source text = .ok out) :
    ∃ resolved, resolveBlocks conditions text = .ok resolved ∧
      substitute placeholders (applyInline conditions resolved) = .ok out ∧
      lineCount out = lineCount text := by
  rw [preprocessNamed_eq] at h
  simp only [bind, Except.bind, pure, Except.pure, checkLines] at h
  rcases hresolved : resolveBlocks conditions text with e | resolved
  · simp only [hresolved] at h
    cases h
  · simp only [hresolved] at h
    split at h
    · cases h
    · rcases hfill : substitute placeholders (applyInline conditions resolved) with e | filled
      · simp only [hfill] at h
        cases h
      · simp only [hfill] at h
        by_cases hcount : lineCount filled = lineCount text
        · simp only [hcount, if_true] at h
          cases h
          exact ⟨resolved, rfl, hfill, hcount⟩
        · simp only [hcount, if_false] at h
          cases h

/-- **Preprocessing works line by line**: what the blocks leave of the lines, with the inline
conditionals carried out and the markers filled in, are the lines of the result. -/
theorem exists_lines_of_preprocessNamed
    (h : preprocessNamed conditions placeholders source text = .ok out) :
    ∃ kept, resolveLines conditions 1 [] (lines text.toList) = .ok kept ∧
      fillLines placeholders 1 (kept.map (applyInlineToLine conditions))
        = .ok (lines out.toList) := by
  obtain ⟨resolved, hresolved, hfill, hcount⟩ := exists_of_preprocessNamed_ok h
  have hkept := exists_of_resolveBlocks_ok hresolved
  refine ⟨lines resolved.toList, hkept, ?_⟩
  rw [substitute, lines_applyInline] at hfill
  obtain ⟨filled, hlines, rfl⟩ := Step.exists_of_map_eq_ok hfill
  -- as many lines as before, so no value has brought a newline
  have hlength : filled.length = (lines text.toList).length := by
    rw [length_fillLines hlines, List.length_map, length_resolveLines hkept]
  have hne : filled ≠ [] := by
    rintro rfl
    rw [length_lines] at hlength
    cases hlength
  rw [lineCount, lineCount, String.toList_ofList, ← hlength] at hcount
  rw [hlines, String.toList_ofList, lines_unlines_of_length hne hcount]

/-- A line of the result that is not blank stands in the place of a line of the source that is no
directive and lies in no inactive block. -/
theorem preprocessNamed_kept
    (h : preprocessNamed conditions placeholders source text = .ok out) {i : Nat} {l : List Char}
    (hi : (lines out.toList)[i]? = some l) (hne : l ≠ []) :
    ∃ line, (lines text.toList)[i]? = some line ∧ directive? line = none ∧
      ¬ Inactive conditions ((lines text.toList).take i) := by
  obtain ⟨kept, hkept, hfill⟩ := exists_lines_of_preprocessNamed h
  obtain ⟨inlined, hinlined, hl⟩ := getElem?_fillLines hfill hi
  rw [List.getElem?_map] at hinlined
  obtain ⟨line, hline, rfl⟩ := Option.map_eq_some_iff.mp hinlined
  have hblank : line ≠ [] := by
    -- a blank line stays blank in the last two passes
    rintro rfl
    rw [applyInlineToLine_nil] at hl
    cases hl
    exact hne rfl
  obtain ⟨hsource, hdirective, hactive, -⟩ := resolveLines_kept hkept hline hblank
  exact ⟨line, hsource, hdirective, hactive⟩

/-- A text that is not preprocessed is refused at one of its lines, or for the number of lines. -/
theorem preprocessNamed_within {e : Error}
    (h : preprocessNamed conditions placeholders source text = .error e) :
    e.Within (HasLine text) := by
  rw [preprocessNamed_eq] at h
  simp only [bind, Except.bind, pure, Except.pure] at h
  rcases hresolved : resolveBlocks conditions text with e' | resolved
  · simp only [hresolved] at h
    cases h
    exact resolveBlocks_within hresolved
  · simp only [hresolved] at h
    -- the placeholders see as many lines as the text has
    have hcount : lineCount (applyInline conditions resolved) = lineCount text := by
      rw [lineCount_applyInline, lineCount_of_resolveBlocks_ok hresolved]
    rcases hstage : checkLines source (lineCount text) .conditionals resolved with e' | ok
    · simp only [hstage] at h
      cases h
      exact checkLines_within _ hstage
    · simp only [hstage] at h
      rcases hfill : substitute placeholders (applyInline conditions resolved) with e' | filled
      · simp only [hfill] at h
        cases h
        refine (substitute_within hfill).imp fun n hn => ?_
        rw [HasLine, hcount] at hn
        exact hn
      · simp only [hfill] at h
        rcases hstage' : checkLines source (lineCount text) .placeholders filled with e' | ok
        · simp only [hstage'] at h
          cases h
          exact checkLines_within _ hstage'
        · simp only [hstage'] at h
          cases h

end Named

end SiteConf.Source
