import SiteConf.Proofs.Addresses
import SiteConf.Proofs.LineLocality
import SiteConf.Proofs.Markers
import SiteConf.Proofs.TokenLines

set_option autoImplicit false

/-! # Lines that hold a comment only

An inline conditional that does not hold stays in the text and is read as a comment. So the text
might as well have an empty line in its place: the tokens, their lines and all errors are the
same (`falsified_lines_vanish`).

The lexer has to be outside of a quoted text at the start of such a line. A quoted text goes on
over the end of a line only behind a backslash, so it is, as long as no line ends in one. `Faded`
compares what is left of two texts while the lexer goes through them: they are the same up to
comment lines that are empty in the second, and whether the lexer stands at the start of a line is
part of the comparison, because a comment line can be left out only there. -/

namespace SiteConf.Token

open Text

/-! ## Texts with faded comments -/

/-- The line holds white space and a comment. -/
def IsCommentLine (l : List Char) : Prop :=
  ∃ indent body, l = indent ++ '#' :: body ∧ ∀ c ∈ indent, isBlank c = true

/-- The line, or what is left of it, ends here. -/
def AtLineEnd (cs : List Char) : Prop :=
  ∀ c ∈ cs.head?, c = '\n'

/-- The second text is the first one with some comment lines emptied. The texts start at the start
of a line if `fresh` says so, and no line of the first one ends in a backslash. -/
inductive Faded : Bool → List Char → List Char → Prop where
  | nil {fresh : Bool} : Faded fresh [] []
  | newline {fresh : Bool} {cs ds : List Char} (h : Faded true cs ds) :
      Faded fresh ('\n' :: cs) ('\n' :: ds)
  | char {fresh : Bool} {c : Char} {cs ds : List Char} (hc : c ≠ '\n')
      (hslash : c = '\\' → ¬ ∃ rest, cs = '\n' :: rest) (h : Faded false cs ds) :
      Faded fresh (c :: cs) (c :: ds)
  | comment {l cs ds : List Char} (hl : IsCommentLine l) (hnewline : '\n' ∉ l)
      (hend : AtLineEnd cs) (h : Faded false cs ds) : Faded true (l ++ cs) ds

section Faded

variable {c : Char} {cs ds : List Char}

/-- In the middle of a line both texts go on with the same character. -/
theorem Faded.of_cons (h : Faded false (c :: cs) ds) (hc : c ≠ '\n') :
    ∃ ds', ds = c :: ds' ∧ Faded false cs ds' := by
  cases h with
  | newline => exact absurd rfl hc
  | char _ _ h => exact ⟨_, rfl, h⟩

theorem Faded.of_newline (h : Faded false ('\n' :: cs) ds) :
    ∃ ds', ds = '\n' :: ds' := by
  cases h with
  | newline h => exact ⟨_, rfl⟩
  | char hc => exact absurd rfl hc

theorem Faded.of_nil (h : Faded false [] ds) : ds = [] := by
  cases h
  rfl

/-- An escape does not reach over the end of the line. -/
theorem Faded.of_escape {e : Char} (h : Faded false ('\\' :: e :: cs) ds) :
    e ≠ '\n' ∧ ∃ ds', ds = '\\' :: e :: ds' ∧ Faded false cs ds' := by
  cases h with
  | char hc hslash h =>
      have he : e ≠ '\n' := by
        rintro rfl
        exact hslash rfl ⟨cs, rfl⟩
      obtain ⟨ds', rfl, h'⟩ := h.of_cons he
      exact ⟨he, ds', rfl, h'⟩

theorem Faded.head?_eq (h : Faded false cs ds) : cs.head? = ds.head? := by
  cases h <;> rfl

/-- A run of characters that are no newlines is the same in both texts. -/
theorem Faded.span {p : Char → Bool} (hp : p '\n' = false) (h : Faded false cs ds) :
    cs.takeWhile p = ds.takeWhile p ∧ Faded false (cs.dropWhile p) (ds.dropWhile p) := by
  induction cs generalizing ds with
  | nil =>
      obtain rfl := h.of_nil
      exact ⟨rfl, .nil⟩
  | cons c cs ih =>
      by_cases hc : p c = true
      · have hne : c ≠ '\n' := by
          rintro rfl
          rw [hp] at hc
          cases hc
        obtain ⟨ds', rfl, h'⟩ := h.of_cons hne
        obtain ⟨htake, hdrop⟩ := ih h'
        rw [List.takeWhile_cons_of_pos hc, List.takeWhile_cons_of_pos hc, htake,
          List.dropWhile_cons_of_pos hc, List.dropWhile_cons_of_pos hc]
        exact ⟨rfl, hdrop⟩
      · obtain ⟨ds', rfl⟩ : ∃ ds', ds = c :: ds' := by
          cases h with
          | newline => exact ⟨_, rfl⟩
          | char => exact ⟨_, rfl⟩
        rw [List.takeWhile_cons_of_neg hc, List.takeWhile_cons_of_neg hc,
          List.dropWhile_cons_of_neg hc, List.dropWhile_cons_of_neg hc]
        exact ⟨rfl, h⟩

end Faded

/-! ## White space and comments -/

/-- A comment is over at the end of its line. -/
theorem skipTrivia_of_atLineEnd {cs : List Char} (h : AtLineEnd cs) (line : Nat) :
    skipTrivia true line cs = skipTrivia false line cs := by
  cases cs with
  | nil => rfl
  | cons c cs =>
      obtain rfl := h c rfl
      rw [skipTrivia, skipTrivia, if_pos rfl, if_pos rfl]

theorem skipTrivia_commentLine {l cs : List Char} (hl : IsCommentLine l) (hnewline : '\n' ∉ l)
    (hend : AtLineEnd cs) (line : Nat) :
    skipTrivia false line (l ++ cs) = skipTrivia false line cs := by
  obtain ⟨indent, body, rfl, hindent⟩ := hl
  induction indent with
  | nil =>
      have hbody : '\n' ∉ body := fun hmem => hnewline (List.mem_cons_of_mem '#' hmem)
      rw [List.nil_append, List.cons_append, skipTrivia, if_neg (by decide), if_pos (by decide),
        skipTrivia_comment hbody, skipTrivia_of_atLineEnd hend]
  | cons c indent ih =>
      obtain ⟨hc, hindent⟩ := List.forall_mem_cons.mp hindent
      have hne : c ≠ '\n' := fun heq => hnewline (heq ▸ List.mem_cons_self)
      have hhash : (false || c == '#') = false := by
        rw [Bool.false_or, beq_eq_false_iff_ne]
        rintro rfl
        revert hc
        decide
      rw [List.cons_append, List.cons_append, skipTrivia, if_neg hne, hhash,
        if_neg Bool.false_ne_true, if_pos hc]
      exact ih hindent fun hmem => hnewline (List.mem_cons_of_mem c hmem)

/-- White space and comments are skipped to the same place. -/
theorem skipTrivia_faded {fresh inComment : Bool} (line : Nat) {cs ds : List Char}
    (h : Faded fresh cs ds) (hfresh : fresh = true → inComment = false) :
    (skipTrivia inComment line cs).2 = (skipTrivia inComment line ds).2 ∧
      Faded false (skipTrivia inComment line cs).1 (skipTrivia inComment line ds).1 := by
  induction h generalizing inComment line with
  | nil => exact ⟨rfl, .nil⟩
  | newline h ih =>
      rw [skipTrivia, skipTrivia, if_pos rfl, if_pos rfl]
      exact ih (line + 1) fun _ => rfl
  | @char _ c cs ds hc hslash h ih =>
      rw [skipTrivia, skipTrivia, if_neg hc, if_neg hc]
      by_cases hcomment : (inComment || c == '#') = true
      · rw [if_pos hcomment, if_pos hcomment]
        exact ih line fun h => absurd h Bool.false_ne_true
      · rw [if_neg hcomment, if_neg hcomment]
        by_cases hblank : isBlank c = true
        · rw [if_pos hblank, if_pos hblank]
          exact ih line fun h => absurd h Bool.false_ne_true
        · rw [if_neg hblank, if_neg hblank]
          exact ⟨rfl, .char hc hslash h⟩
  | comment hl hnewline hend h ih =>
      rw [hfresh rfl, skipTrivia_commentLine hl hnewline hend]
      exact ih line fun h => absurd h Bool.false_ne_true

/-! ## Tokens -/

/-- A quoted text is the same in both texts. -/
theorem stringBody_faded {quote : Char} (line : Nat) {cs ds : List Char} (hquote : quote ≠ '\n')
    (h : Faded false cs ds) :
    (stringBody quote line cs = none ∧ stringBody quote line ds = none) ∨
      ∃ text rest rest' n, stringBody quote line cs = some (text, rest, n) ∧
        stringBody quote line ds = some (text, rest', n) ∧ Faded false rest rest' ∧
        rest.length ≤ cs.length ∧ rest'.length ≤ ds.length := by
  fun_induction stringBody quote line cs generalizing ds with
  | case1 =>
      obtain rfl := h.of_nil
      exact .inl ⟨rfl, rfl⟩
  | case2 line cs =>
      obtain ⟨ds', rfl, h'⟩ := h.of_cons hquote
      refine .inr ⟨[], cs, ds', line, rfl, ?_, h', by simp, by simp⟩
      unfold stringBody
      rw [if_pos rfl]
  | case3 line hslash =>
      obtain ⟨ds', rfl, h'⟩ := h.of_cons (by decide)
      obtain rfl := h'.of_nil
      refine .inl ⟨rfl, ?_⟩
      unfold stringBody
      rw [if_neg hslash, if_pos rfl]
  | case4 line e cs hslash ih =>
      obtain ⟨he, ds', rfl, h'⟩ := h.of_escape
      have hbody : stringBody quote line ('\\' :: e :: ds')
          = (stringBody quote (if e = '\n' then line + 1 else line) ds').map
            fun r => (unescape e ++ r.1, r.2) := by
        rw [stringBody, if_neg hslash, if_pos rfl]
      rw [hbody]
      rcases ih h' with ⟨hnone, hnone'⟩ | ⟨text, rest, rest', n, hsome, hsome', hrest, hlen, hlen'⟩
      · rw [hnone, hnone']
        exact .inl ⟨rfl, rfl⟩
      · rw [hsome, hsome']
        refine .inr ⟨unescape e ++ text, rest, rest', n, rfl, rfl, hrest, ?_, ?_⟩
        · rw [List.length_cons, List.length_cons]
          omega
        · rw [List.length_cons, List.length_cons]
          omega
  | case5 line cs hne hslash =>
      obtain ⟨ds', rfl⟩ := h.of_newline
      refine .inl ⟨rfl, ?_⟩
      unfold stringBody
      rw [if_neg hne, if_neg hslash, if_pos rfl]
  | case6 line c cs hne hslash hnewline ih =>
      obtain ⟨ds', rfl, h'⟩ := h.of_cons hnewline
      have hbody : stringBody quote line (c :: ds')
          = (stringBody quote line ds').map fun r => (c :: r.1, r.2) := by
        rw [stringBody.eq_def]
        simp only [if_neg hne, if_neg hslash, if_neg hnewline]
      rw [hbody]
      rcases ih h' with ⟨hnone, hnone'⟩ | ⟨text, rest, rest', n, hsome, hsome', hrest, hlen, hlen'⟩
      · rw [hnone, hnone']
        exact .inl ⟨rfl, rfl⟩
      · rw [hsome, hsome']
        refine .inr ⟨c :: text, rest, rest', n, rfl, rfl, hrest, ?_, ?_⟩
        · rw [List.length_cons]
          omega
        · rw [List.length_cons]
          omega

/-- **A token is the same in both texts**, and so is what goes wrong with it. -/
theorem lexeme_faded (line : Nat) {c : Char} {cs ds : List Char} (hc : c ≠ '\n')
    (h : Faded false cs ds) :
    (∃ issue, lexeme line c cs = .error issue ∧ lexeme line c ds = .error issue) ∨
      ∃ kind rest rest' n, lexeme line c cs = .ok (kind, rest, n) ∧
        lexeme line c ds = .ok (kind, rest', n) ∧ Faded false rest rest' ∧
        rest.length ≤ cs.length ∧ rest'.length ≤ ds.length := by
  unfold lexeme
  rcases punctuation? c with _ | kind
  · by_cases hquote : c = '"' ∨ c.toNat = 39
    · simp only [if_pos hquote]
      rcases stringBody_faded line hc h with
        ⟨hnone, hnone'⟩ | ⟨text, rest, rest', n, hsome, hsome', hrest⟩
      · rw [hnone, hnone']
        exact .inl ⟨_, rfl, rfl⟩
      · rw [hsome, hsome']
        exact .inr ⟨_, rest, rest', n, rfl, rfl, hrest⟩
    · simp only [if_neg hquote]
      by_cases hdigit : c.isDigit = true
      · obtain ⟨htake, hdrop⟩ := h.span (p := Char.isDigit) (by decide)
        have hnumber : ∀ run, ofNumber run (cs.dropWhile Char.isDigit)
            = ofNumber run (ds.dropWhile Char.isDigit) := by
          intro run
          rw [ofNumber, ofNumber, hdrop.head?_eq]
        simp only [if_pos hdigit, htake, hnumber]
        rcases ofNumber (c :: ds.takeWhile Char.isDigit) (ds.dropWhile Char.isDigit) with
          issue | kind
        · exact .inl ⟨issue, rfl, rfl⟩
        · exact .inr ⟨kind, _, _, line, rfl, rfl, hdrop, List.length_dropWhile_le _ _,
            List.length_dropWhile_le _ _⟩
      · simp only [if_neg hdigit]
        by_cases hword : startsWord c = true
        · obtain ⟨htake, hdrop⟩ := h.span (p := continuesWord) (by decide +kernel)
          simp only [if_pos hword, htake]
          exact .inr ⟨_, _, _, line, rfl, rfl, hdrop, List.length_dropWhile_le _ _,
            List.length_dropWhile_le _ _⟩
        · simp only [if_neg hword]
          exact .inl ⟨_, rfl, rfl⟩
  · exact .inr ⟨kind, cs, ds, line, rfl, rfl, h, le_rfl, le_rfl⟩

/-- **Emptied comment lines do not show in the tokens.** -/
theorem scan_faded {fresh : Bool} {fuel fuel' line : Nat} {cs ds : List Char}
    (h : Faded fresh cs ds) (hfuel : cs.length < fuel) (hfuel' : ds.length < fuel') :
    scan fuel line cs = scan fuel' line ds := by
  induction fuel generalizing fresh fuel' line cs ds with
  | zero => cases hfuel
  | succ fuel ih =>
      obtain ⟨fuel', rfl⟩ :=
        Nat.exists_eq_add_one_of_ne_zero (Nat.ne_of_gt (Nat.zero_lt_of_lt hfuel'))
      obtain ⟨hline, hrest⟩ := skipTrivia_faded line h fun _ => rfl
      rw [scan, scan]
      rcases hskip : skipTrivia false line cs with ⟨_ | ⟨c, cs'⟩, n⟩
      · rw [hskip] at hline hrest
        rcases hskip' : skipTrivia false line ds with ⟨ds', n'⟩
        rw [hskip'] at hline hrest
        obtain rfl := hrest.of_nil
        rw [show n = n' from hline]
      · rw [hskip] at hline hrest
        obtain ⟨hreaches, hhead⟩ := skipTrivia_reaches hskip
        have hc : c ≠ '\n' := hhead c rfl
        rcases hskip' : skipTrivia false line ds with ⟨ds', n'⟩
        rw [hskip'] at hline hrest
        obtain rfl : n = n' := hline
        obtain ⟨ds'', rfl, hrest'⟩ := hrest.of_cons hc
        obtain ⟨hreaches', -⟩ := skipTrivia_reaches hskip'
        have hlength := hreaches.length_le
        have hlength' := hreaches'.length_le
        rw [List.length_cons] at hlength hlength'
        rcases lexeme_faded n hc hrest' with
          ⟨issue, herror, herror'⟩ | ⟨kind, rest, rest', m, hok, hok', hfaded, hlen, hlen'⟩
        · simp only [herror, herror']
        · simp only [hok, hok', ih hfaded (by omega : rest.length < fuel)
            (by omega : rest'.length < fuel')]

theorem tokenize_faded {text text' : String} (h : Faded true text.toList text'.toList) :
    tokenize text = tokenize text' :=
  scan_faded h (Nat.lt_succ_self _) (Nat.lt_succ_self _)

/-! ## Line by line -/

/-- The second line is the first one, or is empty in the place of a comment line. -/
def FadedLine (l m : List Char) : Prop :=
  m = l ∨ IsCommentLine l ∧ m = []

/-- A line may be put in front of what follows its end. -/
theorem Faded.line {fresh : Bool} {l cs ds : List Char} (hnewline : '\n' ∉ l)
    (hslash : l.getLast? ≠ some '\\') (hend : AtLineEnd cs) (h : Faded false cs ds) :
    Faded fresh (l ++ cs) (l ++ ds) := by
  induction l generalizing fresh with
  | nil =>
      cases h with
      | nil => exact .nil
      | newline h => exact .newline h
      | char hc => exact absurd (hend _ rfl) hc
  | cons c l ih =>
      have hc : c ≠ '\n' := fun heq => hnewline (heq ▸ List.mem_cons_self)
      have hl : '\n' ∉ l := fun hmem => hnewline (List.mem_cons_of_mem c hmem)
      have hlast : l.getLast? ≠ some '\\' := by
        intro hlast
        rw [List.getLast?_cons, hlast] at hslash
        exact hslash rfl
      refine .char hc ?_ (ih hl hlast)
      rintro rfl ⟨rest, hrest⟩
      cases l with
      | nil => exact hslash rfl
      | cons d l =>
          obtain ⟨rfl, -⟩ := List.cons.inj hrest
          exact hl List.mem_cons_self

theorem faded_unlines {ls ms : List (List Char)} (h : List.Forall₂ FadedLine ls ms)
    (hnewline : ∀ l ∈ ls, '\n' ∉ l) (hslash : ∀ l ∈ ls, l.getLast? ≠ some '\\') :
    Faded true (unlines ls) (unlines ms) := by
  induction h with
  | nil => exact .nil
  | @cons l m ls ms hline htail ih =>
      obtain ⟨hl, hls⟩ := List.forall_mem_cons.mp hnewline
      obtain ⟨hlast, hlasts⟩ := List.forall_mem_cons.mp hslash
      -- whatever follows the line starts with its end
      have hfront : ∀ cs ds, AtLineEnd cs → Faded false cs ds → Faded true (l ++ cs) (m ++ ds) := by
        intro cs ds hend hfaded
        rcases hline with rfl | ⟨hcomment, rfl⟩
        · exact hfaded.line hl hlast hend
        · exact .comment hcomment hl hend hfaded
      cases htail with
      | nil =>
          have hlone := hfront [] [] nofun .nil
          rw [List.append_nil, List.append_nil] at hlone
          exact hlone
      | cons hnext hrest =>
          rw [unlines, unlines]
          refine hfront _ _ (fun c hc => ?_) (.newline (ih hls hlasts))
          exact (Option.some.inj hc).symm

end SiteConf.Token

namespace SiteConf.Source

open Text Token

/-! ## Inline conditionals that do not hold -/

/-- The line is an inline conditional with a test that does not hold: it is left in place. -/
def isFalsified (conditions : Conditions) (line : List Char) : Bool :=
  (inlineConditional? line).any fun c => !c.tests.all (·.holds conditions)

/-- The text with its inline conditionals carried out, where those that do not hold are replaced
by empty lines. -/
def emptyFalsified (conditions : Conditions) (text : String) : String :=
  String.ofList (unlines ((lines text.toList).map fun l =>
    if isFalsified conditions l then [] else applyInlineToLine conditions l))

section Falsified

variable {conditions : Conditions} {placeholders : Placeholders} {l : List Char}

/-- The line is left as it is, and a `#` is the first of it. -/
theorem of_isFalsified (h : isFalsified conditions l = true) :
    applyInlineToLine conditions l = l ∧ IsCommentLine l := by
  rw [isFalsified, Option.any_eq_true] at h
  obtain ⟨c, hc, htests⟩ := h
  rw [Bool.not_eq_true'] at htests
  constructor
  · rw [applyInlineToLine, hc]
    simp only [htests, Bool.false_eq_true, if_false]
  · unfold inlineConditional? at hc
    split at hc
    · rename_i body hbody
      refine ⟨l.takeWhile isBlank, body, ?_, fun c hc => List.mem_takeWhile_imp hc⟩
      rw [← hbody, List.takeWhile_append_dropWhile]
    · cases hc

theorem lines_emptyFalsified (text : String) :
    lines (emptyFalsified conditions text).toList
      = (lines text.toList).map fun l =>
          if isFalsified conditions l then [] else applyInlineToLine conditions l := by
  obtain ⟨l, ls, hlines⟩ := exists_lines_eq_cons text.toList
  rw [emptyFalsified, String.toList_ofList]
  apply lines_unlines
  · rw [hlines]
    exact List.cons_ne_nil _ _
  · refine List.forall_mem_map.mpr fun line hline hmem => ?_
    split at hmem
    · cases hmem
    · exact newline_not_mem_of_mem_lines line hline (mem_of_mem_applyInlineToLine hmem)

theorem fillLine_cons {c : Char} (hc : c ≠ '@') (cs : List Char) :
    fillLine placeholders (c :: cs) = c :: fillLine placeholders cs := by
  rw [fillLine, pieces_plain (marker?_cons_of_ne hc cs), fillLine, List.flatMap_cons]
  rfl

/-- A comment line is one also when its markers are filled in. -/
theorem isCommentLine_fillLine (h : IsCommentLine l) :
    IsCommentLine (fillLine placeholders l) := by
  obtain ⟨indent, body, rfl, hindent⟩ := h
  refine ⟨indent, fillLine placeholders body, ?_, hindent⟩
  induction indent with
  | nil => exact fillLine_cons (by decide) body
  | cons c indent ih =>
      obtain ⟨hc, hindent⟩ := List.forall_mem_cons.mp hindent
      have hne : c ≠ '@' := by
        rintro rfl
        revert hc
        decide
      rw [List.cons_append, fillLine_cons hne, ih hindent]
      rfl

/-- Lines that are emptied need no values, so the others are filled in as before. -/
theorem fillLines_emptied {line : Nat} {ls out : List (List Char)}
    (h : fillLines placeholders line (ls.map (applyInlineToLine conditions)) = .ok out) :
    ∃ out', fillLines placeholders line (ls.map fun l =>
        if isFalsified conditions l then [] else applyInlineToLine conditions l) = .ok out' ∧
      List.Forall₂ FadedLine out out' := by
  induction ls generalizing line out with
  | nil =>
      cases h
      exact ⟨[], rfl, .nil⟩
  | cons l ls ih =>
      obtain ⟨here, later, hhere, hlater, rfl⟩ := fillLines_cons_eq_ok h
      obtain ⟨later', hlater', hfaded⟩ := ih hlater
      by_cases hfalse : isFalsified conditions l = true
      · refine ⟨[] :: later', ?_, .cons (.inr ⟨?_, rfl⟩) hfaded⟩
        · rw [List.map_cons, if_pos hfalse, fillLines, hlater']
          rfl
        · obtain ⟨hkept, hcomment⟩ := of_isFalsified hfalse
          rw [hkept] at hhere
          rw [eq_flatMap_of_fill hhere]
          exact isCommentLine_fillLine hcomment
      · refine ⟨here :: later', ?_, .cons (.inl rfl) hfaded⟩
        rw [List.map_cons, if_neg hfalse, fillLines, hhere, hlater']
        rfl

end Falsified

end SiteConf.Source

namespace SiteConf.Compiler

open Source Text Token

/-- **Inline conditionals that do not hold vanish when the text is read.** If no line of the
preprocessed text ends in a backslash, the text could as well have empty lines in their places when
the placeholders are filled in: what it is read as stays the same, down to its lines, and so does
the error with which it is refused. -/
theorem falsified_lines_vanish (c : Compiler) (name text filled : String)
    (h : (c.preprocess name text).result = .ok filled)
    (hslash : ∀ l ∈ lines filled.toList, l.getLast? ≠ some '\\') :
    ∃ resolved filled', resolveBlocks c.conditions text = .ok resolved ∧
      substitute c.placeholders (emptyFalsified c.conditions resolved) = .ok filled' ∧
      Document.parse filled' = Document.parse filled := by
  rw [result_preprocess] at h
  obtain ⟨resolved, hresolved, -⟩ := exists_of_preprocessNamed_ok h
  obtain ⟨kept, hkept, hfill⟩ := exists_lines_of_preprocessNamed h
  obtain rfl : lines resolved.toList = kept := by
    rw [exists_of_resolveBlocks_ok hresolved] at hkept
    exact Except.ok.inj hkept
  obtain ⟨out', hout', hfaded⟩ := fillLines_emptied hfill
  refine ⟨resolved, String.ofList (unlines out'), hresolved, ?_, ?_⟩
  · rw [substitute, lines_emptyFalsified, hout']
    rfl
  · have hlines := faded_unlines hfaded newline_not_mem_of_mem_lines hslash
    rw [unlines_lines] at hlines
    have htokens : tokenize filled = tokenize (String.ofList (unlines out')) := by
      apply tokenize_faded
      rw [String.toList_ofList]
      exact hlines
    unfold Document.parse
    rw [htokens]

/-- A text with an inline conditional that holds and one that does not. -/
def guardedText : String :=
  "\x7ba: 1,\n  #tls b: @@P@@,\n#!tls c: @@P@@\x7d"

/-- The line with the condition that does not hold is read as an empty line would be. -/
theorem falsified_lines_vanish_guardedText :
    (preprocess ⟨[], [("P", .int 7)]⟩ "site" guardedText).result
        = .ok "\x7ba: 1,\n  #tls b: 7,\nc: 7\x7d" ∧
      Document.parse "\x7ba: 1,\n\nc: 7\x7d"
        = Document.parse "\x7ba: 1,\n  #tls b: 7,\nc: 7\x7d" := by
  have hfilled : (preprocess ⟨[], [("P", .int 7)]⟩ "site" guardedText).result
      = .ok "\x7ba: 1,\n  #tls b: 7,\nc: 7\x7d" := by decide +kernel
  obtain ⟨resolved, filled, hresolved, hsubstitute, hparse⟩ :=
    falsified_lines_vanish ⟨[], [("P", .int 7)]⟩ "site" guardedText _ hfilled (by decide +kernel)
  have hsame : resolveBlocks [] guardedText = .ok guardedText := by decide +kernel
  obtain rfl : guardedText = resolved := Except.ok.inj (hsame.symm.trans hresolved)
  have hempty : substitute [("P", .int 7)] (emptyFalsified [] guardedText)
      = .ok "\x7ba: 1,\n\nc: 7\x7d" := by decide +kernel
  obtain rfl : "\x7ba: 1,\n\nc: 7\x7d" = filled := Except.ok.inj (hempty.symm.trans hsubstitute)
  exact ⟨hfilled, hparse⟩

end SiteConf.Compiler
