import SiteConf.Proofs.KeyPath
import SiteConf.Token.Lexer

set_option autoImplicit false

/-! # Gaps and lexemes

What the lexer takes from a text in one step, said without the lexer: a *gap* is white space and
comments, and a token is *spelled* by certain characters. A number or a word reaches as far as it
can (`Stops`).

* The lexer skips a gap up to the next visible character (`skipTrivia_gap`, `skipTrivia_spec`).
* It reads the characters between quotes as the text that they write, and nothing else
  (`stringBody_of_written`, `written_of_stringBody`).
* At a visible character a token is spelled or something is wrong (`spells_or_offends`), and the
  lexer reads the token or says what is wrong (`lexeme_of_spells`, `lexeme_of_offends`).

Newlines are counted on the way: all newlines of a gap, and those that are escaped in a text. -/

namespace SiteConf.Token

/-! ## Classes of characters -/

/-- May a token start with the character? -/
def isVisible (c : Char) : Bool :=
  c != '\n' && c != '#' && !Text.isBlank c

/-- Texts are written between two quotes of either kind. -/
def IsQuote (c : Char) : Prop :=
  c = '"' ∨ c.toNat = 39

def marks : List Char :=
  ['{', '}', '[', ']', ':', ',', '.', '-']

def quotes : List Char :=
  ['"', Char.ofNat 39]

/-- The code points of white space. -/
def blankCodes : List Nat :=
  [9, 10, 11, 12, 13, 32, 0x85, 0xa0, 0x1680, 0x2000, 0x2001, 0x2002, 0x2003, 0x2004, 0x2005,
   0x2006, 0x2007, 0x2008, 0x2009, 0x200a, 0x2028, 0x2029, 0x202f, 0x205f, 0x3000]

section Characters

variable {c : Char} {kind : TokenKind}

theorem isVisible_iff :
    isVisible c = true ↔ c ≠ '\n' ∧ c ≠ '#' ∧ Text.isBlank c = false := by
  simp only [isVisible, Bool.and_eq_true, bne_iff_ne, Bool.not_eq_true', and_assoc]

theorem mem_marks_of_punctuation? (h : punctuation? c = some kind) : c ∈ marks := by
  by_contra hc
  simp only [marks, List.mem_cons, List.not_mem_nil, or_false, not_or] at hc
  simp [punctuation?, hc] at h

theorem mem_quotes (h : IsQuote c) : c ∈ quotes := by
  rcases h with rfl | h
  · exact List.mem_cons_self
  · rw [← Char.ofNat_toNat c, h]
    exact List.mem_cons_of_mem _ List.mem_cons_self

theorem mem_blankCodes (h : Text.isBlank c = true) : c.toNat ∈ blankCodes := by
  simp only [Text.isBlank, Text.blankRanges, Text.Ranges.mem, Bool.or_eq_true, beq_iff_eq,
    Bool.and_eq_true, decide_eq_true_eq, List.any_cons, List.any_nil, Bool.or_false] at h
  simp only [blankCodes, List.mem_cons, List.not_mem_nil, or_false]
  rcases h with (rfl | h) | h
  · decide
  · omega
  · omega

/-- A mark starts a token, and neither a number nor a word goes on with one. -/
theorem marks_lexical (h : c ∈ marks) : isVisible c = true ∧ continuesWord c = false := by
  have hall : (marks.all fun d => isVisible d && !continuesWord d) = true := by decide +kernel
  simpa using List.all_eq_true.mp hall c h

/-- So it is with a quote, and it is neither a mark nor a backslash. -/
theorem quote_lexical (h : IsQuote c) :
    isVisible c = true ∧ continuesWord c = false ∧ punctuation? c = none ∧ c ≠ '\\' := by
  have hall : (quotes.all fun d => isVisible d && (!continuesWord d
      && ((punctuation? d).isNone && d != '\\'))) = true := by decide +kernel
  simpa using List.all_eq_true.mp hall c (mem_quotes h)

theorem continuesWord_of_isBlank (h : Text.isBlank c = true) : continuesWord c = false := by
  have hall : (blankCodes.all fun n => !continuesWord (Char.ofNat n)) = true := by decide +kernel
  simpa using List.all_eq_true.mp hall c.toNat (mem_blankCodes h)

theorem continuesWord_of_isDigit (h : c.isDigit = true) : continuesWord c = true := by
  simp [continuesWord, Text.isAlphanumeric, Text.isNumeral, h]

theorem continuesWord_of_startsWord (h : startsWord c = true) : continuesWord c = true := by
  rw [startsWord, Bool.or_eq_true] at h
  rw [continuesWord, Bool.or_eq_true, Text.isAlphanumeric, Bool.or_eq_true]
  rcases h with h | h
  · exact .inl (.inl h)
  · exact .inr h

theorem startsWord_of_isDigit (h : c.isDigit = true) : startsWord c = false := by
  have hall : ((List.range' 48 10).all fun n => !startsWord (Char.ofNat n)) = true := by
    decide +kernel
  have hrange : c.toNat ∈ List.range' 48 10 := by
    simp only [Char.isDigit, Bool.and_eq_true, decide_eq_true_eq] at h
    have hlo : 48 ≤ c.toNat := h.1
    have hhi : c.toNat ≤ 57 := h.2
    rw [List.mem_range'_1]
    omega
  simpa using List.all_eq_true.mp hall c.toNat hrange

/-- What can stand in a word starts a token, and that token is a number or a word. -/
theorem lexical_of_continuesWord (h : continuesWord c = true) :
    isVisible c = true ∧ punctuation? c = none ∧ ¬ IsQuote c := by
  have hfalse : ¬ continuesWord c = false := by simp [h]
  refine ⟨isVisible_iff.mpr ⟨?_, ?_, ?_⟩, ?_, fun hquote => hfalse (quote_lexical hquote).2.1⟩
  · rintro rfl
    exact hfalse (by decide +kernel)
  · rintro rfl
    exact hfalse (by decide +kernel)
  · exact Bool.eq_false_iff.mpr fun hblank => hfalse (continuesWord_of_isBlank hblank)
  · rw [Option.eq_none_iff_forall_not_mem]
    exact fun kind hkind => hfalse (marks_lexical (mem_marks_of_punctuation? hkind)).2

end Characters

/-! ## Gaps -/

/-- White space and comments. A comment ends with its line; only the last one of a text may do
without a newline. -/
inductive Gap (final : Bool) : List Char → Prop where
  | nil : Gap final []
  | blank {c : Char} {cs : List Char} (hc : Text.isBlank c = true) (hcs : Gap final cs) :
      Gap final (c :: cs)
  | comment {body cs : List Char} (hbody : '\n' ∉ body) (hcs : Gap final cs) :
      Gap final ('#' :: (body ++ '\n' :: cs))
  | last {body : List Char} (hfinal : final = true) (hbody : '\n' ∉ body) :
      Gap final ('#' :: body)

section Gap

variable {final : Bool} {c : Char} {cs gap rest body : List Char} {line n : Nat}

/-- A comment may have one character more. -/
theorem Gap.cons_comment (hc : c ≠ '\n') (h : Gap final ('#' :: cs)) :
    Gap final ('#' :: c :: cs) := by
  generalize hcs : '#' :: cs = ds at h
  cases h with
  | nil => cases hcs
  | blank hblank =>
      obtain ⟨rfl, -⟩ := List.cons.inj hcs
      exact absurd hblank (by decide)
  | comment hbody hrest =>
      obtain ⟨-, rfl⟩ := List.cons.inj hcs
      exact .comment (List.not_mem_cons_of_ne_of_not_mem (Ne.symm hc) hbody) hrest
  | last hfinal hbody =>
      obtain ⟨-, rfl⟩ := List.cons.inj hcs
      exact .last hfinal (List.not_mem_cons_of_ne_of_not_mem (Ne.symm hc) hbody)

/-- Neither a number nor a word goes on with a gap. -/
theorem Gap.continuesWord_head (h : Gap final gap) : ∀ c ∈ gap.head?, continuesWord c = false := by
  intro c hc
  cases h with
  | nil => cases hc
  | blank hblank =>
      obtain rfl := Option.some.inj hc
      exact continuesWord_of_isBlank hblank
  | comment | last =>
      obtain rfl := Option.some.inj hc
      decide +kernel

theorem skipTrivia_comment (hbody : '\n' ∉ body) (line : Nat) (cs : List Char) :
    skipTrivia true line (body ++ cs) = skipTrivia true line cs := by
  induction body with
  | nil => rfl
  | cons c body ih =>
      obtain ⟨hc, hbody⟩ := List.ne_and_not_mem_of_not_mem_cons hbody
      rw [List.cons_append, skipTrivia, if_neg (Ne.symm hc), Bool.true_or, if_pos rfl]
      exact ih hbody

/-- At a visible character there is nothing to skip. -/
theorem skipTrivia_of_isVisible (hc : isVisible c = true) (line : Nat) (cs : List Char) :
    skipTrivia false line (c :: cs) = (c :: cs, line) := by
  obtain ⟨hnewline, hcomment, hblank⟩ := isVisible_iff.mp hc
  rw [skipTrivia, if_neg hnewline, beq_false_of_ne hcomment, hblank]
  rfl

/-- **A gap is skipped**, with its newlines counted. -/
theorem skipTrivia_gap (h : Gap final gap) (hrest : final = true → rest = []) (line : Nat) :
    skipTrivia false line (gap ++ rest) = skipTrivia false (line + gap.count '\n') rest := by
  induction h generalizing line with
  | nil => rfl
  | @blank c cs hblank _ ih =>
      by_cases hc : c = '\n'
      · subst hc
        rw [List.cons_append, skipTrivia, if_pos rfl, ih, List.count_cons_self, Nat.add_assoc,
          Nat.add_comm 1]
      · have hhash : c ≠ '#' := by
          rintro rfl
          exact absurd hblank (by decide)
        rw [List.cons_append, skipTrivia, if_neg hc, beq_false_of_ne hhash, Bool.or_false,
          if_neg Bool.false_ne_true, if_pos hblank, ih, List.count_cons_of_ne hc]
  | @comment body cs hbody _ ih =>
      have hcount : ('#' :: (body ++ '\n' :: cs)).count '\n' = 1 + cs.count '\n' := by
        rw [List.count_cons_of_ne (by decide), List.count_append, List.count_eq_zero.mpr hbody,
          List.count_cons_self]
        omega
      -- the comment ends with its newline, and behind it the gap goes on
      calc skipTrivia false line ('#' :: (body ++ '\n' :: cs) ++ rest)
          = skipTrivia true line (body ++ '\n' :: (cs ++ rest)) := by
            rw [List.cons_append, List.append_assoc, skipTrivia, if_neg (by decide),
              if_pos (by decide)]
            rfl
        _ = skipTrivia true line ('\n' :: (cs ++ rest)) := skipTrivia_comment hbody line _
        _ = skipTrivia false (line + 1) (cs ++ rest) := by rw [skipTrivia, if_pos rfl]
        _ = skipTrivia false (line + 1 + cs.count '\n') rest := ih (line + 1)
        _ = skipTrivia false (line + ('#' :: (body ++ '\n' :: cs)).count '\n') rest := by
            rw [hcount, Nat.add_assoc]
  | @last body hfinal hbody =>
      have hzero : body.count '\n' = 0 := List.count_eq_zero.mpr hbody
      -- the comment ends with the text
      have hend : skipTrivia true line (body ++ []) = skipTrivia true line [] :=
        skipTrivia_comment hbody line []
      rw [List.append_nil] at hend
      have hstart : skipTrivia false line ('#' :: body) = skipTrivia true line body := by
        rw [skipTrivia, if_neg (by decide), if_pos (by decide)]
      rw [hrest hfinal, List.append_nil, hstart, hend, List.count_cons_of_ne (by decide), hzero]
      rfl

/-- What is skipped is a gap, and it reaches to a visible character or to the end. Inside a comment
it is a gap with the start of the comment before it. -/
theorem skipTrivia_spec {inComment : Bool} (h : skipTrivia inComment line cs = (rest, n)) :
    ∃ gap, cs = gap ++ rest ∧ n = line + gap.count '\n' ∧
      Gap rest.isEmpty ((if inComment then ['#'] else []) ++ gap) ∧
      ∀ c ∈ rest.head?, isVisible c = true := by
  induction cs generalizing inComment line with
  | nil =>
      cases h
      refine ⟨[], rfl, rfl, ?_, by rintro c ⟨⟩⟩
      cases inComment with
      | false => exact .nil
      | true => exact .last rfl List.not_mem_nil
  | cons c cs ih =>
      rw [skipTrivia] at h
      by_cases hc : c = '\n'
      · -- a newline ends the comment, if there is one
        rw [if_pos hc] at h
        obtain ⟨gap, rfl, rfl, hgap, hhead⟩ := ih h
        subst hc
        refine ⟨'\n' :: gap, rfl, ?_, ?_, hhead⟩
        · rw [List.count_cons_self]
          omega
        · cases inComment with
          | false => exact .blank (by decide) hgap
          | true => exact .comment List.not_mem_nil hgap
      · rw [if_neg hc] at h
        by_cases hcomment : (inComment || c == '#') = true
        · rw [if_pos hcomment] at h
          obtain ⟨gap, rfl, rfl, hgap, hhead⟩ := ih h
          refine ⟨c :: gap, rfl, by rw [List.count_cons_of_ne hc], ?_, hhead⟩
          cases inComment with
          | false =>
              obtain rfl : c = '#' := by simpa using hcomment
              exact hgap
          | true => exact hgap.cons_comment hc
        · rw [if_neg hcomment] at h
          obtain ⟨rfl, hhash⟩ : inComment = false ∧ c ≠ '#' := by simpa using hcomment
          by_cases hblank : Text.isBlank c = true
          · rw [if_pos hblank] at h
            obtain ⟨gap, rfl, rfl, hgap, hhead⟩ := ih h
            exact ⟨c :: gap, rfl, by rw [List.count_cons_of_ne hc], .blank hblank hgap, hhead⟩
          · rw [if_neg hblank] at h
            cases h
            refine ⟨[], rfl, rfl, .nil, fun d hd => ?_⟩
            obtain rfl := Option.some.inj hd
            exact isVisible_iff.mpr ⟨hc, hhash, by simpa using hblank⟩

end Gap

/-! ## Texts -/

/-- Characters that write a text between quotes. A backslash starts an escape; all other
characters except the quote and the newline stand for themselves. -/
inductive Written (quote : Char) : List Char → List Char → Prop where
  | nil : Written quote [] []
  | plain {c : Char} {cs s : List Char} (hquote : c ≠ quote) (hslash : c ≠ '\\')
      (hnewline : c ≠ '\n') (hcs : Written quote cs s) : Written quote (c :: cs) (c :: s)
  | escaped (e : Char) {cs s : List Char} (hcs : Written quote cs s) :
      Written quote ('\\' :: e :: cs) (unescape e ++ s)

section Text

variable {quote : Char} {line n : Nat} {cs body text rest : List Char}

/-- **What is written between quotes is read.** -/
theorem stringBody_of_written (hquote : quote ≠ '\\') (h : Written quote body text)
    (line : Nat) (rest : List Char) :
    stringBody quote line (body ++ quote :: rest)
      = some (text, rest, line + body.count '\n') := by
  induction h generalizing line with
  | nil =>
      rw [List.nil_append, stringBody.eq_def]
      simp
  | @plain c cs s hc hslash hnewline _ ih =>
      rw [List.cons_append, stringBody.eq_def]
      simp [hc, hslash, hnewline, ih]
  | @escaped e cs s _ ih =>
      rw [List.cons_append, List.cons_append, stringBody, if_neg (Ne.symm hquote), if_pos rfl, ih,
        List.count_cons_of_ne (by decide)]
      by_cases he : e = '\n'
      · subst he
        rw [if_pos rfl, List.count_cons_self, Nat.add_assoc, Nat.add_comm 1]
        rfl
      · rw [if_neg he, List.count_cons_of_ne he]
        rfl

/-- **What is read between quotes is written there.** -/
theorem written_of_stringBody (h : stringBody quote line cs = some (text, rest, n)) :
    ∃ body, cs = body ++ quote :: rest ∧ Written quote body text ∧
      n = line + body.count '\n' := by
  fun_induction stringBody quote line cs generalizing text with
  | case1 => cases h
  | case2 line cs =>
      cases h
      exact ⟨[], rfl, .nil, rfl⟩
  | case3 => cases h
  | case4 line e cs hslash ih =>
      obtain ⟨⟨text', rest', n'⟩, hbody, hr⟩ := Option.map_eq_some_iff.mp h
      cases hr
      obtain ⟨body, rfl, hwritten, hn⟩ := ih hbody
      refine ⟨'\\' :: e :: body, rfl, .escaped e hwritten, ?_⟩
      -- the escaped character may be a newline
      rw [List.count_cons_of_ne (by decide), List.count_cons, hn]
      by_cases he : e = '\n'
      · simp [he]
        omega
      · simp [he]
  | case5 => cases h
  | case6 line c cs hc hslash hnewline ih =>
      obtain ⟨⟨text', rest', n'⟩, hbody, hr⟩ := Option.map_eq_some_iff.mp h
      cases hr
      obtain ⟨body, rfl, hwritten, rfl⟩ := ih hbody
      exact ⟨c :: body, rfl, .plain hc hslash hnewline hwritten,
        by rw [List.count_cons_of_ne hnewline]⟩

end Text

/-! ## Tokens -/

inductive Spells : TokenKind → List Char → Prop where
  | mark {c : Char} {kind : TokenKind} (h : punctuation? c = some kind) : Spells kind [c]
  | text {quote : Char} {body s : List Char} (hquote : IsQuote quote)
      (hbody : Written quote body s) :
      Spells (.str (String.ofList s)) (quote :: (body ++ [quote]))
  | number {run : List Char} (hne : run ≠ []) (hdigits : ∀ d ∈ run, d.isDigit = true)
      (hrange : (Number.ofDigits run : Int) ≤ Number.maxInt) :
      Spells (.int (Number.ofDigits run)) run
  | word {c : Char} {cs : List Char} (hc : startsWord c = true)
      (hcs : ∀ d ∈ cs, continuesWord d = true) : Spells (ofWord (c :: cs)) (c :: cs)

/-- A number or a word ends before the characters. -/
def Delimited (rest : List Char) : Prop :=
  ∀ c ∈ rest.head?, continuesWord c = false

/-- The token, if it is a number or a word, ends before the characters. -/
def Stops (kind : TokenKind) (rest : List Char) : Prop :=
  match kind with
  | .int _ => ∀ c ∈ rest.head?, c.isDigit = false ∧ startsWord c = false
  | .bool _ => Delimited rest
  | .ident _ => Delimited rest
  | _ => True

/-- What is wrong where no token can be read. -/
inductive Offends : SyntaxIssue → List Char → Prop where
  | unexpected {c : Char} {rest : List Char} (hvisible : isVisible c = true)
      (hmark : punctuation? c = none) (hquote : ¬ IsQuote c) (hdigit : c.isDigit = false)
      (hword : startsWord c = false) :
      Offends (.unexpectedCharacter c) (c :: rest)
  | unterminated {quote : Char} {rest : List Char} (hquote : IsQuote quote)
      (hopen : ∀ body s after, rest = body ++ quote :: after → ¬ Written quote body s) :
      Offends .unterminatedString (quote :: rest)
  | malformed {run rest : List Char} {c : Char} (hne : run ≠ [])
      (hdigits : ∀ d ∈ run, d.isDigit = true) (hword : startsWord c = true) :
      Offends (.malformedNumber (String.ofList run)) (run ++ c :: rest)
  | range {run rest : List Char} (hne : run ≠ []) (hdigits : ∀ d ∈ run, d.isDigit = true)
      (hstops : ∀ c ∈ rest.head?, c.isDigit = false ∧ startsWord c = false)
      (hrange : Number.maxInt < Number.ofDigits run) :
      Offends (.numberRange (String.ofList run)) (run ++ rest)

section Runs

variable {p : Char → Bool} {cs rest : List Char}

/-- A run that reaches as far as it can is what `takeWhile` takes. -/
theorem takeWhile_append_stop (hcs : ∀ d ∈ cs, p d = true)
    (hrest : ∀ c ∈ rest.head?, p c = false) :
    (cs ++ rest).takeWhile p = cs ∧ (cs ++ rest).dropWhile p = rest := by
  have hstop : rest.takeWhile p = [] ∧ rest.dropWhile p = rest := by
    cases rest with
    | nil => exact ⟨rfl, rfl⟩
    | cons d rest =>
        have hd : ¬ p d = true := by simp [hrest d rfl]
        exact ⟨List.takeWhile_cons_of_neg hd, List.dropWhile_cons_of_neg hd⟩
  constructor
  · rw [List.takeWhile_append_of_pos hcs, hstop.1, List.append_nil]
  · rw [List.dropWhile_append_of_pos hcs, hstop.2]

theorem head?_dropWhile (p : Char → Bool) (cs : List Char) :
    ∀ c ∈ (cs.dropWhile p).head?, p c = false := by
  intro c hc
  have hnot := List.head?_dropWhile_not p cs
  rw [Option.mem_def.mp hc] at hnot
  simpa using hnot

end Runs

section Lexeme

variable {line n : Nat} {c : Char} {cs l rest text : List Char} {kind : TokenKind}
  {issue : SyntaxIssue}

theorem Delimited.stops (h : Delimited rest) (kind : TokenKind) : Stops kind rest := by
  cases kind with
  | int n =>
      intro c hc
      have hfalse := h c hc
      refine ⟨?_, ?_⟩
      · exact Bool.eq_false_iff.mpr fun hd => by simp [continuesWord_of_isDigit hd] at hfalse
      · exact Bool.eq_false_iff.mpr fun hd => by simp [continuesWord_of_startsWord hd] at hfalse
  | bool b => exact h
  | ident name => exact h
  | _ => trivial

theorem stops_ofWord {word : List Char} : Stops (ofWord word) rest ↔ Delimited rest := by
  rw [ofWord]
  split_ifs <;> rfl

theorem stops_of_punctuation? (h : punctuation? c = some kind) (rest : List Char) :
    Stops kind rest := by
  rw [punctuation?] at h
  split_ifs at h <;> cases h <;> trivial

theorem Spells.exists_visible (h : Spells kind l) :
    ∃ c l', l = c :: l' ∧ isVisible c = true := by
  cases h with
  | mark hmark => exact ⟨_, [], rfl, (marks_lexical (mem_marks_of_punctuation? hmark)).1⟩
  | text hquote => exact ⟨_, _, rfl, (quote_lexical hquote).1⟩
  | number hne hdigits =>
      obtain ⟨d, run, rfl⟩ := List.exists_cons_of_ne_nil hne
      have hd := continuesWord_of_isDigit (hdigits d List.mem_cons_self)
      exact ⟨d, run, rfl, (lexical_of_continuesWord hd).1⟩
  | word hc =>
      exact ⟨_, _, rfl, (lexical_of_continuesWord (continuesWord_of_startsWord hc)).1⟩

theorem Offends.exists_visible (h : Offends issue rest) :
    ∃ c cs, rest = c :: cs ∧ isVisible c = true := by
  cases h with
  | unexpected hvisible => exact ⟨_, _, rfl, hvisible⟩
  | unterminated hquote => exact ⟨_, _, rfl, (quote_lexical hquote).1⟩
  | malformed hne hdigits | range hne hdigits =>
      obtain ⟨d, run, rfl⟩ := List.exists_cons_of_ne_nil hne
      have hd := continuesWord_of_isDigit (hdigits d List.mem_cons_self)
      exact ⟨d, _, rfl, (lexical_of_continuesWord hd).1⟩

theorem isDigit_of_mem_digits {d : Char} {n : Nat} (hd : d ∈ Number.digits n) :
    d.isDigit = true := by
  obtain ⟨k, hk, rfl⟩ := Number.exists_digitChar_of_mem_digitsUpTo hd
  have hall : ∀ k < 10, (Number.digitChar k).isDigit = true := by decide
  exact hall k hk

/-- The decimal digits of a number spell it. -/
theorem spells_digits {n : Nat} (hn : (n : Int) ≤ Number.maxInt) :
    Spells (.int n) (Number.digits n) := by
  have hvalue : Number.ofDigits (Number.digits n) = n :=
    Number.ofDigits_digitsUpTo (Nat.lt_succ_self n)
  have hne : Number.digits n ≠ [] := by
    rw [Number.digits, Number.digitsUpTo]
    split_ifs <;> simp
  have hspells := Spells.number hne (fun d => isDigit_of_mem_digits) (by rw [hvalue]; exact hn)
  rwa [hvalue] at hspells

/-! ### What the lexer does at a character -/

theorem lexeme_mark (h : punctuation? c = some kind) :
    lexeme line c cs = .ok (kind, cs, line) := by
  rw [lexeme, h]

theorem lexeme_text (hquote : IsQuote c) (h : stringBody c line cs = some (text, rest, n)) :
    lexeme line c cs = .ok (.str (String.ofList text), rest, n) := by
  rw [lexeme, (quote_lexical hquote).2.2.1]
  simp only [if_pos (show c = '"' ∨ c.toNat = 39 from hquote), h]

theorem lexeme_unterminated (hquote : IsQuote c) (h : stringBody c line cs = none) :
    lexeme line c cs = .error .unterminatedString := by
  rw [lexeme, (quote_lexical hquote).2.2.1]
  simp only [if_pos (show c = '"' ∨ c.toNat = 39 from hquote), h]

/-- At a digit the whole run of digits decides. -/
theorem lexeme_digits (hc : c.isDigit = true) :
    lexeme line c cs
      = (ofNumber (c :: cs.takeWhile Char.isDigit) (cs.dropWhile Char.isDigit)).map
          fun kind => (kind, cs.dropWhile Char.isDigit, line) := by
  obtain ⟨-, hmark, hquote⟩ := lexical_of_continuesWord (continuesWord_of_isDigit hc)
  rw [lexeme, hmark]
  simp only [if_neg (show ¬ (c = '"' ∨ c.toNat = 39) from hquote), if_pos hc]
  rcases ofNumber (c :: cs.takeWhile Char.isDigit) (cs.dropWhile Char.isDigit) with issue | kind
  · rfl
  · rfl

theorem lexeme_word (hc : startsWord c = true) :
    lexeme line c cs
      = .ok (ofWord (c :: cs.takeWhile continuesWord), cs.dropWhile continuesWord, line) := by
  obtain ⟨-, hmark, hquote⟩ := lexical_of_continuesWord (continuesWord_of_startsWord hc)
  have hdigit : ¬ c.isDigit = true := fun hd => by simp [startsWord_of_isDigit hd] at hc
  rw [lexeme, hmark]
  simp only [if_neg (show ¬ (c = '"' ∨ c.toNat = 39) from hquote), if_neg hdigit, if_pos hc]

theorem lexeme_unexpected (hmark : punctuation? c = none) (hquote : ¬ IsQuote c)
    (hdigit : c.isDigit = false) (hword : startsWord c = false) :
    lexeme line c cs = .error (.unexpectedCharacter c) := by
  rw [lexeme, hmark]
  simp only [if_neg (show ¬ (c = '"' ∨ c.toNat = 39) from hquote), hdigit, hword,
    Bool.false_eq_true, if_false]

/-! ### Where a token is spelled -/

/-- **A token is read where it is spelled**, if it ends there. -/
theorem lexeme_of_spells (h : Spells kind (c :: l)) (hstops : Stops kind rest) (line : Nat) :
    lexeme line c (l ++ rest) = .ok (kind, rest, line + l.count '\n') := by
  generalize hl : c :: l = lexeme' at h
  cases h with
  | mark hmark =>
      obtain ⟨rfl, rfl⟩ := List.cons.inj hl
      exact lexeme_mark hmark
  | text hquote hbody =>
      obtain ⟨rfl, rfl⟩ := List.cons.inj hl
      obtain ⟨hvisible, -, -, hslash⟩ := quote_lexical hquote
      have hnewline := (isVisible_iff.mp hvisible).1
      have hread := stringBody_of_written hslash hbody line rest
      rw [List.append_assoc, List.singleton_append, lexeme_text hquote hread, List.count_append,
        List.count_singleton, beq_false_of_ne hnewline]
      rfl
  | number hne hdigits hrange =>
      subst hl
      obtain ⟨hc, hmore⟩ := List.forall_mem_cons.mp hdigits
      obtain ⟨htake, hdrop⟩ := takeWhile_append_stop hmore fun d hd => (hstops d hd).1
      have hword : rest.head?.any startsWord = false := by
        rw [Option.any_eq_false]
        exact fun d hd => by simp [(hstops d hd).2]
      have hnewline : l.count '\n' = 0 := by
        refine List.count_eq_zero.mpr fun hmem => ?_
        exact absurd (hmore _ hmem) (by decide)
      rw [lexeme_digits hc, htake, hdrop, ofNumber, hword, if_neg Bool.false_ne_true,
        if_pos hrange, hnewline]
      rfl
  | word hc hmore =>
      obtain ⟨rfl, rfl⟩ := List.cons.inj hl
      obtain ⟨htake, hdrop⟩ := takeWhile_append_stop hmore (stops_ofWord.mp hstops)
      have hnewline : l.count '\n' = 0 := by
        refine List.count_eq_zero.mpr fun hmem => ?_
        exact absurd (hmore _ hmem) (by decide +kernel)
      rw [lexeme_word hc, htake, hdrop, hnewline]
      rfl

/-- A run of digits that is followed by a word, or denotes too large a number, is refused. -/
theorem lexeme_of_digits {run : List Char} (hrun : ∀ d ∈ c :: run, d.isDigit = true)
    (hrest : ∀ d ∈ rest.head?, d.isDigit = false)
    (h : ofNumber (c :: run) rest = .error issue) (line : Nat) :
    lexeme line c (run ++ rest) = .error issue := by
  obtain ⟨hc, hmore⟩ := List.forall_mem_cons.mp hrun
  obtain ⟨htake, hdrop⟩ := takeWhile_append_stop hmore hrest
  rw [lexeme_digits hc, htake, hdrop, h]
  rfl

/-- **Where something is wrong the lexer says so.** -/
theorem lexeme_of_offends (h : Offends issue (c :: cs)) (line : Nat) :
    lexeme line c cs = .error issue := by
  generalize hcs : c :: cs = ds at h
  cases h with
  | unexpected _ hmark hquote hdigit hword =>
      obtain ⟨rfl, rfl⟩ := List.cons.inj hcs
      exact lexeme_unexpected hmark hquote hdigit hword
  | unterminated hquote hopen =>
      obtain ⟨rfl, rfl⟩ := List.cons.inj hcs
      apply lexeme_unterminated hquote
      rcases hbody : stringBody c line cs with _ | ⟨text, rest, n⟩
      · rfl
      · obtain ⟨body, hsplit, hwritten, -⟩ := written_of_stringBody hbody
        exact absurd hwritten (hopen body text rest hsplit)
  | @malformed run rest d hne hdigits hword =>
      obtain ⟨e, run, rfl⟩ := List.exists_cons_of_ne_nil hne
      obtain ⟨rfl, rfl⟩ := List.cons.inj hcs
      refine lexeme_of_digits hdigits ?_ ?_ line
      · intro d' hd'
        obtain rfl := Option.some.inj hd'
        exact Bool.eq_false_iff.mpr fun hd => by simp [startsWord_of_isDigit hd] at hword
      · rw [ofNumber, if_pos (by simpa using hword)]
  | @range run rest hne hdigits hstops hrange =>
      obtain ⟨e, run, rfl⟩ := List.exists_cons_of_ne_nil hne
      obtain ⟨rfl, rfl⟩ := List.cons.inj hcs
      refine lexeme_of_digits hdigits (fun d hd => (hstops d hd).1) ?_ line
      have hword : rest.head?.any startsWord = false := by
        rw [Option.any_eq_false]
        exact fun d hd => by simp [(hstops d hd).2]
      rw [ofNumber, hword, if_neg Bool.false_ne_true, if_neg (Int.not_le.mpr hrange)]

/-- A run of digits is a number, or it is too large, or what follows makes it malformed. -/
theorem spells_or_offends_of_digits {run : List Char} (hne : run ≠ [])
    (hrun : ∀ d ∈ run, d.isDigit = true) (hrest : ∀ d ∈ rest.head?, d.isDigit = false) :
    (∃ kind, Spells kind run ∧ Stops kind rest) ∨ ∃ issue, Offends issue (run ++ rest) := by
  by_cases hword : ∃ d ∈ rest.head?, startsWord d = true
  · obtain ⟨d, hd, hstart⟩ := hword
    obtain ⟨rest', rfl⟩ : ∃ rest', rest = d :: rest' := List.head?_eq_some_iff.mp hd
    exact .inr ⟨_, .malformed hne hrun hstart⟩
  · have hstops : ∀ d ∈ rest.head?, d.isDigit = false ∧ startsWord d = false := by
      intro d hd
      exact ⟨hrest d hd, Bool.eq_false_iff.mpr fun hstart => hword ⟨d, hd, hstart⟩⟩
    by_cases hrange : (Number.ofDigits run : Int) ≤ Number.maxInt
    · exact .inl ⟨_, .number hne hrun hrange, hstops⟩
    · exact .inr ⟨_, .range hne hrun hstops (Int.not_le.mp hrange)⟩

/-- **At every visible character a token is spelled, or something is wrong.** -/
theorem spells_or_offends (hvisible : isVisible c = true) (cs : List Char) :
    (∃ kind l rest, cs = l ++ rest ∧ Spells kind (c :: l) ∧ Stops kind rest) ∨
      ∃ issue, Offends issue (c :: cs) := by
  rcases hmark : punctuation? c with _ | kind
  · by_cases hquote : IsQuote c
    · by_cases hclosed : ∃ body s after, cs = body ++ c :: after ∧ Written c body s
      · obtain ⟨body, s, after, rfl, hwritten⟩ := hclosed
        exact .inl ⟨_, body ++ [c], after, by simp, .text hquote hwritten, trivial⟩
      · refine .inr ⟨_, .unterminated hquote fun body s after hcs hwritten => ?_⟩
        exact hclosed ⟨body, s, after, hcs, hwritten⟩
    · by_cases hdigit : c.isDigit = true
      · have hrun : ∀ d ∈ c :: cs.takeWhile Char.isDigit, d.isDigit = true :=
          List.forall_mem_cons.mpr ⟨hdigit, fun d hd => List.mem_takeWhile_imp hd⟩
        have hcs := (List.takeWhile_append_dropWhile (p := Char.isDigit) (l := cs)).symm
        rcases spells_or_offends_of_digits (List.cons_ne_nil _ _) hrun
          (head?_dropWhile Char.isDigit cs) with ⟨kind, hspells, hstops⟩ | ⟨issue, hoffends⟩
        · exact .inl ⟨kind, _, _, hcs, hspells, hstops⟩
        · rw [List.cons_append, ← hcs] at hoffends
          exact .inr ⟨issue, hoffends⟩
      · by_cases hword : startsWord c = true
        · have hcs := (List.takeWhile_append_dropWhile (p := continuesWord) (l := cs)).symm
          have hspells : Spells (ofWord (c :: cs.takeWhile continuesWord))
              (c :: cs.takeWhile continuesWord) :=
            .word hword fun d hd => List.mem_takeWhile_imp hd
          exact .inl ⟨_, _, _, hcs, hspells, stops_ofWord.mpr (head?_dropWhile continuesWord cs)⟩
        · rw [Bool.not_eq_true] at hdigit hword
          exact .inr ⟨_, .unexpected hvisible hmark hquote hdigit hword⟩
  · exact .inl ⟨kind, [], cs, rfl, .mark hmark, stops_of_punctuation? hmark cs⟩

end Lexeme

end SiteConf.Token
