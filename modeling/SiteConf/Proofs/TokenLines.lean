import SiteConf.Proofs.Lines
import SiteConf.Proofs.Readings

set_option autoImplicit false

/-! # The lines of tokens

The lexer counts lines as it goes. Whatever it takes from the text, white space, comments or a
token, it counts the newlines in it, so a token is on the line that the newlines before its first
character say, and so is an error (`tokenize_counts_newlines`). The first character of a token is no
newline, so the line of a token is not blank (`Reaches.exists_line`). -/

namespace SiteConf.Token

/-! ## Counting newlines -/

/-- In a text that starts on line `line`, the end part `rest` starts on line `n`. -/
def Reaches (line : Nat) (cs : List Char) (n : Nat) (rest : List Char) : Prop :=
  ∃ before, cs = before ++ rest ∧ n = line + before.count '\n'

section Reaches

variable {line n : Nat} {c : Char} {cs rest : List Char}

theorem Reaches.length_le (h : Reaches line cs n rest) : rest.length ≤ cs.length := by
  obtain ⟨before, rfl, -⟩ := h
  rw [List.length_append]
  omega

/-- The line is a line of the text. -/
theorem Reaches.hasLine {text : String} (h : Reaches 1 text.toList n rest) :
    Text.HasLine text n := by
  obtain ⟨before, htext, rfl⟩ := h
  have hcount : before.count '\n' ≤ text.toList.count '\n' := by
    rw [htext, List.count_append]
    omega
  constructor
  · omega
  · rw [Text.lineCount, Text.length_lines]
    omega

/-- The line is not blank, when a character other than a newline is there. -/
theorem Reaches.exists_line {text : String} (h : Reaches 1 text.toList n (c :: rest))
    (hc : c ≠ '\n') :
    ∃ i l, n = i + 1 ∧ (Text.lines text.toList)[i]? = some l ∧ l ≠ [] := by
  obtain ⟨before, htext, rfl⟩ := h
  obtain ⟨l, hl, hmem⟩ := Text.exists_line_of_char hc before rest
  rw [← htext] at hl
  refine ⟨before.count '\n', l, by omega, hl, ?_⟩
  rintro rfl
  cases hmem

end Reaches

/-- Behind white space and comments the text ends, or a character stands that is no newline. -/
theorem skipTrivia_reaches {inComment : Bool} {line n : Nat} {cs rest : List Char}
    (h : skipTrivia inComment line cs = (rest, n)) :
    Reaches line cs n rest ∧ ∀ c ∈ rest.head?, c ≠ '\n' := by
  obtain ⟨gap, hcs, hn, -, hvisible⟩ := skipTrivia_spec h
  exact ⟨⟨gap, hcs, hn⟩, fun c hc => (isVisible_iff.mp (hvisible c hc)).1⟩

/-! ## All tokens -/

section Tokenize

variable {text : String} {r : Reading}

/-- The place behind the last gap of a reading. -/
theorem Reading.reaches_rest (hchars : r.chars = text.toList) :
    Reaches 1 text.toList (r.lastLine 1) r.rest := by
  refine ⟨spread r.pieces ++ r.gap, ?_, rfl⟩
  rw [← hchars, chars, List.append_assoc]

/-- **The lines of tokens are lines of the text.** A token other than the end of input starts with
a character of its line. -/
theorem tokenize_reaches {tokens : List Token} (h : tokenize text = .ok tokens) :
    ∀ t ∈ tokens, ∃ rest, Reaches 1 text.toList t.line rest ∧
      (t.kind ≠ .eof → ∃ c rest', rest = c :: rest' ∧ c ≠ '\n') := by
  obtain ⟨r, hproper, hchars⟩ := exists_reading text.toList
  rw [tokenize_eq_answer hproper hchars] at h
  obtain ⟨-, rfl⟩ := Reading.answer_eq_ok h
  intro t ht
  rcases List.mem_append.mp ht with ht | ht
  · obtain ⟨before, p, after, hpieces, rfl⟩ := exists_piece_of_mem_tokensFrom ht
    have hmem : p ∈ r.pieces := by simp [hpieces]
    obtain ⟨c, l, hl, hc⟩ := (hproper.laid.of_mem p hmem).exists_visible
    refine ⟨p.lexeme ++ (spread after ++ (r.gap ++ r.rest)), ⟨spread before ++ p.gap, ?_, rfl⟩, ?_⟩
    · rw [← hchars, Reading.chars, hpieces, spread_append, spread_cons]
      simp only [List.append_assoc]
    · exact fun _ => ⟨c, _, by rw [hl]; rfl, (isVisible_iff.mp hc).1⟩
  · obtain rfl := List.mem_singleton.mp ht
    exact ⟨r.rest, Reading.reaches_rest hchars, fun hne => absurd rfl hne⟩

/-- A text that is refused is refused where a token starts. -/
theorem tokenize_error_reaches {e : Error} (h : tokenize text = .error e) :
    ∃ n issue rest, e = .badSyntax (some n) issue ∧ Reaches 1 text.toList n rest := by
  obtain ⟨r, hproper, hchars⟩ := exists_reading text.toList
  rw [tokenize_eq_answer hproper hchars] at h
  obtain ⟨issue, -, rfl⟩ := Reading.answer_eq_error h
  exact ⟨_, issue, r.rest, rfl, Reading.reaches_rest hchars⟩

end Tokenize

/-- **Lines are counted by newlines.** A text is cut into tokens with white space and comments
before them in one way only. When the lexer accepts it, the line of each token counts the newlines
before its first character, and `eof` counts all of them. Otherwise the line of the error counts
the newlines before the first character of what is wrong. -/
theorem tokenize_counts_newlines (text : String) :
    ∃ r : Reading, r.Proper ∧ r.chars = text.toList ∧
      (∀ r' : Reading, r'.Proper → r'.chars = text.toList → r' = r) ∧
      (∀ tokens, tokenize text = .ok tokens →
        tokens.length = r.pieces.length + 1 ∧
        (∀ before p after, r.pieces = before ++ p :: after →
          tokens[before.length]? = some ⟨p.kind, 1 + (spread before ++ p.gap).count '\n'⟩) ∧
        tokens.getLast? = some ⟨.eof, 1 + text.toList.count '\n'⟩) ∧
      (∀ e, tokenize text = .error e →
        ∃ issue, r.issue = some issue ∧ Offends issue r.rest ∧
          e = .badSyntax (some (1 + (spread r.pieces ++ r.gap).count '\n')) issue) := by
  obtain ⟨r, hproper, hchars⟩ := exists_reading text.toList
  have hanswer := tokenize_eq_answer hproper hchars
  refine ⟨r, hproper, hchars, fun r' hproper' hchars' => ?_, fun tokens htokens => ?_,
    fun e herror => ?_⟩
  · exact hproper'.eq hproper (hchars'.trans hchars.symm)
  · obtain ⟨hissue, rfl⟩ := Reading.answer_eq_ok (hanswer.symm.trans htokens)
    refine ⟨by simp [length_tokensFrom], fun before p after hpieces => ?_, ?_⟩
    · rw [hpieces, tokensFrom_append_cons, List.append_assoc, List.cons_append,
        ← length_tokensFrom 1 before, List.getElem?_append_right le_rfl, Nat.sub_self]
      rfl
    · rw [List.getLast?_concat, hproper.lastLine_of_issue_eq_none hissue, hchars]
  · obtain ⟨issue, hissue, rfl⟩ := Reading.answer_eq_error (hanswer.symm.trans herror)
    exact ⟨issue, hissue, hproper.offends hissue, rfl⟩

/-- A text that goes on over the end of its line, and a number that does not end before a word. -/
theorem tokenize_counts_newlines_continued :
    (tokenize "#\n\"a\\\nb\" c\n" = .ok [⟨.str "ab", 2⟩, ⟨.ident "c", 3⟩, ⟨.eof, 4⟩] ∧
      ∃ r : Reading, r.Proper ∧ r.chars = "#\n\"a\\\nb\" c\n".toList ∧ r.pieces.length = 2) ∧
    (tokenize "a\n\n1b" = .error (.badSyntax (some 3) (.malformedNumber "1")) ∧
      ∃ r : Reading, r.Proper ∧ r.chars = "a\n\n1b".toList ∧
        (spread r.pieces ++ r.gap).count '\n' = 2) := by
  have hok : tokenize "#\n\"a\\\nb\" c\n"
      = .ok [⟨.str "ab", 2⟩, ⟨.ident "c", 3⟩, ⟨.eof, 4⟩] := by decide +kernel
  have herror : tokenize "a\n\n1b" = .error (.badSyntax (some 3) (.malformedNumber "1")) := by
    decide +kernel
  obtain ⟨r, hproper, hchars, -, haccepted, -⟩ := tokenize_counts_newlines "#\n\"a\\\nb\" c\n"
  obtain ⟨r', hproper', hchars', -, -, hrefused⟩ := tokenize_counts_newlines "a\n\n1b"
  refine ⟨⟨hok, r, hproper, hchars, ?_⟩, herror, r', hproper', hchars', ?_⟩
  · have hlength := (haccepted _ hok).1
    rw [List.length_cons, List.length_cons, List.length_cons, List.length_nil] at hlength
    omega
  · obtain ⟨issue, -, -, he⟩ := hrefused _ herror
    rw [Error.badSyntax.injEq, Option.some.injEq] at he
    omega

end SiteConf.Token
