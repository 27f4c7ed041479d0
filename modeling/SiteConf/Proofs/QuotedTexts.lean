import SiteConf.Proofs.Readings
import SiteConf.Template.Filter

set_option autoImplicit false

/-! # Quoted texts are read back

Templates write texts between double quotes with `doubleQuoted`, and the lexer reads texts between
quotes. A text on one line is read back as it was, and a text with a newline is refused
(`tokenize_doubleQuoted`).

The reason is `eq_of_written_escaped`: the escapes leave no quote of the text bare, so the only
quote that can close the text is the last one. The lexer knows further escapes than the two that
are written, but a backslash of the text is always written twice, so none of them is ever met. -/

namespace SiteConf.Text

/-! ## Escapes as replacements -/

/-- A character between double quotes. -/
def escaped (c : Char) : List Char :=
  if c = '"' ∨ c = '\\' then ['\\', c] else [c]

theorem toList_doubleQuoted (s : String) :
    (doubleQuoted s).toList = '"' :: (s.toList.flatMap escaped ++ ['"']) := by
  have hbody : (String.ofList (s.toList.flatMap escaped)).toList = s.toList.flatMap escaped :=
    String.toList_ofList
  show ("\"" ++ String.ofList (s.toList.flatMap escaped) ++ "\"").toList = _
  rw [String.toList_append, String.toList_append, hbody]
  rfl

/-- The occurrences of a single character are replaced one by one. -/
theorem replace_singleton (c : Char) (image cs : List Char) :
    replace [c] image cs = cs.flatMap fun d => if d = c then image else [d] := by
  show replaceFrom [c] image 0 cs = _
  induction cs with
  | nil => rfl
  | cons d cs ih =>
      rw [replaceFrom, List.flatMap_cons, ← ih]
      by_cases hd : d = c
      · rw [if_pos hd, if_pos (by simp [dropHead?, hd])]
        rfl
      · rw [if_neg hd, if_neg (by simp [dropHead?, Ne.symm hd])]
        rfl

/-- Doubling the backslashes and then putting one before each quote escapes every character once:
the backslashes that the second step adds come too late to be doubled. -/
theorem flatMap_escaped (cs : List Char) :
    cs.flatMap escaped = replace ['"'] ['\\', '"'] (replace ['\\'] ['\\', '\\'] cs) := by
  rw [replace_singleton, replace_singleton, List.flatMap_assoc]
  congr 1
  funext c
  by_cases hquote : c = '"'
  · subst hquote
    rfl
  · by_cases hslash : c = '\\'
    · subst hslash
      rfl
    · simp [escaped, hquote, hslash]

/-- Two texts that are written alike start alike, since an escape shows in its first character. -/
theorem flatMap_escaped_injective :
    Function.Injective fun cs : List Char => cs.flatMap escaped := by
  have hhead : ∀ c, ∃ d ds, escaped c = d :: ds := by
    intro c
    rw [escaped]
    split <;> exact ⟨_, _, rfl⟩
  intro cs ds h
  induction cs generalizing ds with
  | nil =>
      cases ds with
      | nil => rfl
      | cons d ds =>
          obtain ⟨e, es, he⟩ := hhead d
          simp [he] at h
  | cons c cs ih =>
      cases ds with
      | nil =>
          obtain ⟨e, es, he⟩ := hhead c
          simp [he] at h
      | cons d ds =>
          have happend : escaped c ++ cs.flatMap escaped = escaped d ++ ds.flatMap escaped := h
          rw [escaped, escaped] at happend
          obtain ⟨rfl, hrest⟩ : c = d ∧ cs.flatMap escaped = ds.flatMap escaped := by
            split at happend <;> split at happend <;> grind
          rw [ih hrest]

theorem doubleQuoted_injective : Function.Injective doubleQuoted := by
  intro s t h
  have hchars := congrArg String.toList h
  rw [toList_doubleQuoted, toList_doubleQuoted] at hchars
  have hbody := List.append_cancel_right (List.cons.inj hchars).2
  exact String.toList_injective (flatMap_escaped_injective hbody)

end SiteConf.Text

namespace SiteConf.Token

open Text

/-! ## What the lexer makes of an escaped text -/

section Escaped

variable {s body text rest after : List Char}

/-- An escaped text on one line writes itself. -/
theorem written_escaped (h : '\n' ∉ s) : Written '"' (s.flatMap escaped) s := by
  induction s with
  | nil => exact .nil
  | cons c s ih =>
      obtain ⟨hnewline, hs⟩ := List.ne_and_not_mem_of_not_mem_cons h
      rw [List.flatMap_cons, escaped]
      by_cases hc : c = '"' ∨ c = '\\'
      · have hself : unescape c = [c] := by rcases hc with rfl | rfl <;> rfl
        have hwritten := Written.escaped c (ih hs)
        rw [hself] at hwritten
        rw [if_pos hc]
        exact hwritten
      · rw [if_neg hc]
        obtain ⟨hquote, hslash⟩ := not_or.mp hc
        exact .plain hquote hslash (Ne.symm hnewline) (ih hs)

/-- **Only the last quote closes.** If some characters write a text up to a quote, they are all of
the escaped text, and it is on one line. The induction follows the escaped text; at each character
only one rule of `Written` applies. -/
theorem eq_of_written_escaped (h : Written '"' body text)
    (heq : s.flatMap escaped ++ '"' :: rest = body ++ '"' :: after) :
    text = s ∧ after = rest ∧ '\n' ∉ s := by
  induction s generalizing body text with
  | nil =>
      cases h with
      | nil => exact ⟨rfl, (List.cons.inj heq).2.symm, List.not_mem_nil⟩
      | plain hquote => exact absurd (List.cons.inj heq).1.symm hquote
      | escaped e => exact absurd (List.cons.inj heq).1 (by decide)
  | cons c s ih =>
      rw [List.flatMap_cons, escaped, List.append_assoc] at heq
      by_cases hc : c = '"' ∨ c = '\\'
      · have hself : unescape c = [c] := by rcases hc with rfl | rfl <;> rfl
        have hnewline : '\n' ≠ c := by rcases hc with rfl | rfl <;> decide
        rw [if_pos hc] at heq
        cases h with
        | nil => exact absurd (List.cons.inj heq).1 (by decide)
        | plain _ hslash => exact absurd (List.cons.inj heq).1.symm hslash
        | escaped e hbody =>
            obtain ⟨rfl, hrest⟩ := List.cons.inj (List.cons.inj heq).2
            obtain ⟨rfl, rfl, hs⟩ := ih hbody hrest
            exact ⟨by rw [hself]; rfl, rfl, List.not_mem_cons_of_ne_of_not_mem hnewline hs⟩
      · rw [if_neg hc] at heq
        obtain ⟨hquote, hslash⟩ := not_or.mp hc
        cases h with
        | nil => exact absurd (List.cons.inj heq).1 hquote
        | plain _ _ hnewline hbody =>
            obtain ⟨rfl, hrest⟩ := List.cons.inj heq
            obtain ⟨rfl, rfl, hs⟩ := ih hbody hrest
            exact ⟨rfl, rfl, List.not_mem_cons_of_ne_of_not_mem (Ne.symm hnewline) hs⟩
        | escaped e => exact absurd (List.cons.inj heq).1 hslash

/-- Where no characters up to a quote write a text, the text is not terminated. -/
theorem tokenize_unterminated {p : List Char}
    (h : ∀ body text after, p = body ++ '"' :: after → ¬ Written '"' body text) :
    tokenize (String.ofList ('"' :: p)) = .error (.badSyntax (some 1) .unterminatedString) := by
  have hoffends : Offends .unterminatedString ('"' :: p) := .unterminated (.inl rfl) h
  have hproper : (Reading.mk [] [] ('"' :: p) (some .unterminatedString)).Proper :=
    ⟨trivial, .nil, hoffends⟩
  exact tokenize_eq_answer hproper (String.toList_ofList).symm

/-- The text between the quotes is read, whatever follows it, unless it has a newline. -/
theorem lexeme_escaped (line : Nat) (s rest : List Char) :
    lexeme line '"' (s.flatMap escaped ++ '"' :: rest) =
      if '\n' ∈ s then .error .unterminatedString
      else .ok (.str (String.ofList s), rest, line) := by
  by_cases h : '\n' ∈ s
  · rw [if_pos h]
    refine lexeme_of_offends (.unterminated (.inl rfl) fun body text after heq hbody => ?_) line
    exact (eq_of_written_escaped hbody heq).2.2 h
  · -- escapes add no newline, so the line stays the same
    have hcount : (s.flatMap escaped).count '\n' = 0 := by
      refine List.count_eq_zero.mpr fun hmem => ?_
      obtain ⟨c, hc, hd⟩ := List.mem_flatMap.mp hmem
      rw [escaped] at hd
      split at hd
      · rcases List.mem_cons.mp hd with hd | hd
        · exact absurd hd (by decide)
        · exact h (List.mem_singleton.mp hd ▸ hc)
      · exact h (List.mem_singleton.mp hd ▸ hc)
    have hread := stringBody_of_written (by decide) (written_escaped h) line rest
    rw [if_neg h, lexeme_text (.inl rfl) hread, hcount, Nat.add_zero]

end Escaped

/-! ## Quoted texts -/

theorem tokenize_doubleQuoted_eq (s : String) :
    tokenize (doubleQuoted s) =
      if '\n' ∈ s.toList then .error (.badSyntax (some 1) .unterminatedString)
      else .ok [⟨.str s, 1⟩, ⟨.eof, 1⟩] := by
  have hvisible : isVisible '"' = true := (quote_lexical (.inl rfl)).1
  rw [tokenize, toList_doubleQuoted, scan, skipTrivia_of_isVisible hvisible]
  simp only [lexeme_escaped, String.ofList_toList]
  by_cases h : '\n' ∈ s.toList
  · simp only [if_pos h]
  · simp only [if_neg h]
    rfl

/-- A part of a quoted text from its start on is not terminated, unless it is all of it. -/
theorem tokenize_isPrefix_doubleQuoted {s : String} {p : List Char}
    (h : p <+: (doubleQuoted s).toList) (hnil : p ≠ []) (hall : p ≠ (doubleQuoted s).toList) :
    tokenize (String.ofList p) = .error (.badSyntax (some 1) .unterminatedString) := by
  obtain ⟨c, p, rfl⟩ := List.exists_cons_of_ne_nil hnil
  obtain ⟨more, hmore⟩ := h
  rw [toList_doubleQuoted] at hmore hall
  obtain ⟨rfl, -⟩ := List.cons.inj hmore
  have hp : p ++ more = s.toList.flatMap escaped ++ ['"'] := (List.cons.inj hmore).2
  refine tokenize_unterminated fun body text after heq hbody => hall ?_
  -- a quote inside the part closes the whole, so nothing is left behind it
  have hsplit : s.toList.flatMap escaped ++ ['"'] = body ++ '"' :: (after ++ more) := by
    rw [← hp, heq, List.append_assoc, List.cons_append]
  obtain ⟨-, hafter, -⟩ := eq_of_written_escaped hbody hsplit
  obtain ⟨-, rfl⟩ := List.append_eq_nil_iff.mp hafter
  rw [← hp, List.append_nil]

open Template in
/-- **Quoting and lexing agree.** The filter `quote` doubles the backslashes of a text, puts a
backslash before each quote, and puts quotes around it. The lexer reads that as the text and the
end of input, if the text has no newline, and else refuses it as not terminated. No two texts are
quoted alike. The quotes close at the end and not before: every shorter part of the quoted text is
not terminated, and whatever follows the quotes is left to be read. -/
theorem tokenize_doubleQuoted (s : String) :
    applyFilter "quote" (.str s) [] = .ok (.str (doubleQuoted s)) ∧
    (doubleQuoted s).toList
      = '"' :: (replace ['"'] ['\\', '"'] (replace ['\\'] ['\\', '\\'] s.toList) ++ ['"']) ∧
    tokenize (doubleQuoted s)
      = (if '\n' ∈ s.toList then .error (.badSyntax (some 1) .unterminatedString)
        else .ok [⟨.str s, 1⟩, ⟨.eof, 1⟩]) ∧
    (∀ t, doubleQuoted t = doubleQuoted s → t = s) ∧
    (∀ p, p <+: (doubleQuoted s).toList → p ≠ [] → p ≠ (doubleQuoted s).toList →
      tokenize (String.ofList p) = .error (.badSyntax (some 1) .unterminatedString)) ∧
    ∀ line rest, lexeme line '"' ((doubleQuoted s).toList.tail ++ rest) =
      if '\n' ∈ s.toList then .error .unterminatedString else .ok (.str s, rest, line) := by
  refine ⟨rfl, ?_, tokenize_doubleQuoted_eq s, fun t h => doubleQuoted_injective h,
    fun p => tokenize_isPrefix_doubleQuoted, fun line rest => ?_⟩
  · rw [toList_doubleQuoted, flatMap_escaped]
  · rw [toList_doubleQuoted, List.tail_cons, List.append_assoc, List.singleton_append,
      lexeme_escaped, String.ofList_toList]

/-- A text with a quote, a backslash before the letter of an escape, and a backslash at its end:
the whole is read back, and what it is up to its quote is not terminated. -/
theorem tokenize_doubleQuoted_backslashes :
    tokenize (doubleQuoted "a\"\\n\\") = .ok [⟨.str "a\"\\n\\", 1⟩, ⟨.eof, 1⟩] ∧
    tokenize "\"a\\\"" = .error (.badSyntax (some 1) .unterminatedString) ∧
    tokenize (doubleQuoted "a\n\"") = .error (.badSyntax (some 1) .unterminatedString) := by
  obtain ⟨-, -, hread, -, hpart, -⟩ := tokenize_doubleQuoted "a\"\\n\\"
  obtain ⟨-, -, hrefused, -⟩ := tokenize_doubleQuoted "a\n\""
  refine ⟨?_, ?_, ?_⟩
  · rw [hread, if_neg (by decide)]
  · exact hpart ['"', 'a', '\\', '"'] (by decide) (by decide) (by decide)
  · rw [hrefused, if_pos (by decide)]

end SiteConf.Token
