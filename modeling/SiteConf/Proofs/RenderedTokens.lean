import SiteConf.Proofs.Readings

set_option autoImplicit false

/-! # Writing tokens out

Tokens can be written out and read back. A text may stand in either quote, and any white space and
comments may stand between two tokens, as long as something does: `tokenize_writeOut` says that
the lexer gives back the tokens that were written, and that it gives no other tokens than such as
can be written. -/

namespace SiteConf.Token

/-! ## Tokens that can be written -/

def truthWords : List String :=
  ["true", "True", "false", "False"]

/-- A letter or an underscore, and then letters, numerals and underscores. -/
def IsName : List Char → Prop
  | [] => False
  | c :: cs =>
      (Text.isLetter c = true ∨ c = '_') ∧ ∀ d ∈ cs, Text.isAlphanumeric d = true ∨ d = '_'

/-- The token can stand in a text: integers have no sign and 63 bits, identifiers are names other
than the truth values, and the end of input is none. -/
def WellFormed : TokenKind → Prop
  | .int n => 0 ≤ n ∧ n < 2 ^ 63
  | .ident name => IsName name.toList ∧ name ∉ truthWords
  | .eof => False
  | _ => True

/-- How a token is written: the quote around a text, and whether a truth value is capitalised. -/
structure Manner where
  quote : Char
  capital : Bool
  isQuote : IsQuote quote

/-- A character of a text between quotes. -/
def escape (quote c : Char) : List Char :=
  if c = '\\' then ['\\', '\\']
  else if c = quote then ['\\', quote]
  else if c = '\n' then ['\\', 'n']
  else [c]

def truthWord : (capital value : Bool) → List Char
  | false, true => ['t', 'r', 'u', 'e']
  | true, true => ['T', 'r', 'u', 'e']
  | false, false => ['f', 'a', 'l', 's', 'e']
  | true, false => ['F', 'a', 'l', 's', 'e']

/-- The characters of a token. -/
def render (m : Manner) : TokenKind → List Char
  | .lbrace => ['{']
  | .rbrace => ['}']
  | .lbracket => ['[']
  | .rbracket => [']']
  | .colon => [':']
  | .comma => [',']
  | .dot => ['.']
  | .minus => ['-']
  | .str text => m.quote :: (text.toList.flatMap (escape m.quote) ++ [m.quote])
  | .int n => Number.digits n.toNat
  | .bool b => truthWord m.capital b
  | .ident name => name.toList
  | .eof => []

/-- A token to be written, with what stands before it. -/
structure Entry where
  gap : List Char
  manner : Manner
  kind : TokenKind

def Entry.piece (e : Entry) : Piece :=
  ⟨e.gap, render e.manner e.kind, e.kind⟩

/-- The characters of entries, one after another. -/
def writeOut (entries : List Entry) : List Char :=
  entries.flatMap fun e => e.gap ++ render e.manner e.kind

/-! ## What is written spells its token -/

section Render

variable {kind : TokenKind} {l : List Char}

/-- An escaped character is read as the character. -/
theorem Written.escape {quote : Char} (hquote : IsQuote quote) {cs s : List Char}
    (h : Written quote cs s) (c : Char) : Written quote (escape quote c ++ cs) (c :: s) := by
  have hmember := mem_quotes hquote
  rw [Token.escape]
  split_ifs with hslash hsame hnewline
  · subst hslash
    exact .escaped '\\' h
  · subst hsame
    have hunescape : unescape c = [c] := by
      have hall : (quotes.all fun d => unescape d == [d]) = true := by decide
      simpa using List.all_eq_true.mp hall c hmember
    have hescaped := Written.escaped c h
    rwa [hunescape] at hescaped
  · subst hnewline
    exact .escaped 'n' h
  · exact .plain hsame hslash hnewline h

theorem written_escape {quote : Char} (hquote : IsQuote quote) (s : List Char) :
    Written quote (s.flatMap (escape quote)) s := by
  induction s with
  | nil => exact .nil
  | cons c s ih => exact ih.escape hquote c

theorem isName_cons_iff {c : Char} {cs : List Char} :
    IsName (c :: cs) ↔ startsWord c = true ∧ ∀ d ∈ cs, continuesWord d = true := by
  simp only [IsName, startsWord, continuesWord, Bool.or_eq_true, beq_iff_eq]

theorem ofWord_of_not_mem {name : String} (h : name ∉ truthWords) :
    ofWord name.toList = .ident name := by
  simp only [truthWords, List.mem_cons, List.not_mem_nil, or_false, not_or] at h
  simp only [ofWord, String.ofList_toList, h, or_self, if_false]

theorem wellFormed_ofWord {word : List Char} (h : IsName word) : WellFormed (ofWord word) := by
  rw [ofWord]
  split_ifs with htrue hfalse
  · trivial
  · trivial
  · rw [not_or] at htrue hfalse
    refine ⟨?_, by simp [truthWords, htrue, hfalse]⟩
    rw [String.toList_ofList]
    exact h

theorem spells_truthWord (capital b : Bool) : Spells (.bool b) (truthWord capital b) := by
  have hword : ∀ {c : Char} {cs : List Char} {b : Bool}, startsWord c = true →
      cs.all continuesWord = true → ofWord (c :: cs) = .bool b → Spells (.bool b) (c :: cs) := by
    intro c cs b hc hcs h
    rw [← h]
    exact .word hc (List.all_eq_true.mp hcs)
  cases capital <;> cases b <;> exact hword (by decide) (by decide +kernel) (by decide)

/-- **What is written for a token spells it.** -/
theorem spells_render (h : WellFormed kind) (m : Manner) : Spells kind (render m kind) := by
  cases kind with
  | str text =>
      have hspells := Spells.text m.isQuote (written_escape m.isQuote text.toList)
      rwa [String.ofList_toList] at hspells
  | int n =>
      obtain ⟨n, rfl⟩ := Int.eq_ofNat_of_zero_le h.1
      exact spells_digits (Int.le_of_lt_add_one h.2)
  | bool b => exact spells_truthWord m.capital b
  | ident name =>
      obtain ⟨hname, hreserved⟩ := h
      have hword := ofWord_of_not_mem hreserved
      show Spells (.ident name) name.toList
      rcases hchars : name.toList with _ | ⟨c, cs⟩
      · rw [hchars] at hname
        exact absurd hname id
      · rw [hchars] at hname hword
        obtain ⟨hc, hcs⟩ := isName_cons_iff.mp hname
        rw [← hword]
        exact .word hc hcs
  | eof => exact absurd h id
  | _ => exact .mark rfl

/-- What is spelled in a text can be written. -/
theorem Spells.wellFormed (h : Spells kind l) : WellFormed kind := by
  cases h with
  | mark hmark =>
      rw [punctuation?] at hmark
      split_ifs at hmark <;> cases hmark <;> trivial
  | text => trivial
  | number hne hdigits hrange =>
      have hmax : Number.maxInt < 2 ^ 63 := by decide
      exact ⟨Int.natCast_nonneg _, Int.lt_of_le_of_lt hrange hmax⟩
  | word hc hcs => exact wellFormed_ofWord (isName_cons_iff.mpr ⟨hc, hcs⟩)

end Render

/-! ## What stands between tokens -/

section Between

variable {rest : List Char}

theorem Delimited.spread {pieces : List Piece} (hrest : Delimited rest)
    (h : ∀ p ∈ pieces.head?, Gap false p.gap ∧ p.gap ≠ []) :
    Delimited (spread pieces ++ rest) := by
  cases pieces with
  | nil => exact hrest
  | cons p ps =>
      obtain ⟨hgap, hne⟩ := h p rfl
      obtain ⟨c, cs, hcs⟩ := List.exists_cons_of_ne_nil hne
      intro d hd
      rw [spread_cons, hcs] at hd
      exact hgap.continuesWord_head d (by rw [hcs]; exact hd)

/-- A gap between any two tokens keeps them apart. -/
theorem laid_of_gaps {pieces : List Piece} (h : ∀ p ∈ pieces, Gap false p.gap)
    (hspells : ∀ p ∈ pieces, Spells p.kind p.lexeme) (hne : ∀ p ∈ pieces.tail, p.gap ≠ [])
    (hrest : Delimited rest) : Laid pieces rest := by
  induction pieces with
  | nil => trivial
  | cons p ps ih =>
      obtain ⟨hp, hps⟩ := List.forall_mem_cons.mp h
      obtain ⟨hsp, hsps⟩ := List.forall_mem_cons.mp hspells
      have hnext : ∀ q ∈ ps.head?, Gap false q.gap ∧ q.gap ≠ [] := by
        intro q hq
        have hmem := List.mem_of_mem_head? hq
        exact ⟨hps q hmem, hne q hmem⟩
      refine ⟨hp, hsp, (hrest.spread hnext).stops p.kind, ?_⟩
      exact ih hps hsps fun q hq => hne q (List.mem_of_mem_tail hq)

theorem spread_map_piece (entries : List Entry) :
    spread (entries.map Entry.piece) = writeOut entries := by
  rw [spread, List.flatMap_map]
  rfl

end Between

/-- The entries are a reading of the text that they make. -/
theorem proper_writeOut {entries : List Entry} {last : List Char}
    (h : ∀ e ∈ entries, WellFormed e.kind ∧ Gap false e.gap)
    (hne : ∀ e ∈ entries.tail, e.gap ≠ []) (hlast : Gap true last) :
    (Reading.mk (entries.map Entry.piece) last [] none).Proper := by
  refine ⟨?_, hlast, rfl⟩
  have hpieces : ∀ {P : Piece → Prop} {es : List Entry}, (∀ e ∈ es, P e.piece) →
      ∀ p ∈ es.map Entry.piece, P p := by
    intro P es hes p hp
    obtain ⟨e, he, rfl⟩ := List.mem_map.mp hp
    exact hes e he
  apply laid_of_gaps
  · exact hpieces fun e he => (h e he).2
  · exact hpieces fun e he => spells_render (h e he).1 e.manner
  · rw [← List.map_tail]
    exact hpieces hne
  · rw [List.append_nil]
    exact hlast.continuesWord_head

/-- The tokens of a text can be written, and the end of input follows them. -/
theorem exists_wellFormed_of_tokenize {text : String} {tokens : List Token}
    (h : tokenize text = .ok tokens) :
    ∃ (ts : List Token) (last : Token), tokens = ts ++ [last] ∧ last.kind = .eof ∧
      ∀ t ∈ ts, WellFormed t.kind := by
  obtain ⟨r, hproper, hchars⟩ := exists_reading text.toList
  rw [tokenize_eq_answer hproper hchars] at h
  obtain ⟨-, rfl⟩ := Reading.answer_eq_ok h
  refine ⟨_, _, rfl, rfl, fun t ht => ?_⟩
  obtain ⟨before, p, after, hpieces, rfl⟩ := exists_piece_of_mem_tokensFrom ht
  exact (hproper.laid.of_mem p (by simp [hpieces])).wellFormed

/-- **The lexer inverts the writing of tokens.** Well-formed tokens are read back from their text,
whatever white space and comments keep them apart, and the end of input follows them. Conversely,
the tokens of any text are well-formed, with the end of input behind them only. -/
theorem tokenize_writeOut :
    (∀ (entries : List Entry) (last : List Char) (text : String),
      (∀ e ∈ entries, WellFormed e.kind ∧ Gap false e.gap) →
      (∀ e ∈ entries.tail, e.gap ≠ []) → Gap true last →
      text.toList = writeOut entries ++ last →
      ∃ tokens, tokenize text = .ok tokens ∧
        tokens.map Token.kind = entries.map Entry.kind ++ [.eof]) ∧
    ∀ (text : String) (tokens : List Token), tokenize text = .ok tokens →
      ∃ (ts : List Token) (last : Token), tokens = ts ++ [last] ∧ last.kind = .eof ∧
        ∀ t ∈ ts, WellFormed t.kind := by
  refine ⟨fun entries last text h hne hlast htext => ?_, fun text tokens => ?_⟩
  · have hproper := proper_writeOut h hne hlast
    have hchars : (Reading.mk (entries.map Entry.piece) last [] none).chars = text.toList := by
      rw [htext, Reading.chars, spread_map_piece, List.append_nil]
    refine ⟨_, tokenize_eq_answer hproper hchars, ?_⟩
    rw [List.map_append, map_kind_tokensFrom, List.map_map]
    rfl
  · exact exists_wellFormed_of_tokenize

/-- Four tokens, behind a comment, a space, an empty comment and a tab. -/
def mixedEntries : List Entry :=
  [⟨['#', 'a', '\n', ' '], ⟨'"', false, .inl rfl⟩, .ident "key"⟩,
   ⟨[' '], ⟨'"', false, .inl rfl⟩, .colon⟩,
   ⟨['#', '\n'], ⟨Char.ofNat 39, false, .inr rfl⟩, .str "it's\\\n\""⟩,
   ⟨['\t'], ⟨'"', true, .inl rfl⟩, .int 9223372036854775807⟩]

theorem tokenize_writeOut_mixedEntries :
    ∃ tokens, tokenize "#a\n key :#\n'it\\'s\\\\\\n\"'\t9223372036854775807 # end" = .ok tokens ∧
      tokens.map Token.kind
        = [.ident "key", .colon, .str "it's\\\n\"", .int 9223372036854775807, .eof] ∧
      ∃ (ts : List Token) (last : Token), tokens = ts ++ [last] ∧ last.kind = .eof ∧
        ∀ t ∈ ts, WellFormed t.kind := by
  have hkey : WellFormed (.ident "key") := by
    have hchars : "key".toList = ['k', 'e', 'y'] := by decide
    have hmore : ['e', 'y'].all continuesWord = true := by decide +kernel
    refine ⟨?_, by decide⟩
    rw [hchars]
    exact isName_cons_iff.mpr ⟨by decide, List.all_eq_true.mp hmore⟩
  have hcomment : Gap false ['#', 'a', '\n', ' '] :=
    .comment (by decide : '\n' ∉ ['a']) (.blank (by decide) .nil)
  have hempty : Gap false ['#', '\n'] := .comment (by decide : '\n' ∉ []) .nil
  have hlast : Gap true [' ', '#', ' ', 'e', 'n', 'd'] :=
    .blank (by decide) (.last rfl (by decide))
  have hentries : ∀ e ∈ mixedEntries, WellFormed e.kind ∧ Gap false e.gap := by
    refine List.forall_mem_cons.mpr ⟨⟨hkey, hcomment⟩, ?_⟩
    refine List.forall_mem_cons.mpr ⟨⟨trivial, .blank (by decide) .nil⟩, ?_⟩
    refine List.forall_mem_cons.mpr ⟨⟨trivial, hempty⟩, ?_⟩
    exact List.forall_mem_singleton.mpr ⟨⟨by decide, by decide⟩, .blank (by decide) .nil⟩
  obtain ⟨tokens, htokens, hkinds⟩ := tokenize_writeOut.1 mixedEntries _
    "#a\n key :#\n'it\\'s\\\\\\n\"'\t9223372036854775807 # end" hentries (by decide) hlast
    (by decide +kernel)
  exact ⟨tokens, htokens, hkinds, tokenize_writeOut.2 _ tokens htokens⟩

end SiteConf.Token
