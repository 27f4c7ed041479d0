import SiteConf.Proofs.Lexemes

set_option autoImplicit false

/-! # Readings of a text

A *reading* cuts a text into gaps and tokens, up to its end or up to the place where something is
wrong. It says what the lexer should answer, with every line counted from the start of the text.

* The lexer answers what a reading of the text says (`scan_eq_answer`).
* Every text has a reading (`exists_reading`), and only one (`Reading.Proper.eq`). -/

namespace SiteConf.Token

/-! ## Pieces -/

/-- A token in a text: the gap before it, its characters, and what it is. -/
structure Piece where
  gap : List Char
  lexeme : List Char
  kind : TokenKind

/-- The characters of pieces, one after another. -/
def spread (pieces : List Piece) : List Char :=
  pieces.flatMap fun p => p.gap ++ p.lexeme

/-- The pieces are gaps and tokens, and every token ends where its piece does, given what follows
the last piece. -/
def Laid : List Piece → List Char → Prop
  | [], _ => True
  | p :: ps, rest =>
      Gap false p.gap ∧ Spells p.kind p.lexeme ∧ Stops p.kind (spread ps ++ rest) ∧ Laid ps rest

/-- The tokens of pieces that start on the given line. -/
def tokensFrom (line : Nat) : List Piece → List Token
  | [] => []
  | p :: ps =>
      ⟨p.kind, line + p.gap.count '\n'⟩ :: tokensFrom (line + (p.gap ++ p.lexeme).count '\n') ps

section Pieces

variable {pieces : List Piece} {rest : List Char}

theorem spread_cons (p : Piece) (ps : List Piece) :
    spread (p :: ps) = p.gap ++ (p.lexeme ++ spread ps) := by
  rw [spread, List.flatMap_cons, List.append_assoc]
  rfl

theorem spread_append (before after : List Piece) :
    spread (before ++ after) = spread before ++ spread after :=
  List.flatMap_append

theorem map_kind_tokensFrom (line : Nat) (pieces : List Piece) :
    (tokensFrom line pieces).map Token.kind = pieces.map Piece.kind := by
  induction pieces generalizing line with
  | nil => rfl
  | cons p ps ih => rw [tokensFrom, List.map_cons, List.map_cons, ih]

theorem length_tokensFrom (line : Nat) (pieces : List Piece) :
    (tokensFrom line pieces).length = pieces.length := by
  simpa using congrArg List.length (map_kind_tokensFrom line pieces)

/-- **The line of a token counts the newlines before it.** -/
theorem tokensFrom_append_cons (line : Nat) (before : List Piece) (p : Piece)
    (after : List Piece) :
    tokensFrom line (before ++ p :: after)
      = tokensFrom line before ++ ⟨p.kind, line + (spread before ++ p.gap).count '\n'⟩
        :: tokensFrom (line + (spread (before ++ [p])).count '\n') after := by
  induction before generalizing line with
  | nil => simp [tokensFrom, spread]
  | cons q before ih =>
      rw [List.cons_append, tokensFrom, tokensFrom, ih, List.cons_append]
      simp only [List.cons_append, spread_cons, List.count_append, Nat.add_assoc]

theorem exists_piece_of_mem_tokensFrom {line : Nat} {t : Token} (h : t ∈ tokensFrom line pieces) :
    ∃ before p after, pieces = before ++ p :: after ∧
      t = ⟨p.kind, line + (spread before ++ p.gap).count '\n'⟩ := by
  induction pieces generalizing line with
  | nil => cases h
  | cons q ps ih =>
      rcases List.mem_cons.mp h with rfl | h
      · exact ⟨[], q, ps, rfl, rfl⟩
      · obtain ⟨before, p, after, rfl, rfl⟩ := ih h
        refine ⟨q :: before, p, after, rfl, ?_⟩
        simp only [spread_cons, List.count_append, Nat.add_assoc]

theorem Laid.of_mem (h : Laid pieces rest) : ∀ p ∈ pieces, Spells p.kind p.lexeme := by
  induction pieces with
  | nil => exact fun p hp => absurd hp List.not_mem_nil
  | cons q ps ih =>
      obtain ⟨-, hspells, -, hps⟩ := h
      exact List.forall_mem_cons.mpr ⟨hspells, ih hps⟩

end Pieces

/-! ## Readings -/

/-- A text cut into pieces, a last gap, and what is not read because something is wrong there. -/
structure Reading where
  pieces : List Piece
  gap : List Char
  rest : List Char
  issue : Option SyntaxIssue

namespace Reading

/-- The text that is read. -/
def chars (r : Reading) : List Char :=
  spread r.pieces ++ (r.gap ++ r.rest)

/-- The reading goes to the end of the text, or to where it says that something is wrong. -/
def Ends (r : Reading) : Prop :=
  match r.issue with
  | none => Gap true r.gap ∧ r.rest = []
  | some issue => Gap false r.gap ∧ Offends issue r.rest

/-- The reading is right. -/
structure Proper (r : Reading) : Prop where
  laid : Laid r.pieces (r.gap ++ r.rest)
  ends : r.Ends

/-- The line behind the last gap, in a text that starts on the given line. -/
def lastLine (line : Nat) (r : Reading) : Nat :=
  line + (spread r.pieces ++ r.gap).count '\n'

/-- What the lexer should answer. -/
def answer (line : Nat) (r : Reading) : Except Error (List Token) :=
  match r.issue with
  | none => .ok (tokensFrom line r.pieces ++ [⟨.eof, r.lastLine line⟩])
  | some issue => .error (.badSyntax (some (r.lastLine line)) issue)

/-- The reading of the text with one piece more at its start. -/
def cons (p : Piece) (r : Reading) : Reading :=
  ⟨p :: r.pieces, r.gap, r.rest, r.issue⟩

/-- A reading is one without tokens, or one with a piece more than another. -/
@[elab_as_elim]
theorem induction {motive : Reading → Prop}
    (stop : ∀ gap rest issue, motive ⟨[], gap, rest, issue⟩)
    (cons : ∀ p r, motive r → motive (r.cons p)) (r : Reading) : motive r := by
  obtain ⟨pieces, gap, rest, issue⟩ := r
  induction pieces with
  | nil => exact stop gap rest issue
  | cons p ps ih => exact cons p _ ih

end Reading

section Scan

variable {final : Bool} {fuel : Nat} {gap l rest : List Char} {kind : TokenKind}
  {issue : SyntaxIssue}

theorem scan_gap (h : Gap final gap) (hrest : final = true → rest = []) (fuel line : Nat) :
    scan (fuel + 1) line (gap ++ rest) = scan (fuel + 1) (line + gap.count '\n') rest := by
  rw [scan, scan, skipTrivia_gap h hrest]

theorem scan_lexeme (hspells : Spells kind l) (hstops : Stops kind rest) (fuel line : Nat) :
    scan (fuel + 1) line (l ++ rest)
      = (scan fuel (line + l.count '\n') rest).map (⟨kind, line⟩ :: ·) := by
  obtain ⟨c, l, rfl, hc⟩ := hspells.exists_visible
  have hnewline := (isVisible_iff.mp hc).1
  rw [List.cons_append, scan, skipTrivia_of_isVisible hc, List.count_cons_of_ne hnewline]
  simp only [lexeme_of_spells hspells hstops line]
  rcases scan fuel (line + l.count '\n') rest with e | tokens
  · rfl
  · rfl

theorem scan_offends (h : Offends issue rest) (fuel line : Nat) :
    scan (fuel + 1) line rest = .error (.badSyntax (some line) issue) := by
  obtain ⟨c, cs, rfl, hc⟩ := h.exists_visible
  rw [scan, skipTrivia_of_isVisible hc]
  simp only [lexeme_of_offends h line]

end Scan

/-! ## What a reading says is what the lexer answers -/

section Answer

variable {p : Piece} {r : Reading}

theorem Reading.chars_cons (p : Piece) (r : Reading) :
    (r.cons p).chars = p.gap ++ (p.lexeme ++ r.chars) := by
  rw [chars, cons, spread_cons, List.append_assoc, List.append_assoc]
  rfl

theorem Reading.proper_cons_iff :
    (r.cons p).Proper ↔
      Gap false p.gap ∧ Spells p.kind p.lexeme ∧ Stops p.kind r.chars ∧ r.Proper := by
  constructor
  · rintro ⟨⟨hgap, hspells, hstops, hlaid⟩, hends⟩
    exact ⟨hgap, hspells, hstops, hlaid, hends⟩
  · rintro ⟨hgap, hspells, hstops, hlaid, hends⟩
    exact ⟨⟨hgap, hspells, hstops, hlaid⟩, hends⟩

theorem Reading.answer_cons (line : Nat) (p : Piece) (r : Reading) :
    (r.cons p).answer line
      = (r.answer (line + (p.gap ++ p.lexeme).count '\n')).map
          (⟨p.kind, line + p.gap.count '\n'⟩ :: ·) := by
  have hline : (r.cons p).lastLine line = r.lastLine (line + (p.gap ++ p.lexeme).count '\n') := by
    simp only [lastLine, cons, spread_cons, List.count_append]
    omega
  have hissue : (r.cons p).issue = r.issue := rfl
  rw [answer, answer, hline, hissue]
  rcases r.issue with _ | issue
  · rfl
  · rfl

/-- **The lexer answers what the reading says.** Every piece takes one unit of fuel at most. -/
theorem scan_eq_answer (h : r.Proper) {fuel : Nat} (hfuel : r.chars.length < fuel) (line : Nat) :
    scan fuel line r.chars = r.answer line := by
  obtain ⟨fuel, rfl⟩ := Nat.exists_eq_add_one_of_ne_zero (Nat.ne_of_gt (Nat.zero_lt_of_lt hfuel))
  induction r using Reading.induction generalizing fuel line with
  | stop gap rest issue =>
      cases issue with
      | none =>
          obtain ⟨hgap, rfl⟩ := h.ends
          exact scan_gap hgap (fun _ => rfl) fuel line
      | some issue =>
          obtain ⟨hgap, hoffends⟩ := h.ends
          exact (scan_gap hgap (by simp) fuel line).trans (scan_offends hoffends fuel _)
  | cons p r ih =>
      obtain ⟨hgap, hspells, hstops, hproper⟩ := Reading.proper_cons_iff.mp h
      -- a token has at least one character, so the rest is shorter and the fuel lasts
      have hne : 0 < p.lexeme.length := by
        obtain ⟨c, l, hl, -⟩ := hspells.exists_visible
        simp [hl]
      have hlength : r.chars.length < fuel := by
        rw [Reading.chars_cons, List.length_append, List.length_append] at hfuel
        omega
      obtain ⟨fuel, rfl⟩ :=
        Nat.exists_eq_add_one_of_ne_zero (Nat.ne_of_gt (Nat.zero_lt_of_lt hlength))
      calc scan (fuel + 1 + 1) line (r.cons p).chars
          = scan (fuel + 1 + 1) (line + p.gap.count '\n') (p.lexeme ++ r.chars) := by
            rw [Reading.chars_cons, scan_gap hgap (by simp)]
        _ = (scan (fuel + 1) (line + (p.gap ++ p.lexeme).count '\n') r.chars).map
              (⟨p.kind, line + p.gap.count '\n'⟩ :: ·) := by
            rw [scan_lexeme hspells hstops, List.count_append, Nat.add_assoc]
        _ = (r.answer (line + (p.gap ++ p.lexeme).count '\n')).map
              (⟨p.kind, line + p.gap.count '\n'⟩ :: ·) := by
            rw [ih hproper _ fuel hlength]
        _ = (r.cons p).answer line := (Reading.answer_cons line p r).symm

end Answer

/-! ## Every text has a reading -/

theorem exists_reading (cs : List Char) : ∃ r : Reading, r.Proper ∧ r.chars = cs := by
  induction hn : cs.length using Nat.strong_induction_on generalizing cs with
  | h n ih =>
      subst hn
      -- the gap that the lexer skips is the gap of the first piece, or the last gap
      rcases hskip : skipTrivia false 0 cs with ⟨rest, line⟩
      obtain ⟨gap, rfl, -, hgap, hvisible⟩ := skipTrivia_spec hskip
      cases rest with
      | nil => exact ⟨⟨[], gap, [], none⟩, ⟨trivial, hgap, rfl⟩, rfl⟩
      | cons c rest =>
          rcases spells_or_offends (hvisible c rfl) rest with
            ⟨kind, l, rest, rfl, hspells, hstops⟩ | ⟨issue, hoffends⟩
          · obtain ⟨r, hproper, rfl⟩ := ih rest.length (by simp; omega) rest rfl
            refine ⟨r.cons ⟨gap, c :: l, kind⟩, ?_, Reading.chars_cons _ r⟩
            exact Reading.proper_cons_iff.mpr ⟨hgap, hspells, hstops, hproper⟩
          · exact ⟨⟨[], gap, c :: rest, some issue⟩, ⟨trivial, hgap, hoffends⟩, rfl⟩

/-! ## No text has two readings -/

section Unique

variable {final final' : Bool} {gap gap' l l' rest rest' : List Char} {kind kind' : TokenKind}
  {issue issue' : SyntaxIssue} {r r' : Reading} {p : Piece}

/-- A gap reaches up to a visible character, or up to the end. -/
def Gap.Before (final : Bool) (rest : List Char) : Prop :=
  (final = true → rest = []) ∧ ∀ c ∈ rest.head?, isVisible c = true

theorem Gap.append_inj (h : Gap final gap) (hrest : Before final rest) (h' : Gap final' gap')
    (hrest' : Before final' rest') (heq : gap ++ rest = gap' ++ rest') :
    gap = gap' ∧ rest = rest' := by
  have hskip : ∀ {final : Bool} {gap rest : List Char}, Gap final gap → Before final rest →
      (skipTrivia false 0 (gap ++ rest)).1 = rest := by
    intro final gap rest h hrest
    rw [skipTrivia_gap h hrest.1]
    cases rest with
    | nil => rfl
    | cons c cs => rw [skipTrivia_of_isVisible (hrest.2 c rfl)]
  have hsame : rest = rest' := by
    calc rest = (skipTrivia false 0 (gap ++ rest)).1 := (hskip h hrest).symm
      _ = (skipTrivia false 0 (gap' ++ rest')).1 := by rw [heq]
      _ = rest' := hskip h' hrest'
  subst hsame
  exact ⟨List.append_cancel_right heq, rfl⟩

theorem Spells.append_inj (h : Spells kind l) (hstops : Stops kind rest) (h' : Spells kind' l')
    (hstops' : Stops kind' rest') (heq : l ++ rest = l' ++ rest') :
    kind = kind' ∧ l = l' ∧ rest = rest' := by
  obtain ⟨c, l, rfl, -⟩ := h.exists_visible
  obtain ⟨c', l', rfl, -⟩ := h'.exists_visible
  have heq' := heq
  rw [List.cons_append, List.cons_append] at heq'
  obtain ⟨rfl, hrest⟩ := List.cons.inj heq'
  have hread := lexeme_of_spells h hstops 0
  rw [hrest, lexeme_of_spells h' hstops' 0] at hread
  obtain ⟨rfl, hpair⟩ := Prod.mk.inj (Except.ok.inj hread)
  obtain ⟨rfl, -⟩ := Prod.mk.inj hpair
  exact ⟨rfl, List.append_cancel_right heq, rfl⟩

theorem Spells.not_offends (h : Spells kind l) (hstops : Stops kind rest) :
    ¬ Offends issue (l ++ rest) := by
  intro hoffends
  obtain ⟨c, l, rfl, -⟩ := h.exists_visible
  rw [List.cons_append] at hoffends
  have hread := lexeme_of_spells h hstops 0
  rw [lexeme_of_offends hoffends 0] at hread
  cases hread

theorem Offends.issue_eq (h : Offends issue rest) (h' : Offends issue' rest) : issue = issue' := by
  obtain ⟨c, cs, rfl, -⟩ := h.exists_visible
  have hread := lexeme_of_offends h 0
  rw [lexeme_of_offends h' 0] at hread
  exact (Except.error.inj hread).symm

theorem Spells.before (h : Spells kind l) (rest : List Char) : Gap.Before false (l ++ rest) := by
  obtain ⟨c, l, rfl, hc⟩ := h.exists_visible
  refine ⟨by simp, fun d hd => ?_⟩
  obtain rfl := Option.some.inj hd
  exact hc

/-- The last gap of a reading, and what follows it. -/
theorem Reading.Ends.exists_gap (h : r.Ends) :
    ∃ final, Gap final r.gap ∧ Gap.Before final r.rest := by
  rw [Ends] at h
  rcases hissue : r.issue with _ | issue
  · simp only [hissue] at h
    refine ⟨true, h.1, fun _ => h.2, ?_⟩
    rw [h.2]
    rintro c ⟨⟩
  · simp only [hissue] at h
    obtain ⟨c, cs, hrest, hc⟩ := h.2.exists_visible
    refine ⟨false, h.1, by simp, ?_⟩
    rw [hrest]
    intro d hd
    obtain rfl := Option.some.inj hd
    exact hc

/-- Where a reading stops no token is read. -/
theorem Reading.Ends.not_spells (h : r.Ends) (hspells : Spells kind l) (hstops : Stops kind rest) :
    r.rest ≠ l ++ rest := by
  intro heq
  rw [Ends] at h
  rcases hissue : r.issue with _ | issue
  · simp only [hissue] at h
    obtain ⟨c, l, rfl, -⟩ := hspells.exists_visible
    rw [h.2] at heq
    cases heq
  · simp only [hissue] at h
    rw [heq] at h
    exact hspells.not_offends hstops h.2

theorem Reading.Ends.issue_eq (h : r.Ends) (h' : r'.Ends) (heq : r.rest = r'.rest) :
    r.issue = r'.issue := by
  rw [Ends] at h h'
  rw [heq] at h
  rcases hissue : r.issue with _ | issue <;> rcases hissue' : r'.issue with _ | issue' <;>
    simp only [hissue, hissue'] at h h'
  · rfl
  · obtain ⟨c, cs, hcs, -⟩ := h'.2.exists_visible
    rw [h.2] at hcs
    cases hcs
  · obtain ⟨c, cs, hcs, -⟩ := h.2.exists_visible
    rw [h'.2] at hcs
    cases hcs
  · rw [h.2.issue_eq h'.2]

theorem Reading.Proper.chars_ne_of_pieces_eq_nil (h : r.Proper) (hnil : r.pieces = [])
    (h' : (r'.cons p).Proper) : r.chars ≠ (r'.cons p).chars := by
  intro heq
  obtain ⟨hgap, hspells, hstops, -⟩ := proper_cons_iff.mp h'
  obtain ⟨final, hlast, hrest⟩ := h.ends.exists_gap
  rw [chars_cons, chars, hnil] at heq
  obtain ⟨-, hsame⟩ := hlast.append_inj hrest hgap (hspells.before _) heq
  exact h.ends.not_spells hspells hstops hsame

/-- **A text has one reading only.** -/
theorem Reading.Proper.eq (h : r.Proper) (h' : r'.Proper) (heq : r.chars = r'.chars) : r = r' := by
  induction r using Reading.induction generalizing r' with
  | stop gap rest issue =>
      cases r' using Reading.induction with
      | stop gap' rest' issue' =>
          obtain ⟨final, hgap, hrest⟩ := h.ends.exists_gap
          obtain ⟨final', hgap', hrest'⟩ := h'.ends.exists_gap
          obtain ⟨hgaps, hrests⟩ := hgap.append_inj hrest hgap' hrest' heq
          rw [Reading.mk.injEq]
          exact ⟨rfl, hgaps, hrests, h.ends.issue_eq h'.ends hrests⟩
      | cons p' r' => exact absurd heq (h.chars_ne_of_pieces_eq_nil rfl h')
  | cons p r ih =>
      cases r' using Reading.induction with
      | stop gap' rest' issue' => exact absurd heq.symm (h'.chars_ne_of_pieces_eq_nil rfl h)
      | cons p' r' =>
          obtain ⟨hgap, hspells, hstops, hproper⟩ := proper_cons_iff.mp h
          obtain ⟨hgap', hspells', hstops', hproper'⟩ := proper_cons_iff.mp h'
          rw [chars_cons, chars_cons] at heq
          -- first the gaps are the same, then the tokens, then the rest by induction
          obtain ⟨hsame, hbehind⟩ :=
            hgap.append_inj (hspells.before _) hgap' (hspells'.before _) heq
          obtain ⟨hkind, hlexeme, hrest⟩ := hspells.append_inj hstops hspells' hstops' hbehind
          have hpiece : p = p' := by
            rw [Piece.mk.injEq]
            exact ⟨hsame, hlexeme, hkind⟩
          rw [hpiece, ih hproper hproper' hrest]

end Unique

/-! ## The tokens of a text -/

section Tokenize

variable {text : String} {r : Reading}

theorem tokenize_eq_answer (h : r.Proper) (hchars : r.chars = text.toList) :
    tokenize text = r.answer 1 := by
  rw [tokenize, ← hchars]
  exact scan_eq_answer h (Nat.lt_succ_self _) 1

theorem Reading.answer_eq_ok {line : Nat} {tokens : List Token} (h : r.answer line = .ok tokens) :
    r.issue = none ∧ tokens = tokensFrom line r.pieces ++ [⟨.eof, r.lastLine line⟩] := by
  rw [answer] at h
  rcases hissue : r.issue with _ | issue
  · simp only [hissue] at h
    exact ⟨rfl, (Except.ok.inj h).symm⟩
  · simp only [hissue] at h
    cases h

theorem Reading.answer_eq_error {line : Nat} {e : Error} (h : r.answer line = .error e) :
    ∃ issue, r.issue = some issue ∧ e = .badSyntax (some (r.lastLine line)) issue := by
  rw [answer] at h
  rcases hissue : r.issue with _ | issue
  · simp only [hissue] at h
    cases h
  · simp only [hissue] at h
    exact ⟨issue, rfl, (Except.error.inj h).symm⟩

/-- A reading to the end of the text takes all newlines into account. -/
theorem Reading.Proper.lastLine_of_issue_eq_none (h : r.Proper) (hissue : r.issue = none)
    (line : Nat) : r.lastLine line = line + r.chars.count '\n' := by
  have hends := h.ends
  rw [Ends, hissue] at hends
  rw [lastLine, chars, hends.2, List.append_nil]

theorem Reading.Proper.offends (h : r.Proper) {issue : SyntaxIssue}
    (hissue : r.issue = some issue) : Offends issue r.rest := by
  have hends := h.ends
  rw [Ends, hissue] at hends
  exact hends.2

end Tokenize

end SiteConf.Token
