import SiteConf.Proofs.JsonRoundTrip
import SiteConf.Proofs.LiteralLines
import SiteConf.Proofs.Parts
import SiteConf.Proofs.RenderedTokens
import SiteConf.Proofs.SignedDecimals
import SiteConf.Proofs.Substitution

set_option autoImplicit false

/-! # Integers survive exactly

The integers of a document are those of 64 bits without the smallest one. The lexer reads no larger
numeral than `2 ^ 63 - 1`, and a range that is symmetric around zero is closed under negation: so a
chain of minuses never leaves it, and the resolver never has to refuse one (`not_overflows_parse`).
The smallest integer of 64 bits has no literal. A text in which it stands for a placeholder is
refused, while every other integer of 64 bits is read back as itself (`parse_integers`). -/

namespace SiteConf.Literal

open KeyPath

/-! ## The symmetric range -/

/-- The integer lies in the range of 64 bits that is symmetric around zero. -/
def Symmetric (n : Int) : Prop :=
  -(2 ^ 63 - 1) ≤ n ∧ n ≤ 2 ^ 63 - 1

/-- A scalar that is an integer lies in the symmetric range. -/
def Ranged : Scalar → Prop
  | .int n => Symmetric n
  | _ => True

/-- The literal is a chain of minuses in front of an integer. -/
inductive Minuses : Nat → Int → Literal → Prop where
  | bare (line : Nat) (k : Int) : Minuses 0 k (.constant line (.int k))
  | minus (line : Nat) {m : Nat} {k : Int} {operand : Literal} (h : Minuses m k operand) :
      Minuses (m + 1) k (.negate line operand)

/-- The smallest integer of 64 bits is the only one outside the range. -/
theorem symmetric_iff {n : Int} : Symmetric n ↔ Number.fits n = true ∧ n ≠ Number.minInt := by
  rw [Number.fits_iff, Symmetric, Number.minInt, Number.maxInt]
  omega

theorem lexical_of_symmetric (l : Literal) (h : LexicalIn Symmetric l) : Lexical l :=
  LexicalIn.imp (fun _ hn => (symmetric_iff.mp hn).1) l h

/-- The integers of a text lie in the range. -/
theorem symmetric_of_ofTokens {text : String} {tokens : List Token} {limit : Nat} {l : Literal}
    (htokens : Token.tokenize text = .ok tokens) (hl : ofTokens limit tokens = .ok l) :
    Everywhere (LexicalIn Symmetric) l :=
  ofTokens_lexicalIn (fun _ ht _ hn => Token.symmetric_of_tokenize htokens ht hn) hl

theorem Minuses.isScalar {m : Nat} {k : Int} {l : Literal} (h : Minuses m k l) :
    l.isScalar = true := by
  cases h <;> rfl

theorem Minuses.integer? {m : Nat} {k : Int} {l : Literal} (h : Minuses m k l) :
    l.integer? = some ((-1) ^ m * k) := by
  induction h with
  | bare line k => simp [Literal.integer?]
  | minus line _ ih =>
      rw [Literal.integer?, ih, Option.map_some, pow_succ]
      congr 1
      ring

/-- The integer of a chain of minuses lies in the range. -/
theorem symmetric_of_integer? : ∀ {l : Literal} {k : Int}, Everywhere (LexicalIn Symmetric) l →
    l.integer? = some k → Symmetric k
  | .constant line (.int n), k, hl, h => by
      cases h
      exact hl
  | .negate line operand, k, hl, h => by
      rw [integer?] at h
      obtain ⟨n, hn, rfl⟩ := Option.map_eq_some_iff.mp h
      obtain ⟨hlo, hhi⟩ := symmetric_of_integer? hl.2 hn
      exact ⟨by omega, by omega⟩

/-- A chain of references leads to scalars in the range only. -/
theorem LeadsTo.ranged {l : Literal} (hl : Everywhere (LexicalIn Symmetric) l) {n : Placed}
    {v : Scalar} (h : LeadsTo (nodes l) n v) (hn : n ∈ nodes l) : Ranged v := by
  have hlexical : ∀ m ∈ nodes l, Everywhere (LexicalIn Symmetric) m.literal :=
    everywhere_of_mem_outline l [] l.line none hl
  induction h with
  | @constant n line v h =>
      have hv := hlexical n hn
      rw [h] at hv
      cases v with
      | int k => exact hv
      | str s => trivial
      | bool b => trivial
  | @negate n line operand k h hk =>
      have hv := hlexical n hn
      rw [h] at hv
      refine symmetric_of_integer? hv ?_
      rw [integer?, hk, Option.map_some]
  | reference _ hm _ _ ih => exact ih hm

/-- What a scope holds after all nodes were visited lies in the range. -/
theorem Visited.ranged {l : Literal} {s : Scope} (hl : Everywhere (LexicalIn Symmetric) l)
    (h : Visited (nodes l) s) {path : String} {v : Scalar} (hv : s.Holds path v) : Ranged v := by
  obtain ⟨n, hn, hscalar, rfl⟩ := h.inScope path v hv
  obtain ⟨w, hw, hleads⟩ := h.leadsTo n hn hscalar
  have hvw : some w = some v := hw.symm.trans hv
  rw [← Option.some.inj hvw]
  exact hleads.ranged hl hn

section Resolved

variable {l : Literal} {doc : Document}

/-- The integers of a document lie in the range. -/
theorem everywhere_ranged_of_resolve (hl : Everywhere (LexicalIn Symmetric) l)
    (h : resolve l = .ok doc) :
    doc.tree.Everywhere fun t => ∀ v, t = .scalar v → Ranged v := by
  obtain ⟨s, -, hs, -, hmirrors⟩ := resolve_eq_ok (hl.imp lexical_of_symmetric) h
  refine hmirrors.everywhere ?_ ?_ ?_
  · intro steps l v hv w hw
    cases hw
    exact hs.ranged hl hv.1
  · rintro fields w ⟨⟩
  · rintro items w ⟨⟩

/-- A chain of minuses stands for the integer with the sign that they give it. -/
theorem at?_of_minuses (hl : Everywhere Lexical l) (h : resolve l = .ok doc) {n : Placed}
    (hn : n ∈ nodes l) {m : Nat} {k : Int} (hm : Minuses m k n.literal) :
    doc.tree.at? n.steps = some (.scalar (.int ((-1) ^ m * k))) := by
  obtain ⟨s, hnone, hs, -, hmirrors⟩ := resolve_eq_ok hl h
  have hadmissible := ((firstOffence_nodes_eq_none_iff l).mp hnone).admissible
  have hscalar := hm.isScalar
  obtain ⟨v, hv, hleads⟩ := hs.leadsTo n hn hscalar
  have hinteger := hm.integer?
  have hvalue : v = .int ((-1) ^ m * k) := by
    cases hleads with
    | constant hliteral =>
        rw [hliteral] at hm
        cases hm
        simp
    | negate hliteral hk =>
        rw [hliteral, integer?, hk, Option.map_some] at hinteger
        rw [Option.some.inj hinteger]
    | reference hliteral =>
        rw [hliteral] at hm
        cases hm
  rw [at?_steps_of_holds hadmissible hmirrors hn hscalar hv, hvalue]

end Resolved

/-! ## Errors about negations -/

/-- The error says that an integer cannot be negated. -/
def Overflows (e : Error) : Prop :=
  ∃ line n, e = .badSyntax line (.cannotNegate n)

/-- Only the smallest integer cannot be negated, and it is outside the range. -/
theorem not_overflows_badOperand? : ∀ {l : Literal} {line : Nat} {e : Error},
    Everywhere (LexicalIn Symmetric) l → l.badOperand? line = some e → ¬ Overflows e
  | .mapping l entries, line, e, hl, h => by
      cases h
      rintro ⟨_, _, ⟨⟩⟩
  | .sequence l items, line, e, hl, h => by
      cases h
      rintro ⟨_, _, ⟨⟩⟩
  | .constant l (.int n), line, e, hl, h => by
      have hn : n ≠ Number.minInt := (symmetric_iff.mp hl).2
      rw [badOperand?, if_neg hn] at h
      cases h
  | .constant l (.str s), line, e, hl, h => by
      cases h
      rintro ⟨_, _, ⟨⟩⟩
  | .constant l (.bool b), line, e, hl, h => by
      cases h
      rintro ⟨_, _, ⟨⟩⟩
  | .negate inner operand, line, e, hl, h => by
      rw [badOperand?] at h
      exact not_overflows_badOperand? hl.2 h
  | .reference l segments, line, e, hl, h => by
      cases h
      rintro ⟨_, _, ⟨⟩⟩

theorem not_overflows_offence {before : List Placed} {n : Placed} {e : Error}
    (hn : Everywhere (LexicalIn Symmetric) n.literal) (h : offence before n = some e) :
    ¬ Overflows e := by
  unfold offence at h
  rcases hfirst : n.first with _ | first
  · simp only [hfirst] at h
    cases hliteral : n.literal with
    | mapping l entries | sequence l items | constant l v =>
        rw [hliteral] at h
        cases h
    | negate l operand =>
        rw [hliteral] at h hn
        exact not_overflows_badOperand? hn.2 h
    | reference l segments =>
        rw [hliteral] at h
        simp only at h
        split at h
        · cases h
        · cases h
          rintro ⟨_, _, ⟨⟩⟩
  · simp only [hfirst] at h
    cases h
    rintro ⟨_, _, ⟨⟩⟩

theorem not_overflows_firstOffence {before ns : List Placed} {e : Error}
    (hns : ∀ n ∈ ns, Everywhere (LexicalIn Symmetric) n.literal)
    (h : firstOffence before ns = some e) : ¬ Overflows e := by
  induction ns generalizing before with
  | nil => cases h
  | cons n ns ih =>
      obtain ⟨hn, hns⟩ := List.forall_mem_cons.mp hns
      rw [firstOffence] at h
      rcases hhere : offence before n with _ | e'
      · rw [hhere, Option.none_or] at h
        exact ih hns h
      · rw [hhere, Option.some_or] at h
        cases h
        exact not_overflows_offence hn hhere

end SiteConf.Literal

namespace SiteConf.Token

open Literal

/-- A space before the tokens does not matter. -/
theorem Scans.blank {rest : List Char} {tokens : List Token} (h : Scans rest tokens) :
    Scans (' ' :: rest) tokens := by
  intro fuel hfuel
  rw [List.length_cons] at hfuel
  obtain ⟨fuel, rfl⟩ := Nat.exists_eq_add_one_of_ne_zero (Nat.ne_of_gt (Nat.zero_lt_of_lt hfuel))
  have hgap : Gap false [' '] := .blank (by decide) .nil
  rw [← List.singleton_append, scan_gap hgap (absurd · Bool.false_ne_true)]
  exact h (fuel + 1) (by omega)

theorem Offends.not_overflows {issue : SyntaxIssue} {rest : List Char} (h : Offends issue rest)
    (line : LineRef) : ¬ Overflows (.badSyntax line issue) := by
  cases h <;> rintro ⟨_, _, ⟨⟩⟩

theorem not_overflows_tokenize {text : String} {e : Error} (h : tokenize text = .error e) :
    ¬ Overflows e := by
  obtain ⟨r, hproper, hchars⟩ := exists_reading text.toList
  rw [tokenize_eq_answer hproper hchars] at h
  obtain ⟨issue, hissue, rfl⟩ := Reading.answer_eq_error h
  exact (hproper.offends hissue).not_overflows _

end SiteConf.Token

namespace SiteConf.Document

open Literal

theorem not_overflows_ofTokens {tokens : List Token} {e : Error} (hne : tokens ≠ [])
    (h : ofTokens maxDepth tokens = .error e) : ¬ Overflows e := by
  obtain ⟨t, issue, -, hrefusal, rfl⟩ :=
    (ofTokens_keeps grows_trivial maxDepth hne fun _ _ => trivial).2 e h
  rintro ⟨_, _, ⟨⟩⟩
  exact hrefusal

/-- **No text fails because an integer cannot be negated.** Only the resolver could say so, and
what it says is the first offence. -/
theorem not_overflows_parse {text : String} {e : Error} (h : (parse text).result = .error e) :
    ¬ Overflows e := by
  rw [result_parse] at h
  rcases htokens : Token.tokenize text with e' | tokens
  · rw [htokens] at h
    cases h
    exact Token.not_overflows_tokenize htokens
  · rw [htokens] at h
    have hstages : (ofTokens maxDepth tokens >>= resolve) = .error e := h
    rcases hl : ofTokens maxDepth tokens with e' | l
    · rw [hl] at hstages
      cases hstages
      obtain ⟨ts, last, rfl, -⟩ := Token.exists_wellFormed_of_tokenize htokens
      exact not_overflows_ofTokens (by simp) hl
    · rw [hl] at hstages
      have hresolve : resolve l = .error e := hstages
      have hlex := symmetric_of_ofTokens htokens hl
      rcases resolve_cases (hlex.imp lexical_of_symmetric) with ⟨doc, s, hdoc, -⟩ |
        ⟨e', he', hoffence⟩
      · rw [hresolve] at hdoc
        cases hdoc
      · rw [hresolve] at he'
        cases he'
        refine not_overflows_firstOffence ?_ hoffence
        exact everywhere_of_mem_outline l [] l.line none hlex

/-! ## A scalar under a key -/

/-- The text of a mapping with one entry, whose value has the given text. -/
def entryText (key : String) (value : List Char) : List Char :=
  '{' :: (key.toList ++ ':' :: ' ' :: (value ++ ['}']))

section Entry

variable {key name : String}

/-- Only characters of words are in an identifier. -/
theorem not_mem_of_isName {c : Char} (hc : Token.continuesWord c = false) {cs : List Char}
    (h : Token.IsName cs) : c ∉ cs := by
  rcases cs with _ | ⟨d, ds⟩
  · exact absurd h id
  · obtain ⟨hd, hds⟩ := Token.isName_cons_iff.mp h
    intro hmem
    have hword : Token.continuesWord c = true := by
      rcases List.mem_cons.mp hmem with rfl | hmem
      · exact Token.continuesWord_of_startsWord hd
      · exact hds c hmem
    rw [hc] at hword
    cases hword

theorem isKey_of_isName (h : Token.IsName key.toList) : isKey key = true := by
  have hdot : '.' ∉ key.toList := not_mem_of_isName (by decide +kernel) h
  have hne : key.toList ≠ [] := by
    intro hnil
    rw [hnil] at h
    exact h
  rw [isKey, Bool.and_eq_true]
  exact ⟨by simpa using hne, by simpa using hdot⟩

/-- Where there is no sign no marker starts. -/
theorem not_startsWithMarker {gap after rest : List Char} (hgap : '@' ∉ gap) (h : after <:+ gap)
    (hne : after ≠ []) : ¬ Source.StartsWithMarker (after ++ rest) := by
  obtain ⟨c, cs, rfl⟩ := List.exists_cons_of_ne_nil hne
  rintro ⟨marked, -, more, hmore⟩
  obtain ⟨rfl, -⟩ := List.cons.inj hmore
  exact hgap (h.subset List.mem_cons_self)

/-- The value of a placeholder stands in the place of its marker. -/
theorem substitute_entry {placeholders : Placeholders} {value : Placeholder.Value}
    (hkey : Token.IsName key.toList) (hname : Source.IsName name.toList)
    (hvalue : Ordered.get? name placeholders = some value) :
    Source.substitute placeholders ("\x7b" ++ key ++ ": @@" ++ name ++ "@@\x7d") =
      .ok (String.ofList (entryText key value.text.toList)) := by
  have htext : ("\x7b" ++ key ++ ": @@" ++ name ++ "@@\x7d").toList =
      '{' :: (key.toList ++ [':', ' ']) ++ (Source.spelled name.toList ++ ['}']) := by
    simp [Source.spelled, String.toList_append]
  have hgap : '@' ∉ '{' :: (key.toList ++ [':', ' ']) := by
    have hat : '@' ∉ key.toList := not_mem_of_isName (by decide +kernel) hkey
    simpa using hat
  have hscan : Source.Scanned ("\x7b" ++ key ++ ": @@" ++ name ++ "@@\x7d").toList
      [⟨'{' :: (key.toList ++ [':', ' ']), name.toList⟩] ['}'] := by
    rw [htext]
    refine .found hname (fun after h hne => not_startsWithMarker hgap h hne) (.done ?_)
    simp only [← List.mem_tails]
    decide
  have hvalues : Source.Valued placeholders [⟨'{' :: (key.toList ++ [':', ' ']), name.toList⟩]
      [value] := by
    simp only [Source.Valued, List.map_cons, List.map_nil, Source.Occurrence.value?,
      String.ofList_toList, hvalue]
  rw [hscan.substitute_eq_ok hvalues]
  simp [Source.replaced, entryText]

/-- The tokens of a mapping with one entry. -/
theorem tokenize_entryText (hkey : Token.WellFormed (.ident key)) {v : Scalar}
    (hv : (Tree.scalar v).Portable) :
    Token.tokenize (String.ofList (entryText key (Tree.jsonScalar v).toList)) =
      .ok (⟨.lbrace, 1⟩ :: ⟨.ident key, 1⟩ :: ⟨.colon, 1⟩ ::
        (Tree.scalarTokens v ++ [⟨.rbrace, 1⟩, ⟨.eof, 1⟩])) := by
  have hclosed : Token.Scans ['}'] [⟨.rbrace, 1⟩, ⟨.eof, 1⟩] := Token.scans_nil.mark rfl
  have hvalue := hclosed.scalar (Token.delimited_of_punctuation? rfl []) hv
  have hcolon := hvalue.blank.mark (c := ':') rfl
  have hspells := Token.spells_render hkey ⟨'"', false, .inl rfl⟩
  have hword := hcolon.spelled hspells
    ((Token.delimited_of_punctuation? rfl _).stops _) (not_mem_of_isName (by decide +kernel) hkey.1)
  have hall := hword.mark (c := '{') rfl
  rw [Token.tokenize, String.toList_ofList]
  exact hall _ (Nat.lt_succ_self _)

/-- The derivation of a mapping with one entry. -/
def entryDerivation (key : String) (h : isKey key = true) (value : Derivation) : Derivation :=
  .mapping 1 (.entries ⟨⟨.ident key, 1⟩, key, .inl rfl, h⟩ 1 value .stop) 1

/-- The one value of the mapping is no offence. -/
theorem firstOffence_entry (key : String) (v : Scalar) :
    firstOffence [] (nodes (.mapping 1 [(⟨key, 1⟩, Tree.scalarLiteral v)])) = none := by
  rcases Tree.scalarLiteral_cases v with h | ⟨n, -, h⟩
  · rw [h]
    rfl
  · have hn : (n : Int) ≠ Number.minInt := by
      rw [Number.minInt]
      omega
    simp [h, nodes, outline, outlineEntries, firstLine, firstOffence, offence, badNegation?,
      badOperand?, hn]

/-- **A scalar under a key is read back.** -/
theorem parse_entryText (hkey : Token.WellFormed (.ident key)) {v : Scalar}
    (hv : (Tree.scalar v).Portable) :
    ∃ doc, (parse (String.ofList (entryText key (Tree.jsonScalar v).toList))).result = .ok doc ∧
      doc.tree = .mapping [(key, .scalar v)] := by
  have htokens := tokenize_entryText hkey hv
  obtain ⟨d, hd, hliteral, hdepth⟩ := Tree.exists_scalarDerivation v
  have hlimit : (entryDerivation key (isKey_of_isName hkey.1) d).depth ≤ maxDepth := by
    have hscalar : Tree.scalarDepth v ≤ 2 := by
      rw [Tree.scalarDepth.eq_def]
      split
      · split <;> omega
      · omega
    simp only [entryDerivation, Derivation.depth, MappingBody.depth, MoreEntries.depth, maxDepth]
    omega
  have hl : ofTokens maxDepth (⟨.lbrace, 1⟩ :: ⟨.ident key, 1⟩ :: ⟨.colon, 1⟩ ::
      (Tree.scalarTokens v ++ [⟨.rbrace, 1⟩, ⟨.eof, 1⟩])) =
      .ok (.mapping 1 [(⟨key, 1⟩, Tree.scalarLiteral v)]) := by
    have hrun := Derivation.ofTokens_run (rfl : (⟨.eof, 1⟩ : Token).kind = .eof) _ hlimit
    simpa [entryDerivation, Derivation.tokens, MappingBody.tokens, MoreEntries.tokens,
      Derivation.literal, MappingBody.entryList, MoreEntries.entryList, KeyToken.key, hd, hliteral]
      using hrun
  obtain ⟨-, -, -, -, -, hlex⟩ := exists_lexical_derivation htokens hl
  rcases resolve_cases hlex with ⟨doc, s, hdoc, -, -, -, hmirrors⟩ | ⟨e, -, he⟩
  · refine ⟨doc, result_parse_eq_ok_iff.mpr ⟨_, _, htokens, hl, hdoc⟩, ?_⟩
    exact Tree.eq_of_mirrors (.mapping [(key, .scalar v)]) hmirrors
  · rw [firstOffence_entry] at he
    cases he

/-- **A numeral that is out of range is refused**, also behind a minus. -/
theorem parse_entryText_of_lt (hkey : Token.WellFormed (.ident key)) {m : Nat}
    (hm : Number.maxInt < m) :
    (parse (String.ofList (entryText key ('-' :: Number.digits m)))).result =
      .error (.badSyntax (some 1) (.numberRange (Number.showNat m))) := by
  have hrun := Number.isRun_digits m
  have hoffends : Token.Offends (.numberRange (Number.showNat m)) (Number.digits m ++ ['}']) := by
    refine .range hrun.1 hrun.2 ?_ ?_
    · exact (Token.delimited_of_punctuation? rfl []).stops (.int m)
    · rw [Number.ofDigits_eq_positional, Number.positional_digits]
      exact hm
  have hspells : Token.Spells (.ident key) key.toList :=
    Token.spells_render hkey ⟨'"', false, .inl rfl⟩
  have hproper : (Token.Reading.mk [⟨[], ['{'], .lbrace⟩, ⟨[], key.toList, .ident key⟩,
      ⟨[], [':'], .colon⟩, ⟨[' '], ['-'], .minus⟩] [] (Number.digits m ++ ['}'])
      (some (.numberRange (Number.showNat m)))).Proper := by
    refine ⟨⟨.nil, .mark rfl, trivial, .nil, hspells, ?_, .nil, .mark rfl, trivial,
      .blank (by decide) .nil, .mark rfl, trivial, trivial⟩, .nil, hoffends⟩
    exact Token.delimited_of_punctuation? (c := ':') rfl _
  have hline : key.toList.count '\n' = 0 :=
    List.count_eq_zero.mpr (not_mem_of_isName (by decide +kernel) hkey.1)
  have htokens := @Token.tokenize_eq_answer (String.ofList (entryText key ('-' :: Number.digits m)))
    _ hproper (by simp [Token.Reading.chars, Token.spread, entryText])
  rw [result_parse, htokens]
  simp [Token.Reading.answer, Token.Reading.lastLine, Token.spread, hline]
  rfl

end Entry

/-- **Integers survive exactly.** All integers of a document lie in the range of 64 bits that is
symmetric around zero, and a literal under minuses has the value that the signs give it. No text
fails because an integer cannot be negated. An integer of 64 bits that is substituted for a
placeholder is read back as itself, except for the smallest one, with which the text is refused. -/
theorem parse_integers :
    (∀ (text : String) (doc : Document), (parse text).result = .ok doc →
      (doc.tree.Everywhere fun t => ∀ n, t = .scalar (.int n) →
        -(2 ^ 63 - 1) ≤ n ∧ n ≤ 2 ^ 63 - 1) ∧
      ∃ (d : Derivation) (last : Token), Token.tokenize text = .ok (d.tokens ++ [last]) ∧
        last.kind = .eof ∧ ∀ n ∈ d.literal.nodes, ∀ m k, Minuses m k n.literal →
          doc.tree.at? n.steps = some (.scalar (.int ((-1) ^ m * k)))) ∧
    (∀ (text : String) (line : LineRef) (n : Int),
      (parse text).result ≠ .error (.badSyntax line (.cannotNegate n))) ∧
    ∀ (key name : String) (placeholders : Placeholders) (n : Int),
      Token.WellFormed (.ident key) → Source.IsName name.toList → -2 ^ 63 ≤ n → n < 2 ^ 63 →
      Ordered.get? name placeholders = some (.int n) →
      ∃ text, Source.substitute placeholders ("\x7b" ++ key ++ ": @@" ++ name ++ "@@\x7d")
          = .ok text ∧
        (n ≠ -2 ^ 63 → ∃ doc, (parse text).result = .ok doc ∧
          doc.tree = .mapping [(key, .scalar (.int n))]) ∧
        (n = -2 ^ 63 → (parse text).result =
          .error (.badSyntax (some 1) (.numberRange (Number.showNat (2 ^ 63))))) := by
  refine ⟨?_, ?_, ?_⟩
  · intro text doc h
    obtain ⟨tokens, l, htokens, hl, hdoc⟩ := result_parse_eq_ok_iff.mp h
    have hsymmetric := symmetric_of_ofTokens htokens hl
    obtain ⟨d, last, rfl, hlast, rfl, hlex⟩ := exists_lexical_derivation htokens hl
    refine ⟨?_, d, last, htokens, hlast, fun n hn m k => at?_of_minuses hlex hdoc hn⟩
    refine (everywhere_ranged_of_resolve hsymmetric hdoc).imp fun t ht n hn => ?_
    exact ht (.int n) hn
  · intro text line n h
    exact not_overflows_parse h ⟨line, n, rfl⟩
  · intro key name placeholders n hkey hname hlo hhi hvalue
    refine ⟨_, substitute_entry hkey.1 hname hvalue, fun hne => ?_, ?_⟩
    · have htext : (Placeholder.Value.int n).text = Tree.jsonScalar (.int n) := rfl
      have hportable : (Tree.scalar (.int n)).Portable :=
        ⟨Int.lt_iff_le_and_ne.mpr ⟨hlo, hne.symm⟩, hhi⟩
      rw [htext]
      exact parse_entryText hkey hportable
    · rintro rfl
      have hdigits : (Number.showInt (-2 ^ 63)).toList = '-' :: Number.digits (2 ^ 63) :=
        Number.toList_showInt_neg (by decide : 0 < 2 ^ 63)
      rw [Placeholder.Value.text, hdigits]
      exact parse_entryText_of_lt hkey (by decide)

/-- Two minuses in front of the largest integer. -/
def doubledMinus : Derivation :=
  .negation 1 (.negation 1 (.constant 1 (.int 9223372036854775807)))

/-- The least integer that can be read, and the one below it. -/
def edgePlaceholders : Placeholders :=
  [("LOW", .int (-2 ^ 63 + 1)), ("OUT", .int (-2 ^ 63))]

/-- Two minuses cancel out. The least integer that can be read is read from a placeholder, and the
integer below it is refused. -/
theorem parse_integers_edges :
    (∃ doc, (parse "--9223372036854775807").result = .ok doc ∧
      doc.tree.at? [] = some (.scalar (.int ((-1) ^ 2 * 9223372036854775807)))) ∧
    (parse "--9223372036854775807").result ≠ .error (.badSyntax (some 1) (.cannotNegate 7)) ∧
    (∃ text doc, Source.substitute edgePlaceholders "\x7bn: @@LOW@@\x7d" = .ok text ∧
      (parse text).result = .ok doc ∧ doc.tree = .mapping [("n", .scalar (.int (-2 ^ 63 + 1)))]) ∧
    ∃ text, Source.substitute edgePlaceholders "\x7bn: @@OUT@@\x7d" = .ok text ∧
      (parse text).result =
        .error (.badSyntax (some 1) (.numberRange (Number.showNat (2 ^ 63)))) := by
  have htokens : Token.tokenize "--9223372036854775807" =
      .ok (doubledMinus.tokens ++ [⟨.eof, 1⟩]) := by decide +kernel
  have hdoc : (parse "--9223372036854775807").result =
      .ok ⟨.scalar (.int 9223372036854775807), ⟨[("", 1)]⟩⟩ :=
    result_parse_eq_ok_iff.mpr ⟨_, doubledMinus.literal, htokens, by cbv, by cbv⟩
  have hkey : Token.WellFormed (.ident "n") := by
    have hchars : "n".toList = ['n'] := by decide
    refine ⟨?_, by decide⟩
    rw [hchars]
    exact Token.isName_cons_iff.mpr ⟨by decide, List.forall_mem_nil _⟩
  obtain ⟨hparsed, hnever, hsubstituted⟩ := parse_integers
  refine ⟨⟨_, hdoc, ?_⟩, hnever _ _ _, ?_, ?_⟩
  · obtain ⟨-, d, last, hd, -, hminuses⟩ := hparsed _ _ hdoc
    have htokens' : doubledMinus.tokens ++ [⟨.eof, 1⟩] = d.tokens ++ [last] :=
      Except.ok.inj (htokens.symm.trans hd)
    obtain rfl := Derivation.eq_of_tokens_eq (List.append_inj_left' htokens' rfl)
    exact hminuses ⟨[], 1, none, doubledMinus.literal⟩ List.mem_cons_self 2 _
      (.minus _ (.minus _ (.bare _ _)))
  · obtain ⟨text, htext, hread, -⟩ := hsubstituted "n" "LOW" edgePlaceholders (-2 ^ 63 + 1) hkey
      (by decide) (by decide) (by decide) rfl
    obtain ⟨doc, hdoc, htree⟩ := hread (by decide)
    exact ⟨text, doc, htext, hdoc, htree⟩
  · obtain ⟨text, htext, -, hrefused⟩ := hsubstituted "n" "OUT" edgePlaceholders (-2 ^ 63) hkey
      (by decide) (by decide) (by decide) rfl
    exact ⟨text, htext, hrefused rfl⟩

end SiteConf.Document
