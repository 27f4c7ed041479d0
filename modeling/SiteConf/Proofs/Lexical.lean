import SiteConf.Proofs.DescentRules
import SiteConf.Proofs.Outline
import SiteConf.Proofs.RenderedTokens

set_option autoImplicit false

/-! # Literals that come from tokens

The grammar takes as keys only segments of paths, and its integers from the tokens
(`ofTokens_lexicalIn`). The lexer puts one `eof` at the end of a token list and gives no integer a
sign or more than 64 bits. So the literal of a text is lexical in all its parts
(`exists_lexical_derivation`). -/

namespace SiteConf.Token

/-! ## The shape of a token list -/

/-- What a token before the end of a text can be. -/
def Inner (kind : TokenKind) : Prop :=
  kind ≠ .eof ∧ ∀ n, kind = .int n → 0 ≤ n ∧ n ≤ Number.maxInt

theorem WellFormed.inner {kind : TokenKind} (h : WellFormed kind) : Inner kind := by
  constructor
  · rintro rfl
    exact h
  · rintro n rfl
    exact ⟨h.1, Int.le_of_lt_add_one h.2⟩

/-- A token list has one `eof`, and that is its last token. -/
theorem tokenize_eq_ok {text : String} {tokens : List Token} (h : tokenize text = .ok tokens) :
    ∃ (ts : List Token) (last : Token), tokens = ts ++ [last] ∧ last.kind = .eof ∧
      ∀ t ∈ ts, Inner t.kind := by
  obtain ⟨ts, last, htokens, hlast, hts⟩ := exists_wellFormed_of_tokenize h
  exact ⟨ts, last, htokens, hlast, fun t ht => (hts t ht).inner⟩

/-- The integers of a text lie in the range of 64 bits that is symmetric around zero. -/
theorem symmetric_of_tokenize {text : String} {tokens : List Token}
    (h : tokenize text = .ok tokens) {t : Token} (ht : t ∈ tokens) {n : Int}
    (hn : t.kind = .int n) : -Number.maxInt ≤ n ∧ n ≤ Number.maxInt := by
  obtain ⟨ts, last, rfl, hlast, hts⟩ := tokenize_eq_ok h
  rcases List.mem_append.mp ht with ht | ht
  · obtain ⟨hlo, hhi⟩ := (hts t ht).2 n hn
    have hmax : 0 ≤ Number.maxInt := by decide
    exact ⟨by omega, hhi⟩
  · rw [List.mem_singleton.mp ht, hlast] at hn
    cases hn

theorem fits_of_tokenize {text : String} {tokens : List Token} (h : tokenize text = .ok tokens) :
    ∀ t ∈ tokens, ∀ n, t.kind = .int n → Number.fits n = true := by
  intro t ht n hn
  obtain ⟨hlo, hhi⟩ := symmetric_of_tokenize h ht hn
  rw [Number.maxInt] at hlo
  refine Number.fits_iff.mpr ⟨?_, hhi⟩
  rw [Number.minInt]
  omega

end SiteConf.Token

namespace SiteConf.Literal

/-! ## Lexical literals -/

theorem grows_lexicalIn {P : Int → Prop} :
    Grows (fun t => ∀ n, t.kind = .int n → P n) (fun k => isKey k.name = true)
      (Everywhere (LexicalIn P)) where
  key _ _ hname := hname
  mapping _ _ hes :=
    ⟨fun e he => (hes e he).1, everywhereInEntries_of_forall fun e he => (hes e he).2⟩
  sequence _ _ hvs := ⟨trivial, everywhereInItems_of_forall hvs⟩
  constant value ht hkind := by
    rw [Everywhere]
    cases value with
    | int n => exact ht n hkind
    | str s | bool b => trivial
  negate _ _ hv := ⟨trivial, hv⟩
  reference _ _ _ := trivial

/-- **The literal of a token list** has proper keys, and its integers are those of the tokens. -/
theorem ofTokens_lexicalIn {P : Int → Prop} {limit : Nat} {tokens : List Token} {l : Literal}
    (htokens : ∀ t ∈ tokens, ∀ n, t.kind = .int n → P n) (hl : ofTokens limit tokens = .ok l) :
    Everywhere (LexicalIn P) l := by
  rcases tokens with _ | ⟨t, ts⟩
  · -- the empty list is read as the end of input
    have heof : ∀ t ∈ [(⟨.eof, 1⟩ : Token)], ∀ n, t.kind = .int n → P n := by
      rintro t ht n hn
      rw [List.mem_singleton.mp ht] at hn
      cases hn
    exact (ofTokens_keeps grows_lexicalIn limit (List.cons_ne_nil _ _) heof).1 l hl
  · exact (ofTokens_keeps grows_lexicalIn limit (List.cons_ne_nil _ _) htokens).1 l hl

/-- The literal of a text is the literal of a derivation of its tokens, and lexical. -/
theorem exists_lexical_derivation {text : String} {tokens : List Token} {limit : Nat} {l : Literal}
    (htokens : Token.tokenize text = .ok tokens) (hl : ofTokens limit tokens = .ok l) :
    ∃ (d : Derivation) (last : Token), tokens = d.tokens ++ [last] ∧ last.kind = .eof ∧
      d.literal = l ∧ Everywhere Lexical l := by
  have hlexical := ofTokens_lexicalIn (Token.fits_of_tokenize htokens) hl
  obtain ⟨ts, last, rfl, hlast, hts⟩ := Token.tokenize_eq_ok htokens
  obtain ⟨d, rfl, -, rfl⟩ := exists_derivation_of_ofTokens hlast (fun t ht => (hts t ht).1) hl
  exact ⟨d, last, rfl, hlast, rfl, hlexical⟩

end SiteConf.Literal
