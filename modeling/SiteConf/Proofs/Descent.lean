import SiteConf.Proofs.Derivation
import SiteConf.Proofs.Step

set_option autoImplicit false

/-! # The recursive descent reads derivations

The descent of `Literal.Grammar` against the derivations of the grammar, in both directions: what
a run takes from the token list is the token list of a derivation of bounded depth
(`value_sound`), and a derivation of bounded depth is read from any token list that starts with
its tokens (`Derivation.value_run`).

`Descent.on ts last depth` is the state with the tokens `ts` before it and `last` at the end of
the list. Where `last` is an end of input no token can be read there, so a run that returns has
not moved past it.
-/

namespace SiteConf.Literal

/-! ## States -/

/-- The state before the tokens `ts` and a last token. -/
def Descent.on (ts : List Token) (last : Token) (depth : Nat) : Descent :=
  match ts with
  | [] => ⟨last, [], depth⟩
  | t :: ts => ⟨t, ts ++ [last], depth⟩

theorem Descent.on_next_cons (t : Token) (ts : List Token) (last : Token) (depth : Nat) :
    (Descent.on (t :: ts) last depth).next = Descent.on ts last depth := by
  cases ts <;> rfl

theorem Descent.on_with_depth (ts : List Token) (last : Token) (depth depth' : Nat) :
    { Descent.on ts last depth with depth := depth' } = Descent.on ts last depth' := by
  cases ts <;> rfl

theorem Descent.on_depth (ts : List Token) (last : Token) (depth : Nat) :
    (Descent.on ts last depth).depth = depth := by
  cases ts <;> rfl

theorem Descent.on_rest_length (ts : List Token) (last : Token) (depth : Nat) :
    (Descent.on ts last depth).rest.length = ts.length := by
  cases ts with
  | nil => rfl
  | cons t ts =>
      show (ts ++ [last]).length = _
      rw [List.length_append, List.length_singleton, List.length_cons]

/-! ## Single tokens -/

section

variable {last : Token} {depth : Nat}

theorem run_peek_cons (t : Token) (ts : List Token) :
    Step.run peek (.on (t :: ts) last depth) = (.ok t, .on (t :: ts) last depth) := rfl

theorem run_advance_cons (t : Token) (ts : List Token) :
    Step.run advance (.on (t :: ts) last depth) = (.ok t, .on ts last depth) := by
  show (Except.ok t, (Descent.on (t :: ts) last depth).next) = _
  rw [Descent.on_next_cons]

theorem run_advance_nil : Step.run advance (.on [] last depth) = (.ok last, .on [] last depth) :=
  rfl

theorem run_eat_cons (kind : TokenKind) (line : Nat) (ts : List Token) :
    Step.run (eat kind) (.on (⟨kind, line⟩ :: ts) last depth) = (.ok true, .on ts last depth) := by
  show (if kind = kind then
    (Except.ok true, (Descent.on (⟨kind, line⟩ :: ts) last depth).next) else _) = _
  rw [if_pos rfl, Descent.on_next_cons]

theorem run_eat_of_ne {t : Token} {kind : TokenKind} (ts : List Token) (h : t.kind ≠ kind) :
    Step.run (eat kind) (.on (t :: ts) last depth) = (.ok false, .on (t :: ts) last depth) := by
  show (if t.kind = kind then _ else (Except.ok false, Descent.on (t :: ts) last depth)) = _
  rw [if_neg h]

theorem run_eat_nil {kind : TokenKind} (h : last.kind ≠ kind) :
    Step.run (eat kind) (.on [] last depth) = (.ok false, .on [] last depth) := by
  show (if last.kind = kind then _ else (Except.ok false, Descent.on [] last depth)) = _
  rw [if_neg h]

theorem run_expect_cons {kind : TokenKind} {issue : TokenKind → SyntaxIssue} (line : Nat)
    (ts : List Token) :
    Step.run (expect kind issue) (.on (⟨kind, line⟩ :: ts) last depth)
      = (.ok (), .on ts last depth) := by
  rw [expect, Step.run_bind_of_ok (run_advance_cons _ _), if_pos rfl, Step.run_pure]

theorem run_key_cons (k : KeyToken) (ts : List Token) :
    Step.run key (.on (k.token :: ts) last depth) = (.ok k.key, .on ts last depth) := by
  rw [key, Step.run_bind_of_ok (run_advance_cons _ _)]
  rcases k.spelled with h | h
  · rw [h]
    simp only [k.proper, if_true]
    rfl
  · rw [h]
    simp only [k.proper, if_true]
    rfl

theorem run_budget (ts : List Token) :
    Step.run budget (.on ts last depth) = (.ok (ts.length + 2), .on ts last depth) := by
  show (Except.ok ((Descent.on ts last depth).rest.length + 2), _) = _
  rw [Descent.on_rest_length]

/-! What a successful run of each of these has taken; `hlast` keeps it off the last token. -/

theorem eat_true (hlast : last.kind = .eof) {kind : TokenKind} (hk : kind ≠ .eof)
    {ts : List Token} {s : Descent}
    (h : Step.run (eat kind) (.on ts last depth) = (.ok true, s)) :
    ∃ line ts', ts = ⟨kind, line⟩ :: ts' ∧ s = .on ts' last depth := by
  cases ts with
  | nil =>
      rw [run_eat_nil (by rw [hlast]; exact hk.symm)] at h
      cases h
  | cons t ts =>
      by_cases ht : t.kind = kind
      · subst ht
        rw [run_eat_cons] at h
        cases h
        exact ⟨t.line, ts, rfl, rfl⟩
      · rw [run_eat_of_ne ts ht] at h
        cases h

theorem eat_false {kind : TokenKind} {ts : List Token} {s : Descent}
    (h : Step.run (eat kind) (.on ts last depth) = (.ok false, s)) : s = .on ts last depth := by
  have hrun : Step.run (eat kind) (.on ts last depth)
      = if (Descent.on ts last depth).head.kind = kind
        then (.ok true, (Descent.on ts last depth).next)
        else (.ok false, .on ts last depth) := rfl
  rw [hrun] at h
  split at h
  · cases h
  · cases h
    rfl

theorem advance_ok {ts : List Token} {t : Token} {s : Descent} (hlast : last.kind = .eof)
    (h : Step.run advance (.on ts last depth) = (.ok t, s)) (ht : t.kind ≠ .eof) :
    ∃ ts', ts = t :: ts' ∧ s = .on ts' last depth := by
  cases ts with
  | nil =>
      rw [run_advance_nil] at h
      cases h
      exact absurd hlast ht
  | cons u ts =>
      rw [run_advance_cons] at h
      cases h
      exact ⟨ts, rfl, rfl⟩

theorem expect_ok (hlast : last.kind = .eof) {kind : TokenKind} (hk : kind ≠ .eof)
    {issue : TokenKind → SyntaxIssue} {ts : List Token} {s : Descent} {u : Unit}
    (h : Step.run (expect kind issue) (.on ts last depth) = (.ok u, s)) :
    ∃ line ts', ts = ⟨kind, line⟩ :: ts' ∧ s = .on ts' last depth := by
  obtain ⟨t, s₁, hadv, hrest⟩ := Step.run_bind_eq_ok_iff.mp h
  by_cases ht : t.kind = kind
  · rw [if_pos ht, Step.run_pure] at hrest
    cases hrest
    obtain ⟨ts', hts, hs⟩ := advance_ok hlast hadv (by rw [ht]; exact hk)
    exact ⟨t.line, ts', by rw [hts, ← ht], hs⟩
  · rw [if_neg ht] at hrest
    cases hrest

theorem key_ok (hlast : last.kind = .eof) {ts : List Token} {k : Key} {s : Descent}
    (h : Step.run key (.on ts last depth) = (.ok k, s)) :
    ∃ (kt : KeyToken) (ts' : List Token),
      ts = kt.token :: ts' ∧ kt.key = k ∧ s = .on ts' last depth := by
  obtain ⟨t, s₁, hadv, hrest⟩ := Step.run_bind_eq_ok_iff.mp h
  -- both spellings of a key end the same way
  have hname : ∀ name, (t.kind = .ident name ∨ t.kind = .str name) →
      Step.run (if isKey name = true then pure ⟨name, t.line⟩ else refuse t (.keyForm name)) s₁
        = (.ok k, s) →
      ∃ (kt : KeyToken) (ts' : List Token),
        ts = kt.token :: ts' ∧ kt.key = k ∧ s = .on ts' last depth := by
    intro name hkind hrun
    have hne : t.kind ≠ .eof := by
      rcases hkind with hkind | hkind <;> rw [hkind] <;> simp
    obtain ⟨ts', hts, hs⟩ := advance_ok hlast hadv hne
    by_cases hp : isKey name = true
    · rw [if_pos hp, Step.run_pure] at hrun
      cases hrun
      exact ⟨⟨t, name, hkind, hp⟩, ts', hts, rfl, hs⟩
    · rw [if_neg hp] at hrun
      cases hrun
  cases hkind : t.kind with
  | ident name => rw [hkind] at hrest; exact hname name (.inl hkind) hrest
  | str name => rw [hkind] at hrest; exact hname name (.inr hkind) hrest
  | _ => rw [hkind] at hrest; cases hrest

end

/-! ## What a run has read -/

/-- Every value that `x` returns at a depth is denoted by a derivation of the tokens it takes,
and the derivation nests no deeper than the limit leaves room for. -/
def ReadsValues (limit : Nat) (last : Token) (x : Descend Literal) (depth : Nat) : Prop :=
  ∀ (ts : List Token) (l : Literal) (s : Descent),
    Step.run x (.on ts last depth) = (.ok l, s) →
    ∃ (d : Derivation) (ts' : List Token),
      ts = d.tokens ++ ts' ∧ d.literal = l ∧ d.depth ≤ limit - depth ∧ s = .on ts' last depth

/-- What follows a comma in a mapping is the body of a mapping, or nothing before the brace. -/
def MappingBody.afterComma (line : Nat) : MappingBody → MoreEntries
  | .empty => .comma line
  | .entries key colon value more => .entry line key colon value more

theorem MappingBody.afterComma_tokens (line : Nat) (b : MappingBody) :
    (b.afterComma line).tokens = ⟨.comma, line⟩ :: b.tokens := by
  cases b <;> rfl

theorem MappingBody.afterComma_entryList (line : Nat) (b : MappingBody) :
    (b.afterComma line).entryList = b.entryList := by
  cases b <;> rfl

theorem MappingBody.afterComma_depth (line : Nat) (b : MappingBody) :
    (b.afterComma line).depth = b.depth := by
  cases b <;> rfl

/-- What follows a comma in a sequence is the body of a sequence, or nothing before the bracket. -/
def SequenceBody.afterComma (line : Nat) : SequenceBody → MoreItems
  | .empty => .comma line
  | .items value more => .item line value more

theorem SequenceBody.afterComma_tokens (line : Nat) (b : SequenceBody) :
    (b.afterComma line).tokens = ⟨.comma, line⟩ :: b.tokens := by
  cases b <;> rfl

theorem SequenceBody.afterComma_itemList (line : Nat) (b : SequenceBody) :
    (b.afterComma line).itemList = b.itemList := by
  cases b <;> rfl

theorem SequenceBody.afterComma_depth (line : Nat) (b : SequenceBody) :
    (b.afterComma line).depth = b.depth := by
  cases b <;> rfl

section

variable {limit : Nat} {last : Token} {x : Descend Literal} {depth : Nat}

/-- The loop over the entries of a mapping reads the body of a mapping and its closing brace. -/
theorem entries_sound (hlast : last.kind = .eof) (hx : ReadsValues limit last x depth) :
    ∀ (fuel : Nat) (ts : List Token) (es : List (Key × Literal)) (s : Descent),
      Step.run (entries x fuel) (.on ts last depth) = (.ok es, s) →
      ∃ (b : MappingBody) (right : Nat) (ts' : List Token),
        ts = b.tokens ++ ⟨.rbrace, right⟩ :: ts' ∧ b.entryList = es ∧
        b.depth ≤ limit - depth ∧ s = .on ts' last depth := by
  intro fuel
  induction fuel with
  | zero =>
      intro ts es s h
      obtain ⟨t, s₁, -, h⟩ := Step.run_bind_eq_ok_iff.mp h
      cases h
  | succ fuel ih =>
      intro ts es s h
      obtain ⟨closed, s₁, heat, h⟩ := Step.run_bind_eq_ok_iff.mp h
      cases closed with
      | true =>
          rw [if_pos rfl, Step.run_pure] at h
          cases h
          obtain ⟨right, ts', hts, hs⟩ := eat_true hlast (by simp) heat
          exact ⟨.empty, right, ts', hts, rfl, Nat.zero_le _, hs⟩
      | false =>
          rw [if_neg (by simp)] at h
          obtain rfl := eat_false heat
          obtain ⟨k, s₂, hkey, h⟩ := Step.run_bind_eq_ok_iff.mp h
          obtain ⟨kt, ts₂, rfl, rfl, rfl⟩ := key_ok hlast hkey
          obtain ⟨u, s₃, hcolon, h⟩ := Step.run_bind_eq_ok_iff.mp h
          obtain ⟨colon, ts₃, rfl, rfl⟩ := expect_ok hlast (by simp) hcolon
          obtain ⟨v, s₄, hvalue, h⟩ := Step.run_bind_eq_ok_iff.mp h
          obtain ⟨d, ts₄, rfl, rfl, hd, rfl⟩ := hx _ _ _ hvalue
          obtain ⟨more, s₅, hcomma, h⟩ := Step.run_bind_eq_ok_iff.mp h
          cases more with
          | true =>
              rw [if_pos rfl] at h
              obtain ⟨comma, ts₅, rfl, rfl⟩ := eat_true hlast (by simp) hcomma
              obtain ⟨es', s₆, hrec, h⟩ := Step.run_bind_eq_ok_iff.mp h
              rw [Step.run_pure] at h
              cases h
              obtain ⟨b, right, ts₆, rfl, rfl, hb, rfl⟩ := ih _ _ _ hrec
              refine ⟨.entries kt colon d (b.afterComma comma), right, ts₆, ?_, ?_, ?_, rfl⟩
              · simp [MappingBody.tokens, MappingBody.afterComma_tokens]
              · rw [MappingBody.entryList, MappingBody.afterComma_entryList]
              · rw [MappingBody.depth, MappingBody.afterComma_depth]
                exact max_le hd hb
          | false =>
              rw [if_neg (by simp)] at h
              obtain rfl := eat_false hcomma
              obtain ⟨u, s₆, hclose, h⟩ := Step.run_bind_eq_ok_iff.mp h
              obtain ⟨right, ts₅, rfl, rfl⟩ := expect_ok hlast (by simp) hclose
              rw [Step.run_pure] at h
              cases h
              refine ⟨.entries kt colon d .stop, right, ts₅, ?_, rfl, ?_, rfl⟩
              · simp [MappingBody.tokens, MoreEntries.tokens]
              · exact max_le hd (Nat.zero_le _)

/-- The loop over the items of a sequence reads the body of a sequence and its closing
bracket. -/
theorem items_sound (hlast : last.kind = .eof) (hx : ReadsValues limit last x depth) :
    ∀ (fuel : Nat) (ts : List Token) (vs : List Literal) (s : Descent),
      Step.run (items x fuel) (.on ts last depth) = (.ok vs, s) →
      ∃ (b : SequenceBody) (right : Nat) (ts' : List Token),
        ts = b.tokens ++ ⟨.rbracket, right⟩ :: ts' ∧ b.itemList = vs ∧
        b.depth ≤ limit - depth ∧ s = .on ts' last depth := by
  intro fuel
  induction fuel with
  | zero =>
      intro ts vs s h
      obtain ⟨t, s₁, -, h⟩ := Step.run_bind_eq_ok_iff.mp h
      cases h
  | succ fuel ih =>
      intro ts vs s h
      obtain ⟨closed, s₁, heat, h⟩ := Step.run_bind_eq_ok_iff.mp h
      cases closed with
      | true =>
          rw [if_pos rfl, Step.run_pure] at h
          cases h
          obtain ⟨right, ts', hts, hs⟩ := eat_true hlast (by simp) heat
          exact ⟨.empty, right, ts', hts, rfl, Nat.zero_le _, hs⟩
      | false =>
          rw [if_neg (by simp)] at h
          obtain rfl := eat_false heat
          obtain ⟨v, s₂, hvalue, h⟩ := Step.run_bind_eq_ok_iff.mp h
          obtain ⟨d, ts₂, rfl, rfl, hd, rfl⟩ := hx _ _ _ hvalue
          obtain ⟨more, s₃, hcomma, h⟩ := Step.run_bind_eq_ok_iff.mp h
          cases more with
          | true =>
              rw [if_pos rfl] at h
              obtain ⟨comma, ts₃, rfl, rfl⟩ := eat_true hlast (by simp) hcomma
              obtain ⟨vs', s₄, hrec, h⟩ := Step.run_bind_eq_ok_iff.mp h
              rw [Step.run_pure] at h
              cases h
              obtain ⟨b, right, ts₄, rfl, rfl, hb, rfl⟩ := ih _ _ _ hrec
              refine ⟨.items d (b.afterComma comma), right, ts₄, ?_, ?_, ?_, rfl⟩
              · simp [SequenceBody.tokens, SequenceBody.afterComma_tokens]
              · rw [SequenceBody.itemList, SequenceBody.afterComma_itemList]
              · rw [SequenceBody.depth, SequenceBody.afterComma_depth]
                exact max_le hd hb
          | false =>
              rw [if_neg (by simp)] at h
              obtain rfl := eat_false hcomma
              obtain ⟨u, s₄, hclose, h⟩ := Step.run_bind_eq_ok_iff.mp h
              obtain ⟨right, ts₃, rfl, rfl⟩ := expect_ok hlast (by simp) hclose
              rw [Step.run_pure] at h
              cases h
              refine ⟨.items d .stop, right, ts₃, ?_, rfl, ?_, rfl⟩
              · simp [SequenceBody.tokens, MoreItems.tokens]
              · exact max_le hd (Nat.zero_le _)

/-- The loop over the segments of a reference reads segments. -/
theorem segments_sound (hlast : last.kind = .eof) :
    ∀ (fuel : Nat) (ts : List Token) (names : List String) (s : Descent),
      Step.run (segments fuel) (.on ts last depth) = (.ok names, s) →
      ∃ (m : List Segment) (ts' : List Token),
        ts = m.flatMap Segment.tokens ++ ts' ∧ m.map Segment.text = names ∧
        s = .on ts' last depth := by
  intro fuel
  induction fuel with
  | zero =>
      intro ts names s h
      cases h
      exact ⟨[], ts, rfl, rfl, rfl⟩
  | succ fuel ih =>
      intro ts names s h
      obtain ⟨dotted, s₁, heat, h⟩ := Step.run_bind_eq_ok_iff.mp h
      cases dotted with
      | false =>
          rw [if_neg (by simp), Step.run_pure] at h
          cases h
          exact ⟨[], ts, rfl, rfl, eat_false heat⟩
      | true =>
          rw [if_pos rfl] at h
          obtain ⟨dot, ts₁, rfl, rfl⟩ := eat_true hlast (by simp) heat
          obtain ⟨t, s₂, hadv, h⟩ := Step.run_bind_eq_ok_iff.mp h
          cases hkind : t.kind with
          | ident name =>
              rw [hkind] at h
              obtain ⟨ts₂, rfl, rfl⟩ := advance_ok hlast hadv (by rw [hkind]; simp)
              obtain ⟨names', s₃, hrec, h⟩ := Step.run_bind_eq_ok_iff.mp h
              rw [Step.run_pure] at h
              cases h
              obtain ⟨m, ts₃, rfl, rfl, rfl⟩ := ih _ _ _ hrec
              refine ⟨.name dot t.line name :: m, ts₃, ?_, rfl, rfl⟩
              simp [Segment.tokens, ← hkind]
          | int index =>
              rw [hkind] at h
              obtain ⟨ts₂, rfl, rfl⟩ := advance_ok hlast hadv (by rw [hkind]; simp)
              obtain ⟨names', s₃, hrec, h⟩ := Step.run_bind_eq_ok_iff.mp h
              rw [Step.run_pure] at h
              cases h
              obtain ⟨m, ts₃, rfl, rfl, rfl⟩ := ih _ _ _ hrec
              refine ⟨.index dot t.line index :: m, ts₃, ?_, rfl, rfl⟩
              simp [Segment.tokens, ← hkind]
          | _ => rw [hkind] at h; cases h

/-- What follows a token that was just taken makes a value with it. `x` reads the values one
level further down. -/
theorem valueAt_sound (hlast : last.kind = .eof) (hx : ReadsValues limit last x (depth + 1))
    (hdepth : depth < limit) {t : Token} {ts : List Token} {l : Literal} {s : Descent}
    (h : Step.run (valueAt x t) (.on ts last (depth + 1)) = (.ok l, s)) :
    ∃ (d : Derivation) (ts' : List Token), t :: ts = d.tokens ++ ts' ∧ d.literal = l ∧
      d.depth ≤ limit - depth ∧ s = .on ts' last (depth + 1) := by
  rcases t with ⟨kind, line⟩
  cases kind with
  | lbrace =>
      obtain ⟨n, s₁, hn, h⟩ := Step.run_bind_eq_ok_iff.mp h
      rw [run_budget] at hn
      cases hn
      obtain ⟨es, s₂, hes, h⟩ := Step.run_bind_eq_ok_iff.mp h
      rw [Step.run_pure] at h
      cases h
      obtain ⟨b, right, ts', rfl, rfl, hb, rfl⟩ := entries_sound hlast hx _ _ _ _ hes
      refine ⟨.mapping line b right, ts', ?_, rfl, ?_, rfl⟩
      · simp [Derivation.tokens]
      · rw [Derivation.depth]; omega
  | lbracket =>
      obtain ⟨n, s₁, hn, h⟩ := Step.run_bind_eq_ok_iff.mp h
      rw [run_budget] at hn
      cases hn
      obtain ⟨vs, s₂, hvs, h⟩ := Step.run_bind_eq_ok_iff.mp h
      rw [Step.run_pure] at h
      cases h
      obtain ⟨b, right, ts', rfl, rfl, hb, rfl⟩ := items_sound hlast hx _ _ _ _ hvs
      refine ⟨.sequence line b right, ts', ?_, rfl, ?_, rfl⟩
      · simp [Derivation.tokens]
      · rw [Derivation.depth]; omega
  | str text =>
      cases h
      exact ⟨.constant line (.str text), ts, rfl, rfl, by rw [Derivation.depth]; omega, rfl⟩
  | int n =>
      cases h
      exact ⟨.constant line (.int n), ts, rfl, rfl, by rw [Derivation.depth]; omega, rfl⟩
  | bool b =>
      cases h
      exact ⟨.constant line (.bool b), ts, rfl, rfl, by rw [Derivation.depth]; omega, rfl⟩
  | minus =>
      obtain ⟨v, s₁, hv, h⟩ := Step.run_bind_eq_ok_iff.mp h
      rw [Step.run_pure] at h
      cases h
      obtain ⟨d, ts', rfl, rfl, hd, rfl⟩ := hx _ _ _ hv
      exact ⟨.negation line d, ts', rfl, rfl, by rw [Derivation.depth]; omega, rfl⟩
  | ident first =>
      obtain ⟨n, s₁, hn, h⟩ := Step.run_bind_eq_ok_iff.mp h
      rw [run_budget] at hn
      cases hn
      obtain ⟨names, s₂, hnames, h⟩ := Step.run_bind_eq_ok_iff.mp h
      rw [Step.run_pure] at h
      cases h
      obtain ⟨m, ts', rfl, rfl, rfl⟩ := segments_sound hlast _ _ _ _ hnames
      exact ⟨.reference line first m, ts', rfl, rfl, by rw [Derivation.depth]; omega, rfl⟩
  | _ => cases h

end

/-! ## Reading a value -/

theorem run_nested_on {α : Type} (x : Descend α) (ts : List Token) (last : Token) (depth : Nat) :
    Step.run (nested x) (.on ts last depth)
      = ((Step.run x (.on ts last (depth + 1))).1,
          { (Step.run x (.on ts last (depth + 1))).2 with
            depth := (Step.run x (.on ts last (depth + 1))).2.depth - 1 }) := by
  rw [nested, Step.run_of, Descent.on_depth, Descent.on_with_depth]

/-- A value is read one level further down, unless the limit is reached. -/
theorem run_value_of_advance {s : Descent} {t : Token} {ts : List Token} {last : Token}
    {depth : Nat} (limit fuel : Nat) (h : Step.run advance s = (.ok t, .on ts last depth)) :
    Step.run (value limit (fuel + 1)) s
      = if limit ≤ depth then
          (.error (.badSyntax (some t.line) (.tooDeep limit)), .on ts last depth)
        else Step.run (nested (valueAt (value limit fuel) t)) (.on ts last depth) := by
  rw [value, Step.run_bind_of_ok h]
  have hdepth : Step.run (Step.of fun s => (.ok s.depth, s)) (Descent.on ts last depth)
      = ((.ok depth, .on ts last depth) : Except Error Nat × Descent) := by
    rw [Step.run_of, Descent.on_depth]
  rw [Step.run_bind_of_ok hdepth]
  split <;> rfl

theorem run_value_cons (limit fuel depth : Nat) (t : Token) (ts : List Token) (last : Token)
    (h : depth < limit) :
    Step.run (value limit (fuel + 1)) (.on (t :: ts) last depth)
      = Step.run (nested (valueAt (value limit fuel) t)) (.on ts last depth) := by
  rw [run_value_of_advance limit fuel (run_advance_cons t ts), if_neg (by omega)]

/-- There is no value at the end of the input. -/
theorem run_value_nil_ne_ok {last : Token} (hlast : last.kind = .eof) (limit fuel depth : Nat)
    (l : Literal) (s : Descent) :
    Step.run (value limit fuel) (.on [] last depth) ≠ (.ok l, s) := by
  intro h
  cases fuel with
  | zero => cases h
  | succ fuel =>
      rw [run_value_of_advance limit fuel run_advance_nil] at h
      have hrefuse : valueAt (value limit fuel) last = refuse last (.expectedValue .eof) := by
        rw [valueAt, hlast]
      rw [hrefuse] at h
      split at h <;> cases h

/-- **Soundness of the descent**: a value that is read is denoted by a derivation of the tokens
taken, within the depth limit. -/
theorem value_sound {last : Token} (hlast : last.kind = .eof) (limit : Nat) :
    ∀ fuel depth : Nat, ReadsValues limit last (value limit fuel) depth := by
  intro fuel
  induction fuel with
  | zero =>
      intro depth ts l s h
      cases h
  | succ fuel ih =>
      intro depth ts l s h
      cases ts with
      | nil => exact absurd h (run_value_nil_ne_ok hlast limit (fuel + 1) depth l s)
      | cons t ts =>
          by_cases hdepth : depth < limit
          · rw [run_value_cons limit fuel depth t ts last hdepth, run_nested_on] at h
            rcases hrun : Step.run (valueAt (value limit fuel) t) (.on ts last (depth + 1))
              with ⟨r, s₁⟩
            rw [hrun] at h
            cases h
            obtain ⟨d, ts', hts, hl, hd, rfl⟩ := valueAt_sound hlast (ih (depth + 1)) hdepth hrun
            refine ⟨d, ts', hts, hl, hd, ?_⟩
            rw [Descent.on_depth, Descent.on_with_depth, Nat.add_sub_cancel]
          · rw [run_value_of_advance limit fuel (run_advance_cons t ts), if_pos (by omega)] at h
            cases h

/-! ## Derivations are read -/

/-- The rest of the loop over entries once the entry `(k, v)` is read. -/
def afterEntry (x : Descend Literal) (fuel : Nat) (k : Key) (v : Literal) :
    Descend (List (Key × Literal)) := do
  if ← eat .comma then
    return (k, v) :: (← entries x fuel)
  expect .rbrace .unclosedMapping
  return [(k, v)]

theorem entries_succ (x : Descend Literal) (fuel : Nat) :
    entries x (fuel + 1) = (do
      if ← eat .rbrace then
        return []
      let k ← key
      expect .colon (.expectedColon k.name)
      let v ← x
      afterEntry x fuel k v) := rfl

/-- The rest of the loop over items once the item `v` is read. -/
def afterItem (x : Descend Literal) (fuel : Nat) (v : Literal) : Descend (List Literal) := do
  if ← eat .comma then
    return v :: (← items x fuel)
  expect .rbracket .unclosedSequence
  return [v]

theorem items_succ (x : Descend Literal) (fuel : Nat) :
    items x (fuel + 1) = (do
      if ← eat .rbracket then
        return []
      let v ← x
      afterItem x fuel v) := rfl

section

variable {last : Token} {depth : Nat} {x : Descend Literal}

theorem run_entries_closed (fuel right : Nat) (ts : List Token) :
    Step.run (entries x (fuel + 1)) (.on (⟨.rbrace, right⟩ :: ts) last depth)
      = (.ok [], .on ts last depth) := by
  rw [entries_succ, Step.run_bind_of_ok (run_eat_cons _ _ _), if_pos rfl, Step.run_pure]

/-- One entry is read and the loop goes on after it. -/
theorem run_entries_entry (fuel : Nat) (kt : KeyToken) (colon : Nat) (d : Derivation)
    (r : List Token)
    (hd : Step.run x (.on (d.tokens ++ r) last depth) = (.ok d.literal, .on r last depth)) :
    Step.run (entries x (fuel + 1))
        (.on (kt.token :: ⟨.colon, colon⟩ :: (d.tokens ++ r)) last depth)
      = Step.run (afterEntry x fuel kt.key d.literal) (.on r last depth) := by
  have hne : kt.token.kind ≠ .rbrace := kt.kind_ne (by simp) (by simp)
  rw [entries_succ, Step.run_bind_of_ok (run_eat_of_ne _ hne), if_neg (by simp),
    Step.run_bind_of_ok (run_key_cons kt _), Step.run_bind_of_ok (run_expect_cons colon _),
    Step.run_bind_of_ok hd]

theorem run_items_closed (fuel right : Nat) (ts : List Token) :
    Step.run (items x (fuel + 1)) (.on (⟨.rbracket, right⟩ :: ts) last depth)
      = (.ok [], .on ts last depth) := by
  rw [items_succ, Step.run_bind_of_ok (run_eat_cons _ _ _), if_pos rfl, Step.run_pure]

/-- One item is read and the loop goes on after it. -/
theorem run_items_item (fuel : Nat) (d : Derivation) (r : List Token)
    (hd : Step.run x (.on (d.tokens ++ r) last depth) = (.ok d.literal, .on r last depth)) :
    Step.run (items x (fuel + 1)) (.on (d.tokens ++ r) last depth)
      = Step.run (afterItem x fuel d.literal) (.on r last depth) := by
  obtain ⟨kind, ts, hts, hk, -⟩ := d.exists_tokens_eq_cons
  have heat : Step.run (eat .rbracket) (.on (d.tokens ++ r) last depth)
      = (.ok false, .on (d.tokens ++ r) last depth) := by
    rw [hts, List.cons_append]
    exact run_eat_of_ne _ hk
  rw [items_succ, Step.run_bind_of_ok heat, if_neg (by simp), Step.run_bind_of_ok hd]

theorem run_segments (hlast : last.kind = .eof) {ts : List Token} (hts : Ended ts) :
    ∀ (m : List Segment) (fuel : Nat), m.length ≤ fuel →
      Step.run (segments fuel) (.on (m.flatMap Segment.tokens ++ ts) last depth)
        = (.ok (m.map Segment.text), .on ts last depth) := by
  intro m
  induction m with
  | nil =>
      intro fuel _
      cases fuel with
      | zero => rfl
      | succ fuel =>
          have heat : Step.run (eat .dot) (.on ts last depth) = (.ok false, .on ts last depth) := by
            cases ts with
            | nil => exact run_eat_nil (by rw [hlast]; simp)
            | cons t ts => exact run_eat_of_ne ts (hts t rfl)
          rw [List.flatMap_nil, List.nil_append, segments, Step.run_bind_of_ok heat,
            if_neg (by simp), Step.run_pure, List.map_nil]
  | cons s m ih =>
      intro fuel hfuel
      cases fuel with
      | zero => exact absurd hfuel (by simp)
      | succ fuel =>
          have hrec := ih fuel (by simpa using hfuel)
          cases s with
          | name dot line text =>
              rw [List.flatMap_cons, List.append_assoc, Segment.tokens, List.cons_append,
                segments, Step.run_bind_of_ok (run_eat_cons _ _ _), if_pos rfl,
                List.cons_append, Step.run_bind_of_ok (run_advance_cons _ _), List.nil_append]
              show Step.run (segments fuel >>= fun names => pure (text :: names)) _ = _
              rw [Step.run_bind_of_ok hrec, Step.run_pure]
              rfl
          | index dot line value =>
              rw [List.flatMap_cons, List.append_assoc, Segment.tokens, List.cons_append,
                segments, Step.run_bind_of_ok (run_eat_cons _ _ _), if_pos rfl,
                List.cons_append, Step.run_bind_of_ok (run_advance_cons _ _), List.nil_append]
              show Step.run (segments fuel >>= fun names =>
                pure (Number.showInt value :: names)) _ = _
              rw [Step.run_bind_of_ok hrec, Step.run_pure]
              rfl

end

/-- A value is read once what follows its first token is read one level further down. -/
theorem run_value_of_valueAt {limit fuel depth : Nat} {last t : Token} {r ts : List Token}
    {l : Literal} (hdepth : depth < limit)
    (h : Step.run (valueAt (value limit fuel) t) (.on r last (depth + 1))
      = (.ok l, .on ts last (depth + 1))) :
    Step.run (value limit (fuel + 1)) (.on (t :: r) last depth) = (.ok l, .on ts last depth) := by
  rw [run_value_cons limit fuel depth t r last hdepth, run_nested_on, h]
  show (Except.ok l, { Descent.on ts last (depth + 1) with
    depth := (Descent.on ts last (depth + 1)).depth - 1 }) = _
  rw [Descent.on_depth, Descent.on_with_depth, Nat.add_sub_cancel]

/-! The loops have fuel for every entry and item, since each takes a token of its own. -/

theorem MoreEntries.length_entryList_le : ∀ m : MoreEntries,
    m.entryList.length ≤ m.tokens.length
  | .stop => Nat.le_refl _
  | .comma _ => Nat.zero_le _
  | .entry sep key colon value more => by
      have h := more.length_entryList_le
      simp only [MoreEntries.entryList, MoreEntries.tokens, List.length_cons, List.length_append]
      omega

theorem MappingBody.length_entryList_le (b : MappingBody) :
    b.entryList.length ≤ b.tokens.length := by
  cases b with
  | empty => exact Nat.le_refl _
  | entries key colon value more =>
      have h := more.length_entryList_le
      simp only [MappingBody.entryList, MappingBody.tokens, List.length_cons, List.length_append]
      omega

theorem MoreItems.length_itemList_le : ∀ m : MoreItems, m.itemList.length ≤ m.tokens.length
  | .stop => Nat.le_refl _
  | .comma _ => Nat.zero_le _
  | .item sep value more => by
      have h := more.length_itemList_le
      simp only [MoreItems.itemList, MoreItems.tokens, List.length_cons, List.length_append]
      omega

theorem SequenceBody.length_itemList_le (b : SequenceBody) :
    b.itemList.length ≤ b.tokens.length := by
  cases b with
  | empty => exact Nat.le_refl _
  | items value more =>
      obtain ⟨kind, ts, hts, -, -⟩ := value.exists_tokens_eq_cons
      have h := more.length_itemList_le
      simp only [SequenceBody.itemList, SequenceBody.tokens, hts, List.length_cons,
        List.length_append]
      omega

theorem length_le_length_flatMap_tokens (m : List Segment) :
    m.length ≤ (m.flatMap Segment.tokens).length := by
  induction m with
  | nil => exact Nat.le_refl _
  | cons s m ih =>
      rw [List.flatMap_cons, List.length_append, List.length_cons]
      have hs : s.tokens.length = 2 := by cases s <;> rfl
      omega

mutual

/-- **Completeness of the descent**: a derivation within the depth limit is read, whatever
follows it. `fuel` has to last for the levels of the derivation. -/
theorem Derivation.value_run {last : Token} (hlast : last.kind = .eof) (limit : Nat) :
    ∀ (d : Derivation) (fuel depth : Nat) (ts : List Token),
      d.depth ≤ fuel → d.depth ≤ limit - depth → Ended ts →
      Step.run (value limit fuel) (.on (d.tokens ++ ts) last depth)
        = (.ok d.literal, .on ts last depth)
  | .mapping left body right, fuel, depth, ts, hfuel, hdepth, _ => by
      rw [Derivation.depth] at hfuel hdepth
      obtain ⟨fuel, rfl⟩ : ∃ n, fuel = n + 1 := ⟨fuel - 1, by omega⟩
      have hbody := MappingBody.entries_run hlast limit body fuel (depth + 1)
        ((body.tokens ++ ⟨.rbrace, right⟩ :: ts).length + 2) right ts (by omega) (by omega)
        (by
          have h := body.length_entryList_le
          rw [List.length_append]
          omega)
      rw [Derivation.tokens, List.cons_append, List.append_assoc, List.singleton_append]
      refine run_value_of_valueAt (by omega) ?_
      show Step.run (budget >>= fun n => entries (value limit fuel) n >>= fun es =>
        pure (Literal.mapping left es)) _ = _
      rw [Step.run_bind_of_ok (run_budget _), Step.run_bind_of_ok hbody, Step.run_pure]
      rfl
  | .sequence left body right, fuel, depth, ts, hfuel, hdepth, _ => by
      rw [Derivation.depth] at hfuel hdepth
      obtain ⟨fuel, rfl⟩ : ∃ n, fuel = n + 1 := ⟨fuel - 1, by omega⟩
      have hbody := SequenceBody.items_run hlast limit body fuel (depth + 1)
        ((body.tokens ++ ⟨.rbracket, right⟩ :: ts).length + 2) right ts (by omega) (by omega)
        (by
          have h := body.length_itemList_le
          rw [List.length_append]
          omega)
      rw [Derivation.tokens, List.cons_append, List.append_assoc, List.singleton_append]
      refine run_value_of_valueAt (by omega) ?_
      show Step.run (budget >>= fun n => items (value limit fuel) n >>= fun vs =>
        pure (Literal.sequence left vs)) _ = _
      rw [Step.run_bind_of_ok (run_budget _), Step.run_bind_of_ok hbody, Step.run_pure]
      rfl
  | .constant line value, fuel, depth, ts, hfuel, hdepth, _ => by
      rw [Derivation.depth] at hfuel hdepth
      obtain ⟨fuel, rfl⟩ : ∃ n, fuel = n + 1 := ⟨fuel - 1, by omega⟩
      refine run_value_of_valueAt (by omega) ?_
      cases value <;> rfl
  | .negation minus operand, fuel, depth, ts, hfuel, hdepth, hts => by
      rw [Derivation.depth] at hfuel hdepth
      obtain ⟨fuel, rfl⟩ : ∃ n, fuel = n + 1 := ⟨fuel - 1, by omega⟩
      have hop := Derivation.value_run hlast limit operand fuel (depth + 1) ts (by omega)
        (by omega) hts
      rw [Derivation.tokens, List.cons_append]
      refine run_value_of_valueAt (by omega) ?_
      show Step.run (value limit fuel >>= fun v => pure (Literal.negate minus v)) _ = _
      rw [Step.run_bind_of_ok hop, Step.run_pure]
      rfl
  | .reference line first more, fuel, depth, ts, hfuel, hdepth, hts => by
      rw [Derivation.depth] at hfuel hdepth
      obtain ⟨fuel, rfl⟩ : ∃ n, fuel = n + 1 := ⟨fuel - 1, by omega⟩
      have hlen : more.length ≤ (more.flatMap Segment.tokens ++ ts).length + 2 := by
        have h := length_le_length_flatMap_tokens more
        rw [List.length_append]
        omega
      rw [Derivation.tokens, List.cons_append]
      refine run_value_of_valueAt (by omega) ?_
      show Step.run (budget >>= fun n => segments n >>= fun names =>
        pure (Literal.reference line (first :: names))) _ = _
      rw [Step.run_bind_of_ok (run_budget _),
        Step.run_bind_of_ok (run_segments hlast hts more _ hlen), Step.run_pure]
      rfl

theorem MappingBody.entries_run {last : Token} (hlast : last.kind = .eof) (limit : Nat) :
    ∀ (b : MappingBody) (fuel depth n right : Nat) (ts : List Token),
      b.depth ≤ fuel → b.depth ≤ limit - depth → b.entryList.length < n →
      Step.run (entries (value limit fuel) n)
          (.on (b.tokens ++ ⟨.rbrace, right⟩ :: ts) last depth)
        = (.ok b.entryList, .on ts last depth)
  | .empty, fuel, depth, n, right, ts, _, _, hn => by
      obtain ⟨n, rfl⟩ : ∃ m, n = m + 1 := ⟨n - 1, by omega⟩
      exact run_entries_closed n right ts
  | .entries key colon value more, fuel, depth, n, right, ts, hfuel, hdepth, hn => by
      rw [MappingBody.depth] at hfuel hdepth
      rw [MappingBody.entryList, List.length_cons] at hn
      obtain ⟨n, rfl⟩ : ∃ m, n = m + 1 := ⟨n - 1, by omega⟩
      have hvalue := Derivation.value_run hlast limit value fuel depth
        (more.tokens ++ ⟨.rbrace, right⟩ :: ts) (by omega) (by omega) (more.ended right ts)
      rw [MappingBody.tokens, List.cons_append, List.cons_append, List.append_assoc,
        run_entries_entry n key colon value _ hvalue]
      exact MoreEntries.entries_run hlast limit more fuel depth n right ts key.key value.literal
        (by omega) (by omega) (by omega)

theorem MoreEntries.entries_run {last : Token} (hlast : last.kind = .eof) (limit : Nat) :
    ∀ (m : MoreEntries) (fuel depth n right : Nat) (ts : List Token) (k : Key) (v : Literal),
      m.depth ≤ fuel → m.depth ≤ limit - depth → m.entryList.length < n →
      Step.run (afterEntry (value limit fuel) n k v)
          (.on (m.tokens ++ ⟨.rbrace, right⟩ :: ts) last depth)
        = (.ok ((k, v) :: m.entryList), .on ts last depth)
  | .stop, fuel, depth, n, right, ts, k, v, _, _, _ => by
      rw [MoreEntries.tokens, List.nil_append, afterEntry,
        Step.run_bind_of_ok (run_eat_of_ne _ (by simp)), if_neg (by simp),
        Step.run_bind_of_ok (run_expect_cons right ts), Step.run_pure]
      rfl
  | .comma line, fuel, depth, n, right, ts, k, v, _, _, hn => by
      obtain ⟨n, rfl⟩ : ∃ m, n = m + 1 := ⟨n - 1, by omega⟩
      rw [MoreEntries.tokens, List.singleton_append, afterEntry,
        Step.run_bind_of_ok (run_eat_cons _ _ _), if_pos rfl,
        Step.run_bind_of_ok (run_entries_closed n right ts), Step.run_pure]
      rfl
  | .entry sep key colon value more, fuel, depth, n, right, ts, k, v, hfuel, hdepth, hn => by
      rw [MoreEntries.depth] at hfuel hdepth
      rw [MoreEntries.entryList, List.length_cons] at hn
      obtain ⟨n, rfl⟩ : ∃ m, n = m + 1 := ⟨n - 1, by omega⟩
      have hvalue := Derivation.value_run hlast limit value fuel depth
        (more.tokens ++ ⟨.rbrace, right⟩ :: ts) (by omega) (by omega) (more.ended right ts)
      have hmore := MoreEntries.entries_run hlast limit more fuel depth n right ts key.key
        value.literal (by omega) (by omega) (by omega)
      rw [← run_entries_entry n key colon value _ hvalue] at hmore
      rw [MoreEntries.tokens, List.cons_append, List.cons_append, List.cons_append,
        List.append_assoc, afterEntry, Step.run_bind_of_ok (run_eat_cons _ _ _), if_pos rfl,
        Step.run_bind_of_ok hmore, Step.run_pure]
      rfl

theorem SequenceBody.items_run {last : Token} (hlast : last.kind = .eof) (limit : Nat) :
    ∀ (b : SequenceBody) (fuel depth n right : Nat) (ts : List Token),
      b.depth ≤ fuel → b.depth ≤ limit - depth → b.itemList.length < n →
      Step.run (items (value limit fuel) n)
          (.on (b.tokens ++ ⟨.rbracket, right⟩ :: ts) last depth)
        = (.ok b.itemList, .on ts last depth)
  | .empty, fuel, depth, n, right, ts, _, _, hn => by
      obtain ⟨n, rfl⟩ : ∃ m, n = m + 1 := ⟨n - 1, by omega⟩
      exact run_items_closed n right ts
  | .items value more, fuel, depth, n, right, ts, hfuel, hdepth, hn => by
      rw [SequenceBody.depth] at hfuel hdepth
      rw [SequenceBody.itemList, List.length_cons] at hn
      obtain ⟨n, rfl⟩ : ∃ m, n = m + 1 := ⟨n - 1, by omega⟩
      have hvalue := Derivation.value_run hlast limit value fuel depth
        (more.tokens ++ ⟨.rbracket, right⟩ :: ts) (by omega) (by omega) (more.ended right ts)
      rw [SequenceBody.tokens, List.append_assoc, run_items_item n value _ hvalue]
      exact MoreItems.items_run hlast limit more fuel depth n right ts value.literal
        (by omega) (by omega) (by omega)

theorem MoreItems.items_run {last : Token} (hlast : last.kind = .eof) (limit : Nat) :
    ∀ (m : MoreItems) (fuel depth n right : Nat) (ts : List Token) (v : Literal),
      m.depth ≤ fuel → m.depth ≤ limit - depth → m.itemList.length < n →
      Step.run (afterItem (value limit fuel) n v)
          (.on (m.tokens ++ ⟨.rbracket, right⟩ :: ts) last depth)
        = (.ok (v :: m.itemList), .on ts last depth)
  | .stop, fuel, depth, n, right, ts, v, _, _, _ => by
      rw [MoreItems.tokens, List.nil_append, afterItem,
        Step.run_bind_of_ok (run_eat_of_ne _ (by simp)), if_neg (by simp),
        Step.run_bind_of_ok (run_expect_cons right ts), Step.run_pure]
      rfl
  | .comma line, fuel, depth, n, right, ts, v, _, _, hn => by
      obtain ⟨n, rfl⟩ : ∃ m, n = m + 1 := ⟨n - 1, by omega⟩
      rw [MoreItems.tokens, List.singleton_append, afterItem,
        Step.run_bind_of_ok (run_eat_cons _ _ _), if_pos rfl,
        Step.run_bind_of_ok (run_items_closed n right ts), Step.run_pure]
      rfl
  | .item sep value more, fuel, depth, n, right, ts, v, hfuel, hdepth, hn => by
      rw [MoreItems.depth] at hfuel hdepth
      rw [MoreItems.itemList, List.length_cons] at hn
      obtain ⟨n, rfl⟩ : ∃ m, n = m + 1 := ⟨n - 1, by omega⟩
      have hvalue := Derivation.value_run hlast limit value fuel depth
        (more.tokens ++ ⟨.rbracket, right⟩ :: ts) (by omega) (by omega) (more.ended right ts)
      have hmore := MoreItems.items_run hlast limit more fuel depth n right ts
        value.literal (by omega) (by omega) (by omega)
      rw [← run_items_item n value _ hvalue] at hmore
      rw [MoreItems.tokens, List.cons_append, List.append_assoc, afterItem,
        Step.run_bind_of_ok (run_eat_cons _ _ _), if_pos rfl,
        Step.run_bind_of_ok hmore, Step.run_pure]
      rfl

end

/-! ## Whole documents -/

theorem ofTokens_append_singleton (limit : Nat) (ts : List Token) (last : Token) :
    ofTokens limit (ts ++ [last]) = (Step.run (document limit) (.on ts last 0)).1 := by
  cases ts <;> rfl

/-- A document that is read is denoted by a derivation of all its tokens. -/
theorem exists_derivation_of_ofTokens {limit : Nat} {ts : List Token} {last : Token}
    {l : Literal} (hlast : last.kind = .eof) (hts : ∀ t ∈ ts, t.kind ≠ .eof)
    (h : ofTokens limit (ts ++ [last]) = .ok l) :
    ∃ d : Derivation, d.tokens = ts ∧ d.depth ≤ limit ∧ d.literal = l := by
  rw [ofTokens_append_singleton] at h
  rcases hrun : Step.run (document limit) (.on ts last 0) with ⟨r, s⟩
  rw [hrun] at h
  obtain rfl : r = .ok l := h
  obtain ⟨v, s₁, hvalue, hrest⟩ := Step.run_bind_eq_ok_iff.mp hrun
  obtain ⟨d, ts', rfl, rfl, hd, rfl⟩ := value_sound hlast limit _ _ _ _ _ hvalue
  cases ts' with
  | nil =>
      -- the cursor is on the end of input
      obtain ⟨t, s₂, hpeek, hrest⟩ := Step.run_bind_eq_ok_iff.mp hrest
      cases hpeek
      rw [show (Descent.on [] last 0).head = last from rfl, if_pos hlast, Step.run_pure] at hrest
      cases hrest
      exact ⟨d, by rw [List.append_nil], hd, rfl⟩
  | cons t ts' =>
      -- another token is left, and it is no end of input
      rw [Step.run_bind_of_ok (run_peek_cons t ts'), if_neg (hts t (by simp))] at hrest
      cases hrest

/-- A derivation within the depth limit makes a document. -/
theorem Derivation.ofTokens_run {limit : Nat} {last : Token} (hlast : last.kind = .eof)
    (d : Derivation) (hd : d.depth ≤ limit) :
    ofTokens limit (d.tokens ++ [last]) = .ok d.literal := by
  have hvalue := Derivation.value_run hlast limit d (limit + 1) 0 [] (by omega) hd ended_nil
  rw [List.append_nil] at hvalue
  have hpeek : Step.run peek (.on [] last 0) = (.ok last, .on [] last 0) := rfl
  rw [ofTokens_append_singleton, document, Step.run_bind_of_ok hvalue,
    Step.run_bind_of_ok hpeek, if_pos hlast, Step.run_pure]

/-- **The descent accepts the grammar and nothing else.** On a token list with one end of input,
at its end, the literal `l` is read exactly when a derivation of the other tokens, of a depth
within the limit, denotes it. Every value is on the line of its first token, and the derivation
is unique. -/
theorem ofTokens_eq_ok_iff_derivation (limit : Nat) (ts : List Token) (last : Token)
    (hlast : last.kind = .eof) (hts : ∀ t ∈ ts, t.kind ≠ .eof) :
    (∀ l, ofTokens limit (ts ++ [last]) = .ok l ↔
      ∃ d : Derivation, d.tokens = ts ∧ d.depth ≤ limit ∧ d.literal = l) ∧
    (∀ d : Derivation, d.tokens.head?.map Token.line = some d.literal.line) ∧
    (∀ d d' : Derivation, d.tokens = ts → d'.tokens = ts → d = d') := by
  refine ⟨fun l => ⟨exists_derivation_of_ofTokens hlast hts, ?_⟩, ?_, ?_⟩
  · rintro ⟨d, rfl, hd, rfl⟩
    exact d.ofTokens_run hlast hd
  · intro d
    obtain ⟨kind, ts', hd, -, -⟩ := d.exists_tokens_eq_cons
    rw [hd]
    rfl
  · intro d d' hd hd'
    exact Derivation.eq_of_tokens_eq (hd.trans hd'.symm)

/-- A mapping with a quoted key, a trailing comma on each level, a negation and a reference. -/
theorem ofTokens_mixed_mapping :
    ∃ d : Derivation,
      d.tokens = [⟨.lbrace, 1⟩, ⟨.str "a", 1⟩, ⟨.colon, 1⟩, ⟨.lbracket, 1⟩, ⟨.minus, 2⟩,
        ⟨.int 7, 2⟩, ⟨.comma, 2⟩, ⟨.rbracket, 2⟩, ⟨.comma, 2⟩, ⟨.ident "b", 3⟩, ⟨.colon, 3⟩,
        ⟨.ident "a", 4⟩, ⟨.dot, 4⟩, ⟨.int 0, 4⟩, ⟨.comma, 4⟩, ⟨.rbrace, 4⟩] ∧
      d.depth ≤ 4 ∧
      d.literal = .mapping 1 [(⟨"a", 1⟩, .sequence 1 [.negate 2 (.constant 2 (.int 7))]),
        (⟨"b", 3⟩, .reference 4 ["a", "0"])] :=
  ((ofTokens_eq_ok_iff_derivation 4 _ ⟨.eof, 5⟩ rfl (by decide)).1 _).mp rfl

end SiteConf.Literal
