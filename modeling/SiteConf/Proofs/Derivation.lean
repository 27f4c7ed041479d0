import SiteConf.Literal.Grammar
import Mathlib

set_option autoImplicit false

/-! # Derivations of configuration literals

A derivation is a syntax tree of the grammar, with the line of every token it stands on:

    value     := mapping | sequence | constant | '-' value | reference
    mapping   := '{' (key ':' value (',' key ':' value)* ','?)? '}'
    sequence  := '[' (value (',' value)* ','?)? ']'
    key       := identifier | text            (not empty, without '.')
    reference := identifier ('.' (identifier | integer))*

It is data and not a proof, so that two derivations of one token list can be compared.
`Derivation.tokens` is the token list it derives, `Derivation.literal` the literal it denotes,
`Derivation.depth` how deep its values nest. The main result of the file,
`Derivation.eq_of_tokens_eq`, says that a token list has at most one derivation.
-/

namespace SiteConf.Literal

/-! ## Syntax trees -/

/-- A token that may be the key of an entry. -/
structure KeyToken where
  token : Token
  name : String
  spelled : token.kind = .ident name ∨ token.kind = .str name
  proper : isKey name = true

/-- A segment of a reference after its first: a dot, and a name or an index. -/
inductive Segment where
  | name (dot line : Nat) (text : String)
  | index (dot line : Nat) (value : Int)

mutual

/-- A derivation of a value. Punctuation is given by its line. -/
inductive Derivation where
  | mapping (left : Nat) (body : MappingBody) (right : Nat)
  | sequence (left : Nat) (body : SequenceBody) (right : Nat)
  | constant (line : Nat) (value : Scalar)
  | negation (minus : Nat) (operand : Derivation)
  | reference (line : Nat) (first : String) (more : List Segment)

/-- What stands between the braces of a mapping. -/
inductive MappingBody where
  | empty
  | entries (key : KeyToken) (colon : Nat) (value : Derivation) (more : MoreEntries)

/-- What follows an entry of a mapping: further entries, and perhaps a trailing comma. -/
inductive MoreEntries where
  | stop
  | comma (line : Nat)
  | entry (comma : Nat) (key : KeyToken) (colon : Nat) (value : Derivation) (more : MoreEntries)

/-- What stands between the brackets of a sequence. -/
inductive SequenceBody where
  | empty
  | items (value : Derivation) (more : MoreItems)

/-- What follows an item of a sequence: further items, and perhaps a trailing comma. -/
inductive MoreItems where
  | stop
  | comma (line : Nat)
  | item (comma : Nat) (value : Derivation) (more : MoreItems)

end

/-! ## The tokens of a derivation -/

/-- The token of a constant. -/
def constantKind : Scalar → TokenKind
  | .str s => .str s
  | .int n => .int n
  | .bool b => .bool b

theorem constantKind_ne_eof (value : Scalar) : constantKind value ≠ .eof := by
  cases value <;> simp [constantKind]

def Segment.tokens : Segment → List Token
  | .name dot line text => [⟨.dot, dot⟩, ⟨.ident text, line⟩]
  | .index dot line value => [⟨.dot, dot⟩, ⟨.int value, line⟩]

mutual

def Derivation.tokens : Derivation → List Token
  | .mapping left body right => ⟨.lbrace, left⟩ :: (body.tokens ++ [⟨.rbrace, right⟩])
  | .sequence left body right => ⟨.lbracket, left⟩ :: (body.tokens ++ [⟨.rbracket, right⟩])
  | .constant line value => [⟨constantKind value, line⟩]
  | .negation minus operand => ⟨.minus, minus⟩ :: operand.tokens
  | .reference line first more => ⟨.ident first, line⟩ :: more.flatMap Segment.tokens

def MappingBody.tokens : MappingBody → List Token
  | .empty => []
  | .entries key colon value more =>
      key.token :: ⟨.colon, colon⟩ :: (value.tokens ++ more.tokens)

def MoreEntries.tokens : MoreEntries → List Token
  | .stop => []
  | .comma line => [⟨.comma, line⟩]
  | .entry comma key colon value more =>
      ⟨.comma, comma⟩ :: key.token :: ⟨.colon, colon⟩ :: (value.tokens ++ more.tokens)

def SequenceBody.tokens : SequenceBody → List Token
  | .empty => []
  | .items value more => value.tokens ++ more.tokens

def MoreItems.tokens : MoreItems → List Token
  | .stop => []
  | .comma line => [⟨.comma, line⟩]
  | .item comma value more => ⟨.comma, comma⟩ :: (value.tokens ++ more.tokens)

end

/-! ## The literal of a derivation -/

def Segment.text : Segment → String
  | .name _ _ text => text
  | .index _ _ value => Number.showInt value

def KeyToken.key (k : KeyToken) : Key :=
  ⟨k.name, k.token.line⟩

mutual

/-- The literal that a derivation denotes: every part is on the line of its first token. -/
def Derivation.literal : Derivation → Literal
  | .mapping left body _ => .mapping left body.entryList
  | .sequence left body _ => .sequence left body.itemList
  | .constant line value => .constant line value
  | .negation minus operand => .negate minus operand.literal
  | .reference line first more => .reference line (first :: more.map Segment.text)

def MappingBody.entryList : MappingBody → List (Key × Literal)
  | .empty => []
  | .entries key _ value more => (key.key, value.literal) :: more.entryList

def MoreEntries.entryList : MoreEntries → List (Key × Literal)
  | .stop => []
  | .comma _ => []
  | .entry _ key _ value more => (key.key, value.literal) :: more.entryList

def SequenceBody.itemList : SequenceBody → List Literal
  | .empty => []
  | .items value more => value.literal :: more.itemList

def MoreItems.itemList : MoreItems → List Literal
  | .stop => []
  | .comma _ => []
  | .item _ value more => value.literal :: more.itemList

end

/-! ## The depth of a derivation -/

mutual

/-- How deep the values nest: constants and references are one level, and a mapping, a sequence
or a negation is one level more than the deepest value in it. -/
def Derivation.depth : Derivation → Nat
  | .mapping _ body _ => 1 + body.depth
  | .sequence _ body _ => 1 + body.depth
  | .constant _ _ => 1
  | .negation _ operand => 1 + operand.depth
  | .reference _ _ _ => 1

/-- The depth of the deepest value between braces, 0 if there is none. -/
def MappingBody.depth : MappingBody → Nat
  | .empty => 0
  | .entries _ _ value more => max value.depth more.depth

def MoreEntries.depth : MoreEntries → Nat
  | .stop => 0
  | .comma _ => 0
  | .entry _ _ _ value more => max value.depth more.depth

/-- The depth of the deepest value between brackets, 0 if there is none. -/
def SequenceBody.depth : SequenceBody → Nat
  | .empty => 0
  | .items value more => max value.depth more.depth

def MoreItems.depth : MoreItems → Nat
  | .stop => 0
  | .comma _ => 0
  | .item _ value more => max value.depth more.depth

end

/-! ## A token list has one derivation

A derivation can be told from the tokens that follow it, with one exception: a reference goes on
with every dot. So what follows a derivation must not start with a dot. Inside a mapping or a
sequence it starts with a comma or the closing token. -/

/-- No dot comes next. -/
def Ended (ts : List Token) : Prop :=
  ∀ t ∈ ts.head?, t.kind ≠ .dot

theorem ended_nil : Ended [] := by
  intro t ht
  cases ht

theorem ended_cons {t : Token} {ts : List Token} (h : t.kind ≠ .dot) : Ended (t :: ts) := by
  intro u hu
  simp only [List.head?_cons, Option.mem_def, Option.some.injEq] at hu
  rw [← hu]
  exact h

theorem MoreEntries.ended (m : MoreEntries) (right : Nat) (ts : List Token) :
    Ended (m.tokens ++ ⟨.rbrace, right⟩ :: ts) := by
  cases m with
  | stop => exact ended_cons (by simp)
  | comma line => exact ended_cons (by simp)
  | entry comma key colon value more => exact ended_cons (by simp)

theorem MoreItems.ended (m : MoreItems) (right : Nat) (ts : List Token) :
    Ended (m.tokens ++ ⟨.rbracket, right⟩ :: ts) := by
  cases m with
  | stop => exact ended_cons (by simp)
  | comma line => exact ended_cons (by simp)
  | item comma value more => exact ended_cons (by simp)

/-- A key token is neither a closing brace nor any other punctuation. -/
theorem KeyToken.kind_ne (k : KeyToken) {kind : TokenKind} (hi : ∀ s, kind ≠ .ident s)
    (hs : ∀ s, kind ≠ .str s) : k.token.kind ≠ kind := by
  rcases k.spelled with h | h
  · rw [h]; exact fun e => hi _ e.symm
  · rw [h]; exact fun e => hs _ e.symm

theorem KeyToken.eq_of_token_eq {k k' : KeyToken} (h : k.token = k'.token) : k = k' := by
  rcases k with ⟨t, n, hs, hp⟩
  rcases k' with ⟨t', n', hs', hp'⟩
  obtain rfl : t = t' := h
  have hn : n = n' := by
    rcases hs with hs | hs
    · rcases hs' with hs' | hs'
      · exact TokenKind.ident.inj (hs.symm.trans hs')
      · exact absurd (hs.symm.trans hs') (by simp)
    · rcases hs' with hs' | hs'
      · exact absurd (hs.symm.trans hs') (by simp)
      · exact TokenKind.str.inj (hs.symm.trans hs')
  subst hn
  rfl

/-- The first token of a value is on the value's line. -/
theorem Derivation.exists_tokens_eq_cons (d : Derivation) :
    ∃ kind ts, d.tokens = ⟨kind, d.literal.line⟩ :: ts ∧ kind ≠ .rbracket ∧ kind ≠ .eof := by
  cases d with
  | mapping left body right => exact ⟨_, _, rfl, by simp, by simp⟩
  | sequence left body right => exact ⟨_, _, rfl, by simp, by simp⟩
  | constant line value =>
      refine ⟨_, _, rfl, ?_, ?_⟩ <;> cases value <;> simp [constantKind]
  | negation minus operand => exact ⟨_, _, rfl, by simp, by simp⟩
  | reference line first more => exact ⟨_, _, rfl, by simp, by simp⟩

/-- No value starts with a closing bracket. -/
theorem Derivation.closing_ne (d : Derivation) (line : Nat) (r r' : List Token) :
    ⟨.rbracket, line⟩ :: r ≠ d.tokens ++ r' := by
  obtain ⟨kind, ts, hd, hk, -⟩ := d.exists_tokens_eq_cons
  simp only [hd, List.cons_append, ne_eq, List.cons.injEq, Token.mk.injEq]
  exact fun h => hk h.1.1.symm

/-- The segments of a reference are determined by their tokens and what follows them. -/
theorem segments_eq_of_tokens_eq {m m' : List Segment} {r r' : List Token}
    (h : m.flatMap Segment.tokens ++ r = m'.flatMap Segment.tokens ++ r')
    (hr : Ended r) (hr' : Ended r') : m = m' ∧ r = r' := by
  induction m generalizing m' with
  | nil =>
      cases m' with
      | nil => exact ⟨rfl, h⟩
      | cons s m' =>
          -- the other side goes on with a dot
          exfalso
          rw [List.flatMap_nil, List.nil_append] at h
          cases s <;> exact hr ⟨.dot, _⟩ (by rw [h]; rfl) rfl
  | cons s m ih =>
      cases m' with
      | nil =>
          exfalso
          rw [List.flatMap_nil, List.nil_append] at h
          cases s <;> exact hr' ⟨.dot, _⟩ (by rw [← h]; rfl) rfl
      | cons s' m' =>
          rw [List.flatMap_cons, List.flatMap_cons, List.append_assoc, List.append_assoc] at h
          have hs : s = s' ∧ m.flatMap Segment.tokens ++ r = m'.flatMap Segment.tokens ++ r' := by
            cases s <;> cases s' <;> simp [Segment.tokens] at h ⊢ <;> tauto
          obtain ⟨hm, hrr⟩ := ih hs.2
          exact ⟨by rw [hs.1, hm], hrr⟩

mutual

/-- Derivations with the same tokens are equal, also when more tokens follow. -/
theorem Derivation.eq_of_append_eq : ∀ (d d' : Derivation) (r r' : List Token),
    d.tokens ++ r = d'.tokens ++ r' → Ended r → Ended r' → d = d' ∧ r = r'
  | .mapping left body right, d', r, r', h, _, _ => by
      cases d' with
      | mapping left' body' right' =>
          simp only [Derivation.tokens, List.cons_append, List.append_assoc, List.nil_append,
            List.cons.injEq, Token.mk.injEq, true_and] at h
          obtain ⟨hl, hb⟩ := h
          obtain ⟨hbody, hright, hr⟩ := MappingBody.eq_of_append_eq body body' right right' r r' hb
          exact ⟨by rw [hl, hbody, hright], hr⟩
      | sequence => simp [Derivation.tokens] at h
      | constant line value => cases value <;> simp [Derivation.tokens, constantKind] at h
      | negation => simp [Derivation.tokens] at h
      | reference => simp [Derivation.tokens] at h
  | .sequence left body right, d', r, r', h, _, _ => by
      cases d' with
      | sequence left' body' right' =>
          simp only [Derivation.tokens, List.cons_append, List.append_assoc, List.nil_append,
            List.cons.injEq, Token.mk.injEq, true_and] at h
          obtain ⟨hl, hb⟩ := h
          obtain ⟨hbody, hright, hr⟩ :=
            SequenceBody.eq_of_append_eq body body' right right' r r' hb
          exact ⟨by rw [hl, hbody, hright], hr⟩
      | mapping => simp [Derivation.tokens] at h
      | constant line value => cases value <;> simp [Derivation.tokens, constantKind] at h
      | negation => simp [Derivation.tokens] at h
      | reference => simp [Derivation.tokens] at h
  | .constant line value, d', r, r', h, _, _ => by
      cases d' with
      | constant line' value' =>
          cases value <;> cases value' <;> simp [Derivation.tokens, constantKind] at h ⊢ <;> tauto
      | mapping => cases value <;> simp [Derivation.tokens, constantKind] at h
      | sequence => cases value <;> simp [Derivation.tokens, constantKind] at h
      | negation => cases value <;> simp [Derivation.tokens, constantKind] at h
      | reference => cases value <;> simp [Derivation.tokens, constantKind] at h
  | .negation minus operand, d', r, r', h, hr, hr' => by
      cases d' with
      | negation minus' operand' =>
          simp only [Derivation.tokens, List.cons_append, List.cons.injEq, Token.mk.injEq,
            true_and] at h
          obtain ⟨hm, ho⟩ := h
          obtain ⟨hop, hrr⟩ := Derivation.eq_of_append_eq operand operand' r r' ho hr hr'
          exact ⟨by rw [hm, hop], hrr⟩
      | mapping => simp [Derivation.tokens] at h
      | sequence => simp [Derivation.tokens] at h
      | constant line value => cases value <;> simp [Derivation.tokens, constantKind] at h
      | reference => simp [Derivation.tokens] at h
  | .reference line first more, d', r, r', h, hr, hr' => by
      cases d' with
      | reference line' first' more' =>
          simp only [Derivation.tokens, List.cons_append, List.cons.injEq, Token.mk.injEq,
            TokenKind.ident.injEq] at h
          obtain ⟨⟨hf, hl⟩, hm⟩ := h
          obtain ⟨hmore, hrr⟩ := segments_eq_of_tokens_eq hm hr hr'
          exact ⟨by rw [hf, hl, hmore], hrr⟩
      | mapping => simp [Derivation.tokens] at h
      | sequence => simp [Derivation.tokens] at h
      | constant line value => cases value <;> simp [Derivation.tokens, constantKind] at h
      | negation => simp [Derivation.tokens] at h

theorem MappingBody.eq_of_append_eq : ∀ (b b' : MappingBody) (right right' : Nat)
    (r r' : List Token),
    b.tokens ++ ⟨.rbrace, right⟩ :: r = b'.tokens ++ ⟨.rbrace, right'⟩ :: r' →
    b = b' ∧ right = right' ∧ r = r'
  | .empty, b', right, right', r, r', h => by
      cases b' with
      | empty => simpa [MappingBody.tokens] using h
      | entries key' =>
          simp only [MappingBody.tokens, List.nil_append, List.cons_append, List.cons.injEq] at h
          exact absurd (congrArg Token.kind h.1.symm) (key'.kind_ne (by simp) (by simp))
  | .entries key colon value more, b', right, right', r, r', h => by
      cases b' with
      | empty =>
          simp only [MappingBody.tokens, List.nil_append, List.cons_append, List.cons.injEq] at h
          exact absurd (congrArg Token.kind h.1) (key.kind_ne (by simp) (by simp))
      | entries key' colon' value' more' =>
          simp only [MappingBody.tokens, List.cons_append, List.append_assoc, List.cons.injEq,
            Token.mk.injEq, true_and] at h
          obtain ⟨hk, hc, hv⟩ := h
          obtain ⟨hvalue, hm⟩ := Derivation.eq_of_append_eq value value' _ _ hv
            (more.ended right r) (more'.ended right' r')
          obtain ⟨hmore, hright, hr⟩ := MoreEntries.eq_of_append_eq more more' right right' r r' hm
          exact ⟨by rw [KeyToken.eq_of_token_eq hk, hc, hvalue, hmore], hright, hr⟩

theorem MoreEntries.eq_of_append_eq : ∀ (m m' : MoreEntries) (right right' : Nat)
    (r r' : List Token),
    m.tokens ++ ⟨.rbrace, right⟩ :: r = m'.tokens ++ ⟨.rbrace, right'⟩ :: r' →
    m = m' ∧ right = right' ∧ r = r'
  | .stop, m', right, right', r, r', h => by
      cases m' with
      | stop => simpa [MoreEntries.tokens] using h
      | comma line' => simp [MoreEntries.tokens] at h
      | entry => simp [MoreEntries.tokens] at h
  | .comma line, m', right, right', r, r', h => by
      cases m' with
      | stop => simp [MoreEntries.tokens] at h
      | comma line' => simpa [MoreEntries.tokens] using h
      | entry comma' key' =>
          simp only [MoreEntries.tokens, List.nil_append, List.cons_append, List.cons.injEq] at h
          exact absurd (congrArg Token.kind h.2.1.symm) (key'.kind_ne (by simp) (by simp))
  | .entry comma key colon value more, m', right, right', r, r', h => by
      cases m' with
      | stop => simp [MoreEntries.tokens] at h
      | comma line' =>
          simp only [MoreEntries.tokens, List.nil_append, List.cons_append, List.cons.injEq] at h
          exact absurd (congrArg Token.kind h.2.1) (key.kind_ne (by simp) (by simp))
      | entry comma' key' colon' value' more' =>
          simp only [MoreEntries.tokens, List.cons_append, List.append_assoc, List.cons.injEq,
            Token.mk.injEq, true_and] at h
          obtain ⟨hcomma, hk, hc, hv⟩ := h
          obtain ⟨hvalue, hm⟩ := Derivation.eq_of_append_eq value value' _ _ hv
            (more.ended right r) (more'.ended right' r')
          obtain ⟨hmore, hright, hr⟩ := MoreEntries.eq_of_append_eq more more' right right' r r' hm
          exact ⟨by rw [hcomma, KeyToken.eq_of_token_eq hk, hc, hvalue, hmore], hright, hr⟩

theorem SequenceBody.eq_of_append_eq : ∀ (b b' : SequenceBody) (right right' : Nat)
    (r r' : List Token),
    b.tokens ++ ⟨.rbracket, right⟩ :: r = b'.tokens ++ ⟨.rbracket, right'⟩ :: r' →
    b = b' ∧ right = right' ∧ r = r'
  | .empty, b', right, right', r, r', h => by
      cases b' with
      | empty => simpa [SequenceBody.tokens] using h
      | items value' more' =>
          rw [SequenceBody.tokens, SequenceBody.tokens, List.append_assoc] at h
          exact absurd h (value'.closing_ne _ _ _)
  | .items value more, b', right, right', r, r', h => by
      cases b' with
      | empty =>
          rw [SequenceBody.tokens, SequenceBody.tokens, List.append_assoc] at h
          exact absurd h.symm (value.closing_ne _ _ _)
      | items value' more' =>
          simp only [SequenceBody.tokens, List.append_assoc] at h
          obtain ⟨hvalue, hm⟩ := Derivation.eq_of_append_eq value value' _ _ h
            (more.ended right r) (more'.ended right' r')
          obtain ⟨hmore, hright, hr⟩ := MoreItems.eq_of_append_eq more more' right right' r r' hm
          exact ⟨by rw [hvalue, hmore], hright, hr⟩

theorem MoreItems.eq_of_append_eq : ∀ (m m' : MoreItems) (right right' : Nat)
    (r r' : List Token),
    m.tokens ++ ⟨.rbracket, right⟩ :: r = m'.tokens ++ ⟨.rbracket, right'⟩ :: r' →
    m = m' ∧ right = right' ∧ r = r'
  | .stop, m', right, right', r, r', h => by
      cases m' with
      | stop => simpa [MoreItems.tokens] using h
      | comma line' => simp [MoreItems.tokens] at h
      | item => simp [MoreItems.tokens] at h
  | .comma line, m', right, right', r, r', h => by
      cases m' with
      | stop => simp [MoreItems.tokens] at h
      | comma line' => simpa [MoreItems.tokens] using h
      | item comma' value' more' =>
          simp only [MoreItems.tokens, List.nil_append, List.cons_append, List.append_assoc,
            List.cons.injEq] at h
          exact absurd h.2 (value'.closing_ne _ _ _)
  | .item comma value more, m', right, right', r, r', h => by
      cases m' with
      | stop => simp [MoreItems.tokens] at h
      | comma line' =>
          simp only [MoreItems.tokens, List.nil_append, List.cons_append, List.append_assoc,
            List.cons.injEq] at h
          exact absurd h.2.symm (value.closing_ne _ _ _)
      | item comma' value' more' =>
          simp only [MoreItems.tokens, List.cons_append, List.append_assoc, List.cons.injEq,
            Token.mk.injEq, true_and] at h
          obtain ⟨hcomma, hv⟩ := h
          obtain ⟨hvalue, hm⟩ := Derivation.eq_of_append_eq value value' _ _ hv
            (more.ended right r) (more'.ended right' r')
          obtain ⟨hmore, hright, hr⟩ := MoreItems.eq_of_append_eq more more' right right' r r' hm
          exact ⟨by rw [hcomma, hvalue, hmore], hright, hr⟩

end

/-- **The grammar is unambiguous**: a token list has at most one derivation. -/
theorem Derivation.eq_of_tokens_eq {d d' : Derivation} (h : d.tokens = d'.tokens) : d = d' :=
  (Derivation.eq_of_append_eq d d' [] [] (by rw [h]) ended_nil ended_nil).1

end SiteConf.Literal
