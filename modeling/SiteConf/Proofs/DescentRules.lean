import SiteConf.Proofs.Descent

set_option autoImplicit false

/-! # What descents are composed of

Every reader of the descent is put together from a few steps on single tokens, in sequence, and
from work one level deeper. So there is one induction over the descent: what is said of steps, of
their results and of the lines they gather holds of the reader of values, if it holds of these parts
(`Rules`) and is kept when a literal grows from its parts (`Grows`). Then it holds of the reader of
whole documents (`Rules.document`).

One thing to say is where the cursor goes: no step moves it back, none leaves the depth changed, and
the lines of a literal are those of tokens that the cursor passes, in the order in which it does
(`rules_moves`). -/

namespace SiteConf

/-- No token is on an earlier line than a token before it. -/
def Token.InOrder (tokens : List Token) : Prop :=
  (tokens.map Token.line).Pairwise (· ≤ ·)

namespace Literal

/-! ## Lines of a literal -/

mutual

/-- The lines that a literal names: those of its parts and of its keys. -/
def lines : Literal → List Nat
  | .mapping line entries => line :: linesOfEntries entries
  | .sequence line items => line :: linesOfItems items
  | .constant line _ => [line]
  | .negate line operand => line :: lines operand
  | .reference line _ => [line]

def linesOfEntries : List (Key × Literal) → List Nat
  | [] => []
  | (k, v) :: rest => k.line :: (lines v ++ linesOfEntries rest)

def linesOfItems : List Literal → List Nat
  | [] => []
  | v :: rest => lines v ++ linesOfItems rest

end

theorem lines_eq_cons (l : Literal) : l.lines = l.line :: l.lines.tail := by
  cases l <;> rw [lines] <;> rfl

/-! ## Rules -/

/-- What the grammar says of a token that it refuses. -/
def Refusal : SyntaxIssue → Prop
  | .tooDeep _ | .expectedValue _ | .badKey _ | .keyForm _ | .expectedColon _ _
  | .unclosedMapping _ | .unclosedSequence _ | .expectedName _ | .trailing _ => True
  | _ => False

/-- `C P x` says something of the step `x`, and that `P` holds of the lines it gathers and of its
result. It can be shown part by part; the tokens that are read satisfy `R`. -/
structure Rules (R : Token → Prop)
    (C : ∀ {α : Type}, (List Nat → α → Prop) → Descend α → Prop) : Prop where
  pure {α : Type} {P : List Nat → α → Prop} {a : α} (h : P [] a) : C P (pure a)
  refuse {α : Type} {P : List Nat → α → Prop} {t : Token} {issue : SyntaxIssue} (ht : R t)
      (hissue : Refusal issue) : C P (refuse t issue)
  bind {α β : Type} {P : List Nat → α → Prop} {Q : List Nat → β → Prop} {x : Descend α}
      {f : α → Descend β} (hx : C P x)
      (hf : ∀ ns a, P ns a → C (fun ms b => Q (ns ++ ms) b) (f a)) : C Q (x >>= f)
  peek : C (fun ns t => ns = [] ∧ R t) peek
  advance : C (fun ns t => ns = [t.line] ∧ R t) advance
  pass : C (fun ns t => ns = [] ∧ R t) Literal.advance
  eat (kind : TokenKind) : C (fun ns _ => ns = []) (eat kind)
  look (f : Descent → Nat) : C (fun ns _ => ns = []) (Step.of fun s => (.ok (f s), s))
  nested {α : Type} {P : List Nat → α → Prop} {x : Descend α} (hx : C P x) : C P (nested x)

/-- Keys of tokens satisfy `K`, and literals of such keys and of parts with the property satisfy
`Q`. No part of a literal is on the end of input. -/
structure Grows (R : Token → Prop) (K : Key → Prop) (Q : Literal → Prop) : Prop where
  key {t : Token} {name : String} (ht : R t) (hkind : t.kind ≠ .eof) (hname : isKey name = true) :
      K ⟨name, t.line⟩
  mapping {t : Token} {es : List (Key × Literal)} (ht : R t) (hkind : t.kind ≠ .eof)
      (hes : ∀ e ∈ es, K e.1 ∧ Q e.2) : Q (.mapping t.line es)
  sequence {t : Token} {vs : List Literal} (ht : R t) (hkind : t.kind ≠ .eof)
      (hvs : ∀ v ∈ vs, Q v) : Q (.sequence t.line vs)
  constant {t : Token} (value : Scalar) (ht : R t) (hkind : t.kind = constantKind value) :
      Q (.constant t.line value)
  negate {t : Token} {v : Literal} (ht : R t) (hkind : t.kind ≠ .eof) (hv : Q v) :
      Q (.negate t.line v)
  reference {t : Token} (names : List String) (ht : R t) (hkind : t.kind ≠ .eof) :
      Q (.reference t.line names)

section Readers

variable {R : Token → Prop} {C : ∀ {α : Type}, (List Nat → α → Prop) → Descend α → Prop}
  (hC : Rules R C)
include hC

theorem Rules.expect (kind : TokenKind) {issue : TokenKind → SyntaxIssue}
    (hissue : ∀ found, Refusal (issue found)) : C (fun ns _ => ns = []) (expect kind issue) := by
  refine hC.bind hC.pass ?_
  rintro _ t ⟨rfl, ht⟩
  by_cases hkind : t.kind = kind
  · rw [if_pos hkind]
    exact hC.pure rfl
  · rw [if_neg hkind]
    exact hC.refuse ht (hissue t.kind)

theorem Rules.segments (fuel : Nat) : C (fun ns _ => ns = []) (segments fuel) := by
  induction fuel with
  | zero => exact hC.pure rfl
  | succ fuel ih =>
      rw [Literal.segments]
      refine hC.bind (hC.eat .dot) ?_
      rintro _ dotted rfl
      cases dotted with
      | false => exact hC.pure rfl
      | true =>
          refine hC.bind hC.pass ?_
          rintro _ t ⟨rfl, ht⟩
          have hmore : ∀ name,
              C (fun ns _ => ns = []) (do return name :: (← Literal.segments fuel)) := by
            intro name
            refine hC.bind ih ?_
            rintro _ names rfl
            exact hC.pure rfl
          cases hkind : t.kind with
          | ident name => exact hmore name
          | int index => exact hmore _
          | _ => exact hC.refuse ht trivial

variable {K : Key → Prop} {Q : Literal → Prop} (hQ : Grows R K Q)
include hQ

theorem Rules.key : C (fun ns k => ns = [k.line] ∧ K k) key := by
  refine hC.bind hC.advance ?_
  rintro _ t ⟨rfl, ht⟩
  -- a key is spelled as an identifier or as a text
  have hname : ∀ name, t.kind ≠ .eof →
      C (fun ms k => [t.line] ++ ms = [Key.line k] ∧ K k)
        (if isKey name then Pure.pure ⟨name, t.line⟩ else Literal.refuse t (.keyForm name)) := by
    intro name hkind
    by_cases hkey : isKey name = true
    · rw [if_pos hkey]
      exact hC.pure ⟨rfl, hQ.key ht hkind hkey⟩
    · rw [if_neg hkey]
      exact hC.refuse ht trivial
  cases hkind : t.kind with
  | ident name => exact hname name (by simp [hkind])
  | str name => exact hname name (by simp [hkind])
  | _ => exact hC.refuse ht trivial

variable {x : Descend Literal} (hx : C (fun ns l => ns = l.lines ∧ Q l) x)
include hx

theorem Rules.entries (fuel : Nat) :
    C (fun ns es => ns = linesOfEntries es ∧ ∀ e ∈ es, K e.1 ∧ Q e.2) (entries x fuel) := by
  induction fuel with
  | zero => exact hC.bind hC.peek fun _ t ht => hC.refuse ht.2 trivial
  | succ fuel ih =>
      rw [entries_succ]
      refine hC.bind (hC.eat .rbrace) ?_
      rintro _ closed rfl
      cases closed with
      | true => exact hC.pure ⟨rfl, List.forall_mem_nil _⟩
      | false =>
          refine hC.bind (hC.key hQ) ?_
          rintro _ k ⟨rfl, hk⟩
          refine hC.bind (hC.expect _ fun _ => by trivial) ?_
          rintro _ _ rfl
          refine hC.bind hx ?_
          rintro _ v ⟨rfl, hv⟩
          -- behind a comma the mapping goes on or is closed; without one it has to be closed
          refine hC.bind (hC.eat .comma) ?_
          rintro _ more rfl
          cases more with
          | true =>
              refine hC.bind ih ?_
              rintro _ rest ⟨rfl, hrest⟩
              refine hC.pure ⟨by simp [linesOfEntries], ?_⟩
              exact List.forall_mem_cons.mpr ⟨⟨hk, hv⟩, hrest⟩
          | false =>
              refine hC.bind (hC.expect _ fun _ => by trivial) ?_
              rintro _ _ rfl
              refine hC.pure ⟨by simp [linesOfEntries], ?_⟩
              exact List.forall_mem_singleton.mpr ⟨hk, hv⟩

omit hQ in
theorem Rules.items (fuel : Nat) :
    C (fun ns vs => ns = linesOfItems vs ∧ ∀ v ∈ vs, Q v) (items x fuel) := by
  induction fuel with
  | zero => exact hC.bind hC.peek fun _ t ht => hC.refuse ht.2 trivial
  | succ fuel ih =>
      rw [items_succ]
      refine hC.bind (hC.eat .rbracket) ?_
      rintro _ closed rfl
      cases closed with
      | true => exact hC.pure ⟨rfl, List.forall_mem_nil _⟩
      | false =>
          refine hC.bind hx ?_
          rintro _ v ⟨rfl, hv⟩
          refine hC.bind (hC.eat .comma) ?_
          rintro _ more rfl
          cases more with
          | true =>
              refine hC.bind ih ?_
              rintro _ rest ⟨rfl, hrest⟩
              refine hC.pure ⟨by simp [linesOfItems], ?_⟩
              exact List.forall_mem_cons.mpr ⟨hv, hrest⟩
          | false =>
              refine hC.bind (hC.expect _ fun _ => by trivial) ?_
              rintro _ _ rfl
              refine hC.pure ⟨by simp [linesOfItems], ?_⟩
              exact List.forall_mem_singleton.mpr hv

/-- The line of the token that was just taken comes before the lines of the parts. -/
theorem Rules.valueAt {t : Token} (ht : R t) :
    C (fun ns l => t.line :: ns = l.lines ∧ Q l) (valueAt x t) := by
  unfold Literal.valueAt
  -- the end of input starts no value
  cases hkind : t.kind with
  | lbrace =>
      refine hC.bind (hC.look _) ?_
      rintro _ fuel rfl
      refine hC.bind (hC.entries hQ hx fuel) ?_
      rintro _ es ⟨rfl, hes⟩
      exact hC.pure ⟨by simp [lines], hQ.mapping ht (by simp [hkind]) hes⟩
  | lbracket =>
      refine hC.bind (hC.look _) ?_
      rintro _ fuel rfl
      refine hC.bind (hC.items hx fuel) ?_
      rintro _ vs ⟨rfl, hvs⟩
      exact hC.pure ⟨by simp [lines], hQ.sequence ht (by simp [hkind]) hvs⟩
  | str s | int n | bool b =>
      exact hC.pure ⟨by rw [lines], hQ.constant _ ht hkind⟩
  | minus =>
      refine hC.bind hx ?_
      rintro _ v ⟨rfl, hv⟩
      exact hC.pure ⟨by simp [lines], hQ.negate ht (by simp [hkind]) hv⟩
  | ident first =>
      refine hC.bind (hC.look _) ?_
      rintro _ fuel rfl
      refine hC.bind (hC.segments fuel) ?_
      rintro _ names rfl
      exact hC.pure ⟨by simp [lines], hQ.reference _ ht (by simp [hkind])⟩
  | _ => exact hC.refuse ht trivial

omit hx

/-- **The induction over the descent**, on how many levels are left. -/
theorem Rules.value (limit fuel : Nat) :
    C (fun ns l => ns = l.lines ∧ Q l) (value limit fuel) := by
  induction fuel with
  | zero => exact hC.bind hC.peek fun _ t ht => hC.refuse ht.2 trivial
  | succ fuel ih =>
      rw [Literal.value]
      refine hC.bind hC.advance ?_
      rintro _ t ⟨rfl, ht⟩
      refine hC.bind (hC.look _) ?_
      rintro _ depth rfl
      by_cases hlimit : limit ≤ depth
      · rw [if_pos hlimit]
        exact hC.refuse ht trivial
      · rw [if_neg hlimit]
        exact hC.nested (hC.valueAt hQ ih ht)

theorem Rules.document (limit : Nat) :
    C (fun ns l => ns = l.lines ∧ Q l) (document limit) := by
  refine hC.bind (hC.value hQ limit (limit + 1)) ?_
  rintro _ v ⟨rfl, hv⟩
  refine hC.bind hC.peek ?_
  rintro _ t ⟨rfl, ht⟩
  by_cases hkind : t.kind = .eof
  · rw [if_pos hkind]
    exact hC.pure ⟨List.append_nil _, hv⟩
  · rw [if_neg hkind]
    exact hC.refuse ht trivial

end Readers

/-! ## Where the cursor goes -/

/-- The tokens from the cursor on. -/
def Descent.tokens (s : Descent) : List Token :=
  s.head :: s.rest

/-- The second state has the depth of the first, and its cursor is there or further on. -/
structure Descent.Onward (s s' : Descent) : Prop where
  depth : s'.depth = s.depth
  tokens : s'.tokens <:+ s.tokens

namespace Descent

variable {s s' s'' : Descent}

theorem Onward.refl (s : Descent) : s.Onward s :=
  ⟨rfl, List.suffix_rfl⟩

theorem Onward.trans (h : s.Onward s') (h' : s'.Onward s'') : s.Onward s'' :=
  ⟨h'.depth.trans h.depth, h'.tokens.trans h.tokens⟩

theorem Onward.rest_le (h : s.Onward s') : s'.rest.length ≤ s.rest.length :=
  Nat.le_of_succ_le_succ h.tokens.length_le

theorem onward_next (s : Descent) : s.Onward s.next := by
  unfold next
  split
  · exact .refl s
  · next t ts hrest =>
      refine ⟨rfl, ?_⟩
      rw [tokens, tokens, hrest]
      exact List.suffix_cons _ _

/-- The cursor moves on, unless it is on the last token. -/
theorem rest_next (s : Descent) :
    s.rest = [] ∧ s.next = s ∨ s.next.rest.length < s.rest.length := by
  unfold next
  split
  · next hrest => exact .inl ⟨hrest, rfl⟩
  · next t ts hrest =>
      rw [hrest]
      exact .inr (Nat.lt_succ_self _)

end Descent

/-! ## Lines between two places of the cursor -/

theorem pairwise_le_append {a b c : Nat} {ns ms : List Nat}
    (h : (a :: (ns ++ [b])).Pairwise (· ≤ ·)) (h' : (b :: (ms ++ [c])).Pairwise (· ≤ ·)) :
    (a :: (ns ++ ms ++ [c])).Pairwise (· ≤ ·) := by
  have hboth : (a :: ns ++ [b] ++ (ms ++ [c])).Pairwise (· ≤ ·) := by
    obtain ⟨hb, hlater⟩ := List.pairwise_cons.mp h'
    refine List.pairwise_append.mpr ⟨h, hlater, fun x hx y hy => ?_⟩
    rcases List.mem_append.mp hx with hx | hx
    · have hxb := (List.pairwise_append.mp (show (a :: ns ++ [b]).Pairwise _ from h)).2.2 x hx b
        (List.mem_singleton_self b)
      exact hxb.trans (hb y hy)
    · rw [List.mem_singleton.mp hx]
      exact hb y hy
  -- the line between the two parts is left out
  refine hboth.sublist ?_
  rw [List.append_assoc, List.append_assoc (a :: ns), ← List.cons_append]
  exact (List.Sublist.refl _).append (List.sublist_append_right _ _)

/-- The cursor moves onward from the first state to the second. If the tokens are in order, the
lines `ns` are in order and lie between its two places. -/
structure Descent.Spans (s : Descent) (ns : List Nat) (s' : Descent) : Prop where
  onward : s.Onward s'
  inOrder : Token.InOrder s.tokens → (s.head.line :: (ns ++ [s'.head.line])).Pairwise (· ≤ ·)

namespace Descent

variable {s s' s'' : Descent} {ns ms : List Nat}

theorem Onward.spans_nil (h : s.Onward s') : s.Spans [] s' where
  onward := h
  inOrder horder := by
    refine List.pairwise_pair.mpr ?_
    have hmem : s'.head ∈ s.head :: s.rest := h.tokens.subset List.mem_cons_self
    rcases List.mem_cons.mp hmem with hhead | hrest
    · rw [hhead]
    · rw [Token.InOrder, Descent.tokens, List.map_cons, List.pairwise_cons] at horder
      exact horder.1 _ (List.mem_map_of_mem hrest)

theorem Spans.append (h : s.Spans ns s') (h' : s'.Spans ms s'') : s.Spans (ns ++ ms) s'' where
  onward := h.onward.trans h'.onward
  inOrder horder := by
    refine pairwise_le_append (h.inOrder horder) (h'.inOrder ?_)
    exact horder.sublist (h.onward.tokens.sublist.map Token.line)

theorem spans_next (s : Descent) : s.Spans [s.head.line] s.next where
  onward := s.onward_next
  inOrder horder := by
    have hpair := List.pairwise_pair.mp (s.onward_next.spans_nil.inOrder horder)
    simp [hpair]

end Descent

/-- The step leaves the depth as it was and moves the cursor onward. If it returns, it has gathered
lines between the two places of the cursor, and `P` holds of them and of its result. -/
def Moves {α : Type} (P : List Nat → α → Prop) (x : Descend α) : Prop :=
  ∀ s, s.Onward (Step.run x s).2 ∧
    ∀ a, (Step.run x s).1 = .ok a → ∃ ns, s.Spans ns (Step.run x s).2 ∧ P ns a

theorem moves_eat (kind : TokenKind) : Moves (fun ns _ => ns = []) (eat kind) := by
  intro s
  rw [eat, Step.run_of]
  split
  · exact ⟨s.onward_next, fun _ _ => ⟨[], s.onward_next.spans_nil, rfl⟩⟩
  · exact ⟨.refl s, fun _ _ => ⟨[], (Descent.Onward.refl s).spans_nil, rfl⟩⟩

theorem rules_moves : Rules (fun _ => True) (fun P x => Moves P x) where
  pure h := fun s =>
    ⟨.refl s, fun _ ha => ⟨[], (Descent.Onward.refl s).spans_nil, Except.ok.inj ha ▸ h⟩⟩
  refuse _ _ := fun s => ⟨.refl s, by rintro _ ⟨⟩⟩
  bind {α β P Q x f} hx hf := by
    intro s
    obtain ⟨hfirst, hresult⟩ := hx s
    rw [Step.run_bind]
    rcases hrun : Step.run x s with ⟨e | a, s'⟩
    · rw [hrun] at hfirst
      exact ⟨hfirst, by rintro _ ⟨⟩⟩
    · rw [hrun] at hfirst hresult
      obtain ⟨ns, hns, ha⟩ := hresult a rfl
      obtain ⟨hsecond, hfinal⟩ := hf ns a ha s'
      refine ⟨hfirst.trans hsecond, fun b hb => ?_⟩
      obtain ⟨ms, hms, hq⟩ := hfinal b hb
      exact ⟨ns ++ ms, hns.append hms, hq⟩
  peek := fun s => ⟨.refl s, fun _ _ => ⟨[], (Descent.Onward.refl s).spans_nil, rfl, trivial⟩⟩
  advance := fun s => ⟨s.onward_next, by rintro _ ⟨⟩; exact ⟨_, s.spans_next, rfl, trivial⟩⟩
  pass := fun s => ⟨s.onward_next, fun _ _ => ⟨[], s.onward_next.spans_nil, rfl, trivial⟩⟩
  eat := moves_eat
  look f := fun s => ⟨.refl s, fun _ _ => ⟨[], (Descent.Onward.refl s).spans_nil, rfl⟩⟩
  nested {α P x} hx := by
    intro s
    obtain ⟨h, hresult⟩ := hx { s with depth := s.depth + 1 }
    have honward : s.Onward (Step.run (nested x) s).2 :=
      ⟨Nat.sub_eq_of_eq_add h.depth, h.tokens⟩
    refine ⟨honward, fun a ha => ?_⟩
    obtain ⟨ns, hns, hp⟩ := hresult a ha
    exact ⟨ns, ⟨honward, hns.inOrder⟩, hp⟩

/-- Nothing in particular is said of what is read. -/
theorem grows_trivial : Grows (fun _ => True) (fun _ => True) (fun _ => True) where
  key _ _ _ := trivial
  mapping _ _ _ := trivial
  sequence _ _ _ := trivial
  constant _ _ _ := trivial
  negate _ _ _ := trivial
  reference _ _ _ := trivial

/-! ## What is taken from tokens -/

/-- The tokens that are still to be read have the property. -/
def Descent.Holds (R : Token → Prop) (s : Descent) : Prop :=
  ∀ t ∈ s.head :: s.rest, R t

/-- The error is a refusal of a token with the property. -/
def RefusedAt (R : Token → Prop) (e : Error) : Prop :=
  ∃ t issue, R t ∧ Refusal issue ∧ e = .badSyntax (some t.line) issue

/-- The step reads tokens with the property only. It returns what `Q` says, or refuses such a
token. -/
def Keeps {α : Type} (R : Token → Prop) (Q : α → Prop) (x : Descend α) : Prop :=
  ∀ s, s.Holds R → (Step.run x s).2.Holds R ∧
    match (Step.run x s).1 with
    | .ok a => Q a
    | .error e => RefusedAt R e

section Keeps

variable {R : Token → Prop}

theorem Descent.Holds.next {s : Descent} (h : s.Holds R) : s.next.Holds R := by
  unfold Descent.next
  rcases hrest : s.rest with _ | ⟨t, ts⟩
  · exact h
  · intro u hu
    refine h u (List.mem_cons_of_mem _ ?_)
    rw [hrest]
    exact hu

/-- All steps of the descent read tokens of the list only. -/
theorem rules_keeps : Rules R (fun P x => Keeps R (fun a => ∃ ns, P ns a) x) where
  pure h := fun _ hs => ⟨hs, _, h⟩
  refuse ht hissue := fun _ hs => ⟨hs, _, _, ht, hissue, rfl⟩
  bind {α β P Q x f} hx hf := by
    intro s hs
    obtain ⟨hs', hresult⟩ := hx s hs
    rcases hrun : Step.run x s with ⟨e | a, s'⟩
    · rw [hrun] at hs' hresult
      rw [Step.run_bind_of_error hrun]
      exact ⟨hs', hresult⟩
    · rw [hrun] at hs' hresult
      obtain ⟨ns, ha⟩ := hresult
      have hrest := hf ns a ha s' hs'
      rw [Step.run_bind_of_ok hrun]
      rcases hrun' : Step.run (f a) s' with ⟨e | b, s''⟩
      · rw [hrun'] at hrest
        exact hrest
      · rw [hrun'] at hrest
        obtain ⟨hs'', ms, hb⟩ := hrest
        exact ⟨hs'', ns ++ ms, hb⟩
  peek := fun _ hs => ⟨hs, _, rfl, hs _ List.mem_cons_self⟩
  advance := fun _ hs => ⟨hs.next, _, rfl, hs _ List.mem_cons_self⟩
  pass := fun _ hs => ⟨hs.next, _, rfl, hs _ List.mem_cons_self⟩
  eat kind := by
    intro s hs
    rw [eat, Step.run_of]
    by_cases hkind : s.head.kind = kind
    · rw [if_pos hkind]
      exact ⟨hs.next, _, rfl⟩
    · rw [if_neg hkind]
      exact ⟨hs, _, rfl⟩
  look f := fun _ hs => ⟨hs, _, rfl⟩
  nested hx := fun s hs => hx { s with depth := s.depth + 1 } hs

end Keeps

/-- **What grows from the tokens of a list** is what the grammar makes of it, and its errors are
refusals of these tokens. -/
theorem ofTokens_keeps {R : Token → Prop} {K : Key → Prop} {Q : Literal → Prop}
    (hQ : Grows R K Q) (limit : Nat) {tokens : List Token} (hne : tokens ≠ [])
    (htokens : ∀ t ∈ tokens, R t) :
    (∀ l, ofTokens limit tokens = .ok l → Q l) ∧
      ∀ e, ofTokens limit tokens = .error e → RefusedAt R e := by
  obtain ⟨t, ts, rfl⟩ := List.exists_cons_of_ne_nil hne
  have hs : Descent.Holds R ⟨t, ts, 0⟩ := htokens
  obtain ⟨-, hresult⟩ := rules_keeps.document hQ limit _ hs
  constructor
  · intro l hl
    rw [show (Step.run (document limit) ⟨t, ts, 0⟩).1 = .ok l from hl] at hresult
    obtain ⟨_, -, hq⟩ := hresult
    exact hq
  · intro e he
    rw [show (Step.run (document limit) ⟨t, ts, 0⟩).1 = .error e from he] at hresult
    exact hresult

end Literal

end SiteConf
