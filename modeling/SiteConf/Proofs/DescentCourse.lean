import SiteConf.Proofs.DescentRules

set_option autoImplicit false

/-! # The course of the descent

The readers of `Literal.Grammar` count down fuel, and have an answer ready for when it is used up.
So they end by definition, and what they answer need not be what their loops come to. Here is the
descent without such answers. Its loops go on as long as the tokens tell them to; only the number of
calls that are open at a time is bounded, by its patience, and beyond that the descent is given up,
which is no answer. It ends if it has an answer with enough patience. It also keeps a record of its
course: every state that it comes to, and every call of the reader of values.

The cursor stays on the last token, so a loop could go round there for ever. It does not, since
every loop refuses the token that would let it go on: `descent_stays_in_range` says that the descent
ends on every token list, that it ends as the descent with fuel does, and where it has been.

`Tracks` says that an attempt ends from a state, with enough patience, and as a step of the descent
with fuel. It is shown part by part. The loops go by their fuel, which lasts as long as there are
tokens (`entries_tracks`, `items_tracks`, `segments_tracks`), and values by the levels that are left
(`value_tracks`). -/

namespace SiteConf.Literal

/-! ## Reading a value -/

theorem onward_value (limit fuel : Nat) (s : Descent) :
    s.Onward (Step.run (value limit fuel) s).2 :=
  (rules_moves.value grows_trivial limit fuel s).1

/-- A value is read one level further down, unless the limit is reached. -/
theorem run_value_succ (limit fuel : Nat) (s : Descent) :
    Step.run (value limit (fuel + 1)) s
      = if limit ≤ s.depth then (.error (.badSyntax (some s.head.line) (.tooDeep limit)), s.next)
        else Step.run (nested (valueAt (value limit fuel) s.head)) s.next := by
  have hadvance : Step.run advance s = (.ok s.head, s.next) := rfl
  have hdepth : Step.run (Step.of fun s => (.ok s.depth, s)) s.next
      = ((.ok s.depth, s.next) : Except Error Nat × Descent) := by
    rw [Step.run_of, s.onward_next.depth]
  rw [value, Step.run_bind_of_ok hadvance, Step.run_bind_of_ok hdepth]
  split <;> rfl

/-- Where a value is read there is neither a comma nor the end of input. -/
theorem kind_ne_of_value {limit fuel : Nat} {s s' : Descent} {l : Literal}
    (h : Step.run (value limit fuel) s = (.ok l, s')) :
    s.head.kind ≠ .comma ∧ s.head.kind ≠ .eof := by
  cases fuel with
  | zero => cases h
  | succ fuel =>
      rw [run_value_succ] at h
      have hrefused : ∀ issue, valueAt (value limit fuel) s.head ≠ refuse s.head issue := by
        intro issue hrefuse
        rw [hrefuse] at h
        split at h <;> cases h
      constructor
      all_goals
        intro hkind
        exact hrefused _ (by rw [valueAt, hkind])

/-- **Reading a value takes a token**, when the last token is the end of input: there no value can
be read, so the cursor is before it and moves on. -/
theorem rest_lt_of_value {limit fuel : Nat} {s s' : Descent} {l : Literal}
    (hlast : ∀ t ∈ s.tokens.getLast?, t.kind = .eof)
    (h : Step.run (value limit fuel) s = (.ok l, s')) : s'.rest.length < s.rest.length := by
  have hne := (kind_ne_of_value h).2
  cases fuel with
  | zero => cases h
  | succ fuel =>
      rcases s.rest_next with ⟨hrest, -⟩ | hnext
      · refine absurd (hlast s.head ?_) hne
        rw [Descent.tokens, hrest]
        rfl
      · rw [run_value_succ] at h
        split at h
        · cases h
        · have hvalue := rules_moves.value grows_trivial limit fuel
          have hdeeper := rules_moves.nested
            (rules_moves.valueAt grows_trivial hvalue (t := s.head) trivial) s.next
          rw [h] at hdeeper
          exact Nat.lt_of_le_of_lt hdeeper.1.rest_le hnext

/-! ## Attempts -/

def Descent.down (s : Descent) : Descent :=
  { s with depth := s.depth + 1 }

def Descent.up (s : Descent) : Descent :=
  { s with depth := s.depth - 1 }

theorem run_nested {α : Type} (x : Descend α) (s : Descent) :
    Step.run (nested x) s = ((Step.run x s.down).1, (Step.run x s.down).2.up) := rfl

/-- A call of the reader of values that has ended: the states it began and ended in, and what it
returned or failed with. -/
structure ValueCall where
  start : Descent
  outcome : Except Error Literal
  stop : Descent

/-- The course of a descent: the state it is in, all the states it has come to, and all the calls of
the reader of values that have ended. -/
structure Course where
  state : Descent
  trail : List Descent
  calls : List ValueCall

/-- The descent comes to a state. -/
def Course.goTo (s : Descent) (c : Course) : Course :=
  { c with state := s, trail := c.trail ++ [s] }

/-- A call of the reader of values has ended. -/
def Course.note (call : ValueCall) (c : Course) : Course :=
  { c with calls := c.calls ++ [call] }

/-- A step of a descent that keeps a record of its course, and that may be given up. -/
abbrev Attempt (α : Type) := ExceptT Error (StateT Course Option) α

namespace Attempt

variable {α β : Type}

def run (x : Attempt α) (c : Course) : Option (Except Error α × Course) :=
  StateT.run (ExceptT.run x) c

/-- The patience is at its end. -/
def giveUp : Attempt α :=
  ExceptT.mk fun _ => none

/-- A step on single tokens is recorded by the state it comes to. -/
def lift (x : Descend α) : Attempt α :=
  ExceptT.mk fun c => some ((Step.run x c.state).1, c.goTo (Step.run x c.state).2)

/-- The segments of a reference after the first. -/
def segments : (patience : Nat) → Attempt (List String)
  | 0 => giveUp
  | patience + 1 => do
      if ← lift (eat .dot) then
        let token ← lift advance
        match token.kind with
        | .ident name => return name :: (← segments patience)
        | .int index => return Number.showInt index :: (← segments patience)
        | other => lift (refuse token (.expectedName other))
      else
        return []

mutual

/-- Reads a value, one level deeper than it is called, and is back on the old level afterwards. -/
def value (limit : Nat) : (patience : Nat) → Attempt Literal
  | 0 => giveUp
  | patience + 1 => ExceptT.mk do
      let start := (← get).state
      modify (Course.goTo start.next)
      if limit ≤ start.depth then
        let outcome := .error (.badSyntax (some start.head.line) (.tooDeep limit))
        modify fun c => c.note ⟨start, outcome, c.state⟩
        return outcome
      else
        modify fun c => c.goTo c.state.down
        let outcome ← ExceptT.run (valueAt limit patience start.head)
        modify fun c => c.goTo c.state.up
        modify fun c => c.note ⟨start, outcome, c.state⟩
        return outcome

/-- The value that starts with a token that was just taken. -/
def valueAt (limit : Nat) (patience : Nat) (token : Token) : Attempt Literal :=
  match patience with
  | 0 => giveUp
  | patience + 1 =>
      match token.kind with
      | .lbrace => do return .mapping token.line (← entries limit patience)
      | .lbracket => do return .sequence token.line (← items limit patience)
      | .str s => pure (.constant token.line (.str s))
      | .int n => pure (.constant token.line (.int n))
      | .bool b => pure (.constant token.line (.bool b))
      | .minus => do return .negate token.line (← value limit patience)
      | .ident first => do return .reference token.line (first :: (← segments patience))
      | other => lift (refuse token (.expectedValue other))

/-- The entries of a mapping up to its closing brace. -/
def entries (limit : Nat) : (patience : Nat) → Attempt (List (Key × Literal))
  | 0 => giveUp
  | patience + 1 => do
      if ← lift (eat .rbrace) then
        return []
      let k ← lift key
      lift (expect .colon (.expectedColon k.name))
      let v ← value limit patience
      if ← lift (eat .comma) then
        return (k, v) :: (← entries limit patience)
      lift (expect .rbrace .unclosedMapping)
      return [(k, v)]

/-- The items of a sequence up to its closing bracket. -/
def items (limit : Nat) : (patience : Nat) → Attempt (List Literal)
  | 0 => giveUp
  | patience + 1 => do
      if ← lift (eat .rbracket) then
        return []
      let v ← value limit patience
      if ← lift (eat .comma) then
        return v :: (← items limit patience)
      lift (expect .rbracket .unclosedSequence)
      return [v]

end

/-- Reads a whole document: one value and nothing after it. -/
def document (limit patience : Nat) : Attempt Literal := do
  let v ← value limit patience
  lift do
    let token ← peek
    if token.kind = .eof then pure v else refuse token (.trailing token.kind)

/-- The literal that a token list denotes, and the course of the descent that reads it. -/
def ofTokens (limit patience : Nat) : List Token → Option (Except Error Literal × Course)
  | [] => none
  | t :: ts => run (document limit patience) ⟨⟨t, ts, 0⟩, [⟨t, ts, 0⟩], []⟩

/-! ### Running -/

theorem run_bind (x : Attempt α) (f : α → Attempt β) (c : Course) :
    run (x >>= f) c = (run x c).bind fun r =>
      match r with
      | (.ok a, c') => run (f a) c'
      | (.error e, c') => some (.error e, c') := by
  show ((run x c).bind fun r => (ExceptT.bindCont f r.1) r.2) = _
  congr 1
  funext r
  rcases r with ⟨e | a, c'⟩ <;> rfl

/-- How a call of the reader of values goes. -/
theorem run_value (limit patience : Nat) (c : Course) :
    run (value limit (patience + 1)) c =
      if limit ≤ c.state.depth then
        some (.error (.badSyntax (some c.state.head.line) (.tooDeep limit)),
          (c.goTo c.state.next).note ⟨c.state,
            .error (.badSyntax (some c.state.head.line) (.tooDeep limit)), c.state.next⟩)
      else
        (run (valueAt limit patience c.state.head)
          ((c.goTo c.state.next).goTo c.state.next.down)).map fun r =>
            (r.1, (r.2.goTo r.2.state.up).note ⟨c.state, r.1, r.2.state.up⟩) := by
  rw [value]
  show (if limit ≤ c.state.depth then _ else _ : StateT Course Option _) _ = _
  split
  · rfl
  · rw [Option.map_eq_bind]
    rfl

/-- A call of the reader of values that ends is noted. -/
theorem exists_call_of_value {limit patience : Nat} {c c' : Course} {r : Except Error Literal}
    (h : run (value limit patience) c = some (r, c')) :
    ∃ call ∈ c'.calls, call.start = c.state ∧ call.outcome = r := by
  cases patience with
  | zero => cases h
  | succ patience =>
      rw [run_value] at h
      split at h
      · cases h
        exact ⟨_, List.mem_append_right _ (List.mem_singleton_self _), rfl, rfl⟩
      · obtain ⟨inner, -, hinner⟩ := Option.map_eq_some_iff.mp h
        cases hinner
        exact ⟨_, List.mem_append_right _ (List.mem_singleton_self _), rfl, rfl⟩

/-- A document is read by a call of the reader of values. -/
theorem exists_call_of_document {limit patience : Nat} {c c' : Course} {r : Except Error Literal}
    (h : run (document limit patience) c = some (r, c')) :
    ∃ call ∈ c'.calls, call.start = c.state ∧ ∀ l, r = .ok l → call.outcome = .ok l := by
  rw [document, run_bind] at h
  obtain ⟨⟨e | v, c₁⟩, hvalue, hrest⟩ := Option.bind_eq_some_iff.mp h
  all_goals
    obtain ⟨call, hcall, hstart, houtcome⟩ := exists_call_of_value hvalue
    cases hrest
    refine ⟨call, hcall, hstart, ?_⟩
  · rintro l ⟨⟩
  · -- the token after the value decides whether the value is returned
    intro l hl
    have hpeek : Step.run peek c₁.state = (.ok c₁.state.head, c₁.state) := rfl
    rw [Step.run_bind_of_ok hpeek] at hl
    split at hl
    · exact houtcome.trans hl
    · cases hl

end Attempt

/-! ## Where a descent may be -/

/-- A state in which a descent through the tokens may be. -/
structure Descent.Within (tokens : List Token) (limit : Nat) (s : Descent) : Prop where
  depth : s.depth ≤ limit
  tokens : s.tokens <:+ tokens

theorem Descent.Within.onward {tokens : List Token} {limit : Nat} {s s' : Descent}
    (h : s.Within tokens limit) (h' : s.Onward s') : s'.Within tokens limit :=
  ⟨h'.depth ▸ h.depth, h'.tokens.trans h.tokens⟩

/-- What a call of the reader of values does to the state: it ends as a run of the reader with fuel,
leaves the depth as it was and does not move the cursor back. Where the last token is an end of
input, it moves the cursor on if it returns. -/
structure ValueCall.Fair (tokens : List Token) (limit : Nat) (call : ValueCall) : Prop where
  start : call.start.tokens <:+ tokens
  run : ∃ levels, Step.run (value limit levels) call.start = (call.outcome, call.stop)
  onward : call.start.Onward call.stop
  progress : (∀ t ∈ tokens.getLast?, t.kind = .eof) → ∀ l, call.outcome = .ok l →
    call.stop.rest.length < call.start.rest.length

theorem getLast_of_suffix {α : Type} {xs ys : List α} {a : α} (h : xs <:+ ys)
    (ha : a ∈ xs.getLast?) : a ∈ ys.getLast? := by
  obtain ⟨taken, rfl⟩ := h
  rw [List.getLast?_append, Option.mem_def.mp ha]
  rfl

theorem fair_value {tokens : List Token} (limit fuel : Nat) {s : Descent}
    (hs : s.tokens <:+ tokens) :
    ValueCall.Fair tokens limit
      ⟨s, (Step.run (value limit fuel) s).1, (Step.run (value limit fuel) s).2⟩ where
  start := hs
  run := ⟨fuel, rfl⟩
  onward := onward_value limit fuel s
  progress hlast l hl := by
    have hend : ∀ t ∈ s.tokens.getLast?, t.kind = .eof := fun t ht =>
      hlast t (getLast_of_suffix hs ht)
    exact rest_lt_of_value hend (Prod.ext hl rfl)

/-! ## Attempts end as the steps of the descent -/

section Tracking

variable {α β : Type} {tokens : List Token} {limit : Nat}

/-- From the state `s` the attempt `y` ends, whatever its patience is from some number on, and as
the step `x` does. All the states it comes to are within the tokens and the limit, and all its calls
of the reader of values are fair. -/
def Tracks (tokens : List Token) (limit : Nat) (y : Nat → Attempt α) (x : Descend α) (s : Descent) :
    Prop :=
  s.Onward (Step.run x s).2 ∧ ∃ enough trail calls,
    (∀ d ∈ trail, d.Within tokens limit) ∧ (∀ call ∈ calls, call.Fair tokens limit) ∧
      ∀ patience, enough ≤ patience → ∀ c : Course, c.state = s → (y patience).run c
        = some ((Step.run x s).1, ⟨(Step.run x s).2, c.trail ++ trail, c.calls ++ calls⟩)

/-- A call takes some patience. -/
theorem tracks_call {y : Nat → Attempt α} {x : Descend α} {s : Descent}
    (h : Tracks tokens limit (fun patience => y (patience + 1)) x s) :
    Tracks tokens limit y x s := by
  obtain ⟨honward, enough, trail, calls, htrail, hcalls, hrun⟩ := h
  refine ⟨honward, enough + 1, trail, calls, htrail, hcalls, fun patience henough => ?_⟩
  obtain ⟨patience, rfl⟩ : ∃ n, patience = n + 1 := ⟨patience - 1, by omega⟩
  exact hrun patience (Nat.le_of_succ_le_succ henough)

theorem tracks_pure (a : α) (s : Descent) :
    Tracks tokens limit (fun _ => pure a) (pure a) s := by
  refine ⟨.refl s, 0, [], [], List.forall_mem_nil _, List.forall_mem_nil _, fun _ _ => ?_⟩
  rintro c rfl
  rw [List.append_nil, List.append_nil]
  rfl

theorem tracks_lift {x : Descend α} {s : Descent} (hs : s.Within tokens limit)
    (hx : s.Onward (Step.run x s).2) : Tracks tokens limit (fun _ => .lift x) x s := by
  refine ⟨hx, 0, [(Step.run x s).2], [], ?_, List.forall_mem_nil _, fun _ _ => ?_⟩
  · exact List.forall_mem_singleton.mpr (hs.onward hx)
  · rintro c rfl
    rw [List.append_nil]
    rfl

theorem tracks_refuse {s : Descent} (hs : s.Within tokens limit) (t : Token) (issue : SyntaxIssue) :
    Tracks tokens limit (fun _ => (.lift (refuse t issue) : Attempt α)) (refuse t issue) s :=
  tracks_lift hs (.refl s)

theorem tracks_bind {y : Nat → Attempt α} {x : Descend α} {g : Nat → α → Attempt β}
    {f : α → Descend β} {s : Descent} (hx : Tracks tokens limit y x s)
    (hf : ∀ a s', Step.run x s = (.ok a, s') → s.Onward s' →
      Tracks tokens limit (fun patience => g patience a) (f a) s') :
    Tracks tokens limit (fun patience => y patience >>= g patience) (x >>= f) s := by
  obtain ⟨honward, enough, trail, calls, htrail, hcalls, hrun⟩ := hx
  rcases hfirst : Step.run x s with ⟨e | a, s'⟩
  · rw [hfirst] at honward
    rw [Tracks, Step.run_bind_of_error hfirst]
    refine ⟨honward, enough, trail, calls, htrail, hcalls, fun patience henough c hc => ?_⟩
    rw [Attempt.run_bind, hrun patience henough c hc, hfirst]
    rfl
  · rw [hfirst] at honward
    obtain ⟨honward', enough', trail', calls', htrail', hcalls', hrun'⟩ := hf a s' hfirst honward
    rw [Tracks, Step.run_bind_of_ok hfirst]
    refine ⟨honward.trans honward', max enough enough', trail ++ trail', calls ++ calls', ?_, ?_,
      fun patience henough c hc => ?_⟩
    · exact List.forall_mem_append.mpr ⟨htrail, htrail'⟩
    · exact List.forall_mem_append.mpr ⟨hcalls, hcalls'⟩
    · -- the two parts are not nested, so the larger patience is enough for both
      obtain ⟨hle, hle'⟩ := max_le_iff.mp henough
      rw [Attempt.run_bind, hrun patience hle c hc, hfirst, ← List.append_assoc,
        ← List.append_assoc]
      exact hrun' patience hle' _ rfl

/-- The fuel of a loop is looked up at its start. -/
theorem tracks_budget {y : Nat → Attempt α} {f : Nat → Descend α} {s : Descent}
    (h : Tracks tokens limit y (f (s.rest.length + 2)) s) :
    Tracks tokens limit y (budget >>= f) s :=
  h

/-! ### Steps on a few tokens -/

theorem run_eat {kind : TokenKind} {s s' : Descent} {found : Bool}
    (h : Step.run (eat kind) s = (.ok found, s')) :
    found = true ∧ s.head.kind = kind ∧ s' = s.next ∨ found = false ∧ s' = s := by
  rw [eat, Step.run_of] at h
  split at h
  · next hkind =>
      cases h
      exact .inl ⟨rfl, hkind, rfl⟩
  · cases h
    exact .inr ⟨rfl, rfl⟩

/-- A comma is no key. -/
theorem kind_ne_of_key {s s' : Descent} {k : Key} (h : Step.run key s = (.ok k, s')) :
    s.head.kind ≠ .comma := by
  intro hkind
  have hadvance : Step.run advance s = (.ok s.head, s.next) := rfl
  rw [key, Step.run_bind_of_ok hadvance, hkind] at h
  cases h

theorem tracks_eat {s : Descent} (hs : s.Within tokens limit) (kind : TokenKind) :
    Tracks tokens limit (fun _ => .lift (eat kind)) (eat kind) s :=
  tracks_lift hs (moves_eat kind s).1

theorem tracks_advance {s : Descent} (hs : s.Within tokens limit) :
    Tracks tokens limit (fun _ => .lift advance) advance s :=
  tracks_lift hs s.onward_next

theorem tracks_expect {s : Descent} (hs : s.Within tokens limit) (kind : TokenKind)
    {issue : TokenKind → SyntaxIssue} (hissue : ∀ found, Refusal (issue found)) :
    Tracks tokens limit (fun _ => .lift (expect kind issue)) (expect kind issue) s :=
  tracks_lift hs (rules_moves.expect kind hissue s).1

/-! ### Loops -/

theorem segments_tracks (fuel : Nat) : ∀ {s : Descent}, s.Within tokens limit →
    s.rest.length < fuel → Tracks tokens limit Attempt.segments (segments fuel) s := by
  induction fuel with
  | zero => exact fun _ hfuel => absurd hfuel (Nat.not_lt_zero _)
  | succ fuel ih =>
      intro s hs hfuel
      rw [segments]
      refine tracks_call ?_
      simp only [Attempt.segments]
      refine tracks_bind (tracks_eat hs .dot) fun dotted s₁ heat h₁ => ?_
      rcases run_eat heat with ⟨rfl, hdot, rfl⟩ | ⟨rfl, rfl⟩
      · have hs₁ := hs.onward h₁
        refine tracks_bind (tracks_advance hs₁) fun t s₂ hadvance h₂ => ?_
        obtain ⟨rfl, rfl⟩ : t = s.next.head ∧ s₂ = s.next.next := by
          cases hadvance
          exact ⟨rfl, rfl⟩
        have hs₂ := hs₁.onward h₂
        -- where the cursor is stuck on the dot, the name after it is missing
        have hloop : s.next.head.kind ≠ .dot →
            Tracks tokens limit Attempt.segments (segments fuel) s.next.next := by
          intro hname
          refine ih hs₂ ?_
          rcases s.rest_next with ⟨-, hstuck⟩ | hmoved
          · rw [hstuck] at hname
            exact absurd hdot hname
          · have := h₂.rest_le
            omega
        cases hkind : s.next.head.kind with
        | ident name =>
            exact tracks_bind (hloop (by simp [hkind])) fun _ _ _ _ => tracks_pure _ _
        | int index =>
            exact tracks_bind (hloop (by simp [hkind])) fun _ _ _ _ => tracks_pure _ _
        | _ => exact tracks_refuse hs₂ _ _
      · exact tracks_pure _ _

/-- The fuel lasts for a loop over parts with commas between them. One round is left when the cursor
is stuck on a comma, and that round fails. -/
def Lasts (fuel : Nat) (s : Descent) : Prop :=
  s.rest.length + 2 ≤ fuel ∨ 1 ≤ fuel ∧ s.head.kind = .comma

theorem Lasts.pos {fuel : Nat} {s : Descent} (h : Lasts fuel s) : fuel ≠ 0 := by
  rcases h with h | h <;> omega

/-- A round that is not stuck leaves fuel for the next. -/
theorem Lasts.next {fuel : Nat} {s s' : Descent} (h : Lasts (fuel + 1) s)
    (hfree : s.head.kind ≠ .comma) (honward : s.Onward s') (hcomma : s'.head.kind = .comma) :
    Lasts fuel s'.next := by
  rcases h with h | ⟨-, hstuck⟩
  · have hle := honward.rest_le
    rcases s'.rest_next with ⟨-, hsame⟩ | hmoved
    · rw [hsame]
      exact .inr ⟨by omega, hcomma⟩
    · exact .inl (by omega)
  · exact absurd hstuck hfree

section

variable {levels depth : Nat}
  (hvalue : ∀ {s : Descent}, s.Within tokens limit → s.depth = depth →
    Tracks tokens limit (Attempt.value limit) (value limit levels) s)
include hvalue

theorem entries_tracks (fuel : Nat) : ∀ {s : Descent}, s.Within tokens limit → s.depth = depth →
    Lasts fuel s →
    Tracks tokens limit (Attempt.entries limit) (entries (value limit levels) fuel) s := by
  induction fuel with
  | zero => exact fun _ _ hlasts => absurd rfl hlasts.pos
  | succ fuel ih =>
      intro s hs hdepth hlasts
      rw [entries_succ]
      refine tracks_call ?_
      simp only [Attempt.entries]
      refine tracks_bind (tracks_eat hs .rbrace) fun closed s₁ heat h₁ => ?_
      rcases run_eat heat with ⟨rfl, -, -⟩ | ⟨rfl, rfl⟩
      · exact tracks_pure _ _
      · refine tracks_bind (tracks_lift hs (rules_moves.key grows_trivial s₁).1)
          fun k s₂ hkey h₂ => ?_
        have hs₂ := hs.onward h₂
        refine tracks_bind (tracks_expect hs₂ .colon fun _ => by trivial) fun _ s₃ _ h₃ => ?_
        have hs₃ := hs₂.onward h₃
        have hdepth₃ : s₃.depth = depth := (h₂.trans h₃).depth.trans hdepth
        refine tracks_bind (hvalue hs₃ hdepth₃) fun v s₄ _ h₄ => ?_
        have hs₄ := hs₃.onward h₄
        refine tracks_bind (tracks_eat hs₄ .comma) fun more s₅ hmore h₅ => ?_
        have hs₅ := hs₄.onward h₅
        rcases run_eat hmore with ⟨rfl, hcomma, rfl⟩ | ⟨rfl, rfl⟩
        · -- a key was read, so the round did not begin on a comma where the cursor is stuck
          have hround := (h₂.trans h₃).trans h₄
          have hnext := hlasts.next (kind_ne_of_key hkey) hround hcomma
          have hdepth₅ : s₄.next.depth = depth := (hround.trans h₅).depth.trans hdepth
          exact tracks_bind (ih hs₅ hdepth₅ hnext) fun _ _ _ _ => tracks_pure _ _
        · refine tracks_bind (tracks_expect hs₄ .rbrace fun _ => by trivial) fun _ _ _ _ => ?_
          exact tracks_pure _ _

theorem items_tracks (fuel : Nat) : ∀ {s : Descent}, s.Within tokens limit → s.depth = depth →
    Lasts fuel s →
    Tracks tokens limit (Attempt.items limit) (items (value limit levels) fuel) s := by
  induction fuel with
  | zero => exact fun _ _ hlasts => absurd rfl hlasts.pos
  | succ fuel ih =>
      intro s hs hdepth hlasts
      rw [items_succ]
      refine tracks_call ?_
      simp only [Attempt.items]
      refine tracks_bind (tracks_eat hs .rbracket) fun closed s₁ heat h₁ => ?_
      rcases run_eat heat with ⟨rfl, -, -⟩ | ⟨rfl, rfl⟩
      · exact tracks_pure _ _
      · refine tracks_bind (hvalue hs hdepth) fun v s₂ hread h₂ => ?_
        have hs₂ := hs.onward h₂
        refine tracks_bind (tracks_eat hs₂ .comma) fun more s₃ hmore h₃ => ?_
        have hs₃ := hs₂.onward h₃
        rcases run_eat hmore with ⟨rfl, hcomma, rfl⟩ | ⟨rfl, rfl⟩
        · -- as for entries, but here it is the value that is not read from a comma
          have hnext := hlasts.next (kind_ne_of_value hread).1 h₂ hcomma
          have hdepth₃ : s₂.next.depth = depth := (h₂.trans h₃).depth.trans hdepth
          exact tracks_bind (ih hs₃ hdepth₃ hnext) fun _ _ _ _ => tracks_pure _ _
        · refine tracks_bind (tracks_expect hs₂ .rbracket fun _ => by trivial) fun _ _ _ _ => ?_
          exact tracks_pure _ _

/-! ### Values -/

theorem valueAt_tracks {s : Descent} (hs : s.Within tokens limit) (hdepth : s.depth = depth)
    (t : Token) :
    Tracks tokens limit (fun patience => .valueAt limit patience t)
      (valueAt (value limit levels) t) s := by
  rw [valueAt]
  refine tracks_call ?_
  simp only [Attempt.valueAt]
  have hlasts : Lasts (s.rest.length + 2) s := .inl (Nat.le_refl _)
  cases t.kind with
  | lbrace =>
      refine tracks_budget (tracks_bind (entries_tracks hvalue _ hs hdepth hlasts) ?_)
      exact fun _ _ _ _ => tracks_pure _ _
  | lbracket =>
      refine tracks_budget (tracks_bind (items_tracks hvalue _ hs hdepth hlasts) ?_)
      exact fun _ _ _ _ => tracks_pure _ _
  | str s | int n | bool b => exact tracks_pure _ _
  | minus => exact tracks_bind (hvalue hs hdepth) fun _ _ _ _ => tracks_pure _ _
  | ident first =>
      refine tracks_budget (tracks_bind (segments_tracks _ hs (by omega)) ?_)
      exact fun _ _ _ _ => tracks_pure _ _
  | _ => exact tracks_refuse hs _ _

end

/-- **Reading a value ends**, by induction on the levels that are left. -/
theorem value_tracks (levels : Nat) : ∀ {s : Descent}, s.Within tokens limit →
    limit - s.depth < levels →
    Tracks tokens limit (Attempt.value limit) (value limit levels) s := by
  induction levels with
  | zero => exact fun _ hlevels => absurd hlevels (Nat.not_lt_zero _)
  | succ levels ih =>
      intro s hs hlevels
      have hfair := fair_value limit (levels + 1) hs.tokens
      have honward := onward_value limit (levels + 1) s
      have hnext := hs.onward s.onward_next
      refine tracks_call ?_
      rw [Tracks]
      rw [run_value_succ] at hfair honward ⊢
      by_cases hdeep : limit ≤ s.depth
      · rw [if_pos hdeep] at hfair honward ⊢
        refine ⟨honward, 0, [s.next], [_], ?_, List.forall_mem_singleton.mpr hfair, fun _ _ => ?_⟩
        · exact List.forall_mem_singleton.mpr hnext
        · rintro c rfl
          rw [Attempt.run_value, if_pos hdeep]
          rfl
      · rw [if_neg hdeep, run_nested] at hfair honward ⊢
        have hdepth := s.onward_next.depth
        -- one level further down the limit is still kept
        have hdown : s.next.down.Within tokens limit :=
          ⟨by show s.next.depth + 1 ≤ limit; omega, hnext.tokens⟩
        have hvalue : ∀ {d : Descent}, d.Within tokens limit → d.depth = s.next.down.depth →
            Tracks tokens limit (Attempt.value limit) (value limit levels) d := by
          intro d hd hlevel
          have hlevel : d.depth = s.next.depth + 1 := hlevel
          exact ih hd (by omega)
        obtain ⟨-, enough, trail, calls, htrail, hcalls, hrun⟩ :=
          valueAt_tracks hvalue hdown rfl s.head
        set inner := Step.run (valueAt (value limit levels) s.head) s.next.down
        -- the call is noted when it is back on its level, so after the calls inside it
        refine ⟨honward, enough, s.next :: s.next.down :: (trail ++ [inner.2.up]),
          calls ++ [⟨s, inner.1, inner.2.up⟩], ?_, ?_, fun patience henough => ?_⟩
        · have hup := List.forall_mem_singleton.mpr (hs.onward honward)
          have hlater := List.forall_mem_append.mpr ⟨htrail, hup⟩
          exact List.forall_mem_cons.mpr ⟨hnext, List.forall_mem_cons.mpr ⟨hdown, hlater⟩⟩
        · exact List.forall_mem_append.mpr ⟨hcalls, List.forall_mem_singleton.mpr hfair⟩
        · rintro c rfl
          rw [Attempt.run_value, if_neg hdeep, hrun patience henough _ rfl]
          simp [Course.goTo, Course.note]

theorem document_tracks {s : Descent} (hs : s.Within tokens limit) (hdepth : s.depth = 0) :
    Tracks tokens limit (Attempt.document limit) (document limit) s := by
  refine tracks_bind (value_tracks (limit + 1) hs (by omega)) fun v s₁ _ h₁ => ?_
  have hs₁ := hs.onward h₁
  refine tracks_lift hs₁ ?_
  have hpeek : Step.run peek s₁ = (.ok s₁.head, s₁) := rfl
  rw [Step.run_bind_of_ok hpeek]
  split <;> exact .refl s₁

end Tracking

/-! ## Positions -/

/-- The cursor of the state is on the token at a position of the list. -/
def Descent.On (tokens : List Token) (position : Nat) (s : Descent) : Prop :=
  tokens.drop position = s.tokens

theorem Descent.exists_on {tokens : List Token} {s : Descent} (h : s.tokens <:+ tokens) :
    ∃ position, position + s.rest.length = tokens.length - 1 ∧ s.On tokens position := by
  obtain ⟨taken, rfl⟩ := h
  refine ⟨taken.length, ?_, List.drop_left⟩
  rw [List.length_append, Descent.tokens, List.length_cons]
  rfl

theorem Descent.On.within {tokens : List Token} {position limit : Nat} {s : Descent}
    (h : s.On tokens position) (hdepth : s.depth ≤ limit) : s.Within tokens limit :=
  ⟨hdepth, h ▸ List.drop_suffix position tokens⟩

/-- Where a call of the reader of values begins and ends. -/
theorem ValueCall.Fair.exists_positions {tokens : List Token} {limit : Nat} {call : ValueCall}
    (h : call.Fair tokens limit) :
    ∃ p q, call.start.On tokens p ∧ call.stop.On tokens q ∧ p ≤ q ∧ q ≤ tokens.length - 1 ∧
      ∀ ts last, tokens = ts ++ [last] → last.kind = .eof →
        ∀ l, call.outcome = .ok l → p + 1 ≤ q ∧ q ≤ ts.length := by
  obtain ⟨p, hp, hstarts⟩ := Descent.exists_on h.start
  obtain ⟨q, hq, hstops⟩ := Descent.exists_on (h.onward.tokens.trans h.start)
  have hle := h.onward.rest_le
  refine ⟨p, q, hstarts, hstops, by omega, by omega, fun ts last hsplit hlast l hl => ?_⟩
  have heof : ∀ t ∈ tokens.getLast?, t.kind = .eof := by
    rw [hsplit, List.getLast?_concat]
    rintro t ⟨⟩
    exact hlast
  have hlt := h.progress heof l hl
  have hlength : tokens.length = ts.length + 1 := by
    rw [hsplit, List.length_append, List.length_singleton]
  omega

/-- **The descent ends on every token list, and stays on its tokens and within the limit.**

With enough patience it is not given up, and ends as the descent with fuel does, with the same
result and in the same state. In every state that it comes to the depth is within the limit and the
cursor is on a token of the list. Every call of the reader of values, whether it returns or fails,
is a run of the reader with fuel, leaves the depth as it was and does not move the cursor back; one
of these calls, from the first token, is that for the whole document. If the last token is the only
end of input, a call that returns moves the cursor on by one token at least, and not past that end.

The reader of values with fuel leaves the depth as it was from every state. From every state on a
token of the list and within the limit, the reader without fuel comes to the same end. -/
theorem descent_stays_in_range (limit : Nat) (tokens : List Token) (hne : tokens ≠ []) :
    (∃ (enough : Nat) (course : Course),
      (∀ patience, enough ≤ patience →
        Attempt.ofTokens limit patience tokens = some (ofTokens limit tokens, course)) ∧
      (∀ t ts, tokens = t :: ts →
        Step.run (document limit) ⟨t, ts, 0⟩ = (ofTokens limit tokens, course.state)) ∧
      (∀ s ∈ course.trail, s.depth ≤ limit ∧ ∃ p ≤ tokens.length - 1, s.On tokens p) ∧
      (∃ call ∈ course.calls, call.start.On tokens 0 ∧ call.start.depth = 0 ∧
        ∀ l, ofTokens limit tokens = .ok l → call.outcome = .ok l) ∧
      ∀ call ∈ course.calls, call.stop.depth = call.start.depth ∧
        (∃ levels, Step.run (value limit levels) call.start = (call.outcome, call.stop)) ∧
        ∃ p q, call.start.On tokens p ∧ call.stop.On tokens q ∧ p ≤ q ∧ q ≤ tokens.length - 1 ∧
          ∀ ts last, tokens = ts ++ [last] → last.kind = .eof → (∀ t ∈ ts, t.kind ≠ .eof) →
            ∀ l, call.outcome = .ok l → p + 1 ≤ q ∧ q ≤ ts.length) ∧
    ∀ (levels : Nat) (s : Descent), (Step.run (value limit levels) s).2.depth = s.depth ∧
      ∀ p, s.On tokens p → s.depth ≤ limit → limit - s.depth < levels →
        ∃ enough, ∀ patience, enough ≤ patience → ∀ c : Course, c.state = s →
          ∃ c' : Course, (Attempt.value limit patience).run c
              = some ((Step.run (value limit levels) s).1, c') ∧
            c'.state = (Step.run (value limit levels) s).2 := by
  constructor
  · obtain ⟨t, ts, rfl⟩ := List.exists_cons_of_ne_nil hne
    have hstart : Descent.Within (t :: ts) limit ⟨t, ts, 0⟩ := ⟨Nat.zero_le _, List.suffix_rfl⟩
    obtain ⟨-, enough, trail, calls, htrail, hcalls, hrun⟩ := document_tracks hstart rfl
    have hends : ∀ patience, enough ≤ patience → Attempt.ofTokens limit patience (t :: ts) = _ :=
      fun patience henough => hrun patience henough _ rfl
    refine ⟨enough, _, hends, ?_, ?_, ?_, ?_⟩
    · rintro _ _ ⟨⟩
      rfl
    · have hall := List.forall_mem_append.mpr ⟨List.forall_mem_singleton.mpr hstart, htrail⟩
      intro s hs
      obtain ⟨p, hp, hon⟩ := Descent.exists_on (hall s hs).tokens
      exact ⟨(hall s hs).depth, p, by omega, hon⟩
    · obtain ⟨call, hcall, hfirst, houtcome⟩ :=
        Attempt.exists_call_of_document (hends enough (Nat.le_refl _))
      refine ⟨call, hcall, ?_, ?_, houtcome⟩
      · rw [hfirst]
        rfl
      · rw [hfirst]
    · intro call hcall
      have hfair := hcalls call hcall
      obtain ⟨p, q, hstarts, hstops, hle, hq, hprogress⟩ := hfair.exists_positions
      refine ⟨hfair.onward.depth, hfair.run, p, q, hstarts, hstops, hle, hq, ?_⟩
      -- that there is no other end of input is not needed: the cursor cannot pass the last token
      exact fun earlier last hsplit hlast _ => hprogress earlier last hsplit hlast
  · intro levels s
    refine ⟨(onward_value limit levels s).depth, fun p hon hdepth hlevels => ?_⟩
    obtain ⟨-, enough, trail, calls, -, -, hrun⟩ := value_tracks levels (hon.within hdepth) hlevels
    exact ⟨enough, fun patience henough c hc => ⟨_, hrun patience henough c hc, rfl⟩⟩

/-- On a lone minus sign the cursor cannot move, and the descent goes down until the limit; on `-1`
it moves on with every value that it reads, from whichever token it starts. -/
theorem descent_stays_in_range_minus :
    (∃ (enough : Nat) (course : Course),
      (∀ patience, enough ≤ patience → Attempt.ofTokens 2 patience [⟨.minus, 1⟩]
        = some (.error (.badSyntax (some 1) (.tooDeep 2)), course)) ∧
      ∀ s ∈ course.trail, s.depth ≤ 2 ∧ ∃ p ≤ 0, s.On [⟨.minus, 1⟩] p) ∧
    (∃ (enough : Nat) (course : Course),
      (∀ patience, enough ≤ patience →
        Attempt.ofTokens 2 patience [⟨.minus, 1⟩, ⟨.int 1, 1⟩, ⟨.eof, 1⟩]
          = some (.ok (.negate 1 (.constant 1 (.int 1))), course)) ∧
      ∃ call ∈ course.calls, ∃ p q,
        call.start.On [⟨.minus, 1⟩, ⟨.int 1, 1⟩, ⟨.eof, 1⟩] p ∧
        call.stop.On [⟨.minus, 1⟩, ⟨.int 1, 1⟩, ⟨.eof, 1⟩] q ∧ p + 1 ≤ q ∧ q ≤ 2) ∧
    ∃ enough, ∀ patience, enough ≤ patience → ∃ c' : Course,
      (Attempt.value 2 patience).run ⟨⟨⟨.int 1, 1⟩, [⟨.eof, 1⟩], 1⟩, [], []⟩
        = some (.ok (.constant 1 (.int 1)), c') ∧ c'.state = ⟨⟨.eof, 1⟩, [], 1⟩ := by
  refine ⟨?_, ?_, ?_⟩
  · obtain ⟨⟨enough, course, hends, -, htrail, -⟩, -⟩ :=
      descent_stays_in_range 2 [⟨.minus, 1⟩] (List.cons_ne_nil _ _)
    exact ⟨enough, course, hends, htrail⟩
  · obtain ⟨⟨enough, course, hends, -, -, ⟨call, hcall, -, -, hresult⟩, hcalls⟩, -⟩ :=
      descent_stays_in_range 2 [⟨.minus, 1⟩, ⟨.int 1, 1⟩, ⟨.eof, 1⟩] (List.cons_ne_nil _ _)
    obtain ⟨-, -, p, q, hp, hq, -, -, hprogress⟩ := hcalls call hcall
    refine ⟨enough, course, hends, call, hcall, p, q, hp, hq, ?_⟩
    exact hprogress [⟨.minus, 1⟩, ⟨.int 1, 1⟩] ⟨.eof, 1⟩ rfl rfl (by decide) _ (hresult _ rfl)
  · obtain ⟨-, hvalue⟩ :=
      descent_stays_in_range 2 [⟨.minus, 1⟩, ⟨.int 1, 1⟩, ⟨.eof, 1⟩] (List.cons_ne_nil _ _)
    obtain ⟨-, hends⟩ := hvalue 2 ⟨⟨.int 1, 1⟩, [⟨.eof, 1⟩], 1⟩
    obtain ⟨enough, hrun⟩ := hends 1 rfl (by decide) (by decide)
    exact ⟨enough, fun patience henough => hrun patience henough _ rfl⟩

end SiteConf.Literal
