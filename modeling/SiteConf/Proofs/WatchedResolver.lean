import SiteConf.Proofs.LineOrder

set_option autoImplicit false

/-! # The resolver at work

The resolver has two checks for duplicates: one on the keys of a mapping, and one on the path of a
scalar that is defined. To say when each of them fails, the resolver is watched: `watchVisit` does
what `visit` does and notes every action together with the scope before it.

At each of these moments the scope knows exactly the nodes before the node that the action is for
(`Recorded`, `Moment.Fits`). So a path that is defined is always new, the second check never fails,
and the first fails where a key was there before; `duplicate_only_from_keys` says all this. -/

namespace SiteConf.Literal

open KeyPath

/-! ## Watching the resolver -/

/-- What the resolver does with its scope. -/
inductive Action where
  /-- The line of a container is recorded. -/
  | enter (path : String) (line : Nat)
  /-- A path gets its scalar, if it has none. -/
  | define (path : String) (line : Nat) (value : Scalar)
  /-- The scalar of a reference is looked up. -/
  | lookup (path : String) (line : Nat) (segments : List String)
  /-- A key of a mapping is compared with the keys before it. -/
  | check (path : String) (seen : List String) (k : Key)

namespace Action

def path : Action → String
  | enter path _ => path
  | define path _ _ => path
  | lookup path _ _ => path
  | check path _ k => child path k.name

def Result : Action → Type
  | enter .. => Unit
  | define .. => Tree
  | lookup .. => Scalar
  | check .. => Unit

def step : (a : Action) → Resolve a.Result
  | enter path line => recordLine path line
  | define path line value => Literal.define path line value
  | lookup path line segments => Literal.lookup path line segments
  | check path seen k => refuseDuplicate path seen k

end Action

/-- An action, and the scope before it. -/
structure Moment where
  action : Action
  scope : Scope

/-- The scope of a resolver that is watched, and what was seen so far. -/
structure Watched where
  scope : Scope := {}
  moments : List Moment := []

abbrev Watch (α : Type) := Step Watched Error α

/-- The action is noted and done. -/
def watch (a : Action) : Watch a.Result :=
  Step.of fun w =>
    ((Step.run a.step w.scope).1, ⟨(Step.run a.step w.scope).2, w.moments ++ [⟨a, w.scope⟩]⟩)

mutual

/-- The tree of the literal at `path`; `line` is the line that introduces it. -/
def watchVisit (path : String) (line : Nat) : Literal → Watch Tree
  | .mapping _ entries => do
      watch (.enter path line)
      return .mapping (← watchEntries path [] entries)
  | .sequence _ items => do
      watch (.enter path line)
      return .sequence (← watchItems path 0 items)
  | .constant l v => do
      watch (.define path line (← Step.lift (evaluate (.constant l v))))
  | .negate l operand => do
      watch (.define path line (← Step.lift (evaluate (.negate l operand))))
  | .reference l segments => do
      watch (.define path line (← watch (.lookup path l segments)))

/-- The entries of the mapping at `path`, after those with the keys `seen`. -/
def watchEntries (path : String) (seen : List String) :
    List (Key × Literal) → Watch (List (String × Tree))
  | [] => pure []
  | (k, v) :: rest => do
      watch (.check path seen k)
      let t ← watchVisit (child path k.name) k.line v
      return (k.name, t) :: (← watchEntries path (k.name :: seen) rest)

/-- The items of the sequence at `path` from `index` on. -/
def watchItems (path : String) (index : Nat) : List Literal → Watch (List Tree)
  | [] => pure []
  | v :: rest => do
      let t ← watchVisit (item path index) v.line v
      return t :: (← watchItems path (index + 1) rest)

end

/-- What is seen when a literal is resolved. -/
def watched (l : Literal) : Except Error Tree × Watched :=
  Step.run (watchVisit root l.line l) {}

/-! ## Evaluation -/

theorem evaluate_error : ∀ {l : Literal} {e : Error}, evaluate l = .error e →
    ∃ line issue, e = .badSyntax line issue
  | .constant _ _, e, h => by cases h
  | .negate line operand, e, h => by
      rw [evaluate] at h
      rcases hoperand : evaluate operand with e' | v
      · rw [hoperand] at h
        cases h
        exact evaluate_error hoperand
      · rw [hoperand] at h
        cases v with
        | int n =>
            dsimp only at h
            split at h
            · cases h
            · cases h
              exact ⟨_, _, rfl⟩
        | str s => cases h; exact ⟨_, _, rfl⟩
        | bool b => cases h; exact ⟨_, _, rfl⟩
  | .mapping _ _, e, h => by cases h; exact ⟨_, _, rfl⟩
  | .sequence _ _, e, h => by cases h; exact ⟨_, _, rfl⟩
  | .reference _ _, e, h => by cases h; exact ⟨_, _, rfl⟩

theorem exists_int_of_evaluate_negate {line : Nat} {operand : Literal} {v : Scalar}
    (h : evaluate (.negate line operand) = .ok v) :
    ∃ n, evaluate operand = .ok (.int n) ∧ v = .int (-n) := by
  rw [evaluate] at h
  rcases hoperand : evaluate operand with e | w
  · rw [hoperand] at h
    cases h
  · rw [hoperand] at h
    cases w with
    | int n =>
        dsimp only at h
        split at h
        · cases h
          exact ⟨n, rfl, rfl⟩
        · cases h
    | str s => cases h
    | bool b => cases h

theorem integer?_of_evaluate : ∀ {l : Literal} {n : Int}, evaluate l = .ok (.int n) →
    l.integer? = some n
  | .constant _ _, n, h => by
      cases h
      rfl
  | .negate line operand, n, h => by
      obtain ⟨k, hk, hn⟩ := exists_int_of_evaluate_negate h
      cases hn
      rw [integer?, integer?_of_evaluate hk]
      rfl
  | .mapping _ _, n, h => by cases h
  | .sequence _ _, n, h => by cases h
  | .reference _ _, n, h => by cases h

theorem denotes_of_evaluate (holds : String → Scalar → Prop) {l : Literal} {v : Scalar}
    (h : evaluate l = .ok v) : Denotes holds l v := by
  cases l with
  | constant line w =>
      cases h
      exact .constant _ _
  | negate line operand =>
      obtain ⟨n, hn, rfl⟩ := exists_int_of_evaluate_negate h
      exact .negate (integer?_of_evaluate hn)
  | mapping | sequence | reference => cases h

/-! ## What the scope knows at a moment -/

/-- The scope knows exactly the nodes: the table of lines has all of them, and the constants are
their scalars, under their paths and in their order. -/
structure Recorded (before : List Placed) (s : Scope) : Prop where
  tabled : Tabled before s
  constants : List.Forall₂ (fun n entry => entry.1 = n.path ∧ Denotes s.Holds n.literal entry.2)
    (before.filter fun n => n.literal.isScalar) s.constants

theorem recorded_nil : Recorded [] {} where
  tabled := visited_nil.tabled
  constants := .nil

section Recorded

variable {before : List Placed} {s : Scope} {n : Placed}

theorem Recorded.keys_eq (h : Recorded before s) :
    Ordered.keys s.constants = (before.filter fun n => n.literal.isScalar).map Placed.path := by
  have hpaths := h.constants
  rw [Ordered.keys]
  generalize before.filter (fun n => n.literal.isScalar) = scalars at hpaths ⊢
  generalize s.constants = entries at hpaths ⊢
  induction hpaths with
  | nil => rfl
  | cons hentry _ ih => rw [List.map_cons, List.map_cons, hentry.1, ih]

/-- The path of a node that comes next has no scalar yet. -/
theorem Recorded.get?_path (h : Recorded before s) (hn : Announced Placed.path before n)
    (hfirst : n.first = none) : Ordered.get? n.path s.constants = none := by
  rw [Ordered.get?_eq_none_iff, h.keys_eq]
  intro hmem
  have hsub : (before.filter fun n => n.literal.isScalar).Sublist before := List.filter_sublist
  exact h.tabled.path_not_mem hn hfirst ((hsub.map Placed.path).subset hmem)

theorem Recorded.enter (h : Recorded before s) (hn : Announced Placed.path before n)
    (hfirst : n.first = none) (hscalar : n.literal.isScalar = false) :
    Recorded (before ++ [n]) { s with origins := s.origins.record n.path n.line } where
  tabled := h.tabled.append hn hfirst rfl
  constants := by
    rw [List.filter_append, List.filter_singleton, hscalar, cond_false, List.append_nil]
    exact h.constants

theorem Recorded.define (h : Recorded before s) (hn : Announced Placed.path before n)
    (hfirst : n.first = none) (hscalar : n.literal.isScalar = true) {v : Scalar}
    (hv : Denotes s.Holds n.literal v) : Recorded (before ++ [n]) (s.define n v) where
  tabled := h.tabled.append hn hfirst rfl
  constants := by
    have hpath := h.get?_path hn hfirst
    -- scalars of references stay what they were, since no path gets another scalar
    have hext := Scope.extends_define hpath v
    have hinsert : (s.define n v).constants = s.constants ++ [(n.path, v)] :=
      Ordered.insert_of_not_mem v (Ordered.get?_eq_none_iff.mp hpath)
    have hold : List.Forall₂ (fun m entry => entry.1 = m.path ∧
        Denotes (s.define n v).Holds m.literal entry.2)
        (before.filter fun n => n.literal.isScalar) s.constants :=
      h.constants.imp fun m entry hentry => ⟨hentry.1, hentry.2.imp hext⟩
    rw [List.filter_append, List.filter_singleton, hscalar, cond_true, hinsert]
    exact List.rel_append hold (.cons ⟨rfl, hv.imp hext⟩ .nil)

/-- The log is no part of what the scope knows. -/
theorem Recorded.log (h : Recorded before s) (log : Log) :
    Recorded before { s with log := log } :=
  ⟨⟨h.tabled.entries, h.tabled.nodup, h.tabled.first_eq_none⟩, h.constants⟩

end Recorded

/-- The action is the one for a node after the nodes before it. -/
def Action.For (before : List Placed) (n : Placed) : Action → Prop
  | .enter path line => path = n.path ∧ line = n.line ∧ n.first = none
  | .define path line _ => path = n.path ∧ line = n.line ∧ n.first = none
  | .lookup path line segments =>
      path = n.path ∧ n.literal = .reference line segments ∧ n.first = none
  | .check path seen k =>
      child path k.name = n.path ∧ k.line = n.line ∧
        ∃ m ∈ before, m.path = path ∧ ∃ line earlier v later,
          m.literal = .mapping line (earlier ++ (k, v) :: later) ∧
            seen = (earlier.map fun e => e.1.name).reverse ∧ seen.Nodup ∧
              n.first = firstLine (earlier.map Prod.fst) k.name

theorem Action.For.path_eq {before : List Placed} {n : Placed} {a : Action} (h : a.For before n) :
    a.path = n.path := by
  cases a <;> exact h.1

/-- The action of the moment is for one of the nodes, and the scope knows exactly those before
it. -/
def Moment.Fits (all : List Placed) (m : Moment) : Prop :=
  ∃ before n after, all = before ++ n :: after ∧ m.action.For before n ∧ Recorded before m.scope

/-! ## Following the resolver -/

/-! Each action fails for one reason. -/

section Failures

variable {s s' : Scope} {e : Error} {path : String} {line : Nat}

theorem contains_of_define_error {value : Scalar}
    (h : Step.run (define path line value) s = (.error e, s')) :
    s' = s ∧ Ordered.contains path s.constants = true := by
  rw [define, Step.run_of] at h
  split at h
  · next hcontains =>
      cases h
      exact ⟨rfl, hcontains⟩
  · cases h

theorem unresolved_of_lookup_error {segments : List String}
    (h : Step.run (lookup path line segments) s = (.error e, s')) :
    s' = s ∧ ∃ name, e = .unresolved name (some line) := by
  simp only [lookup, Step.run_of] at h
  split at h
  · cases h
  · cases h
    exact ⟨rfl, _, rfl⟩

theorem mem_of_refuseDuplicate_error {seen : List String} {k : Key}
    (h : Step.run (refuseDuplicate path seen k) s = (.error e, s')) :
    s' = s ∧ k.name ∈ seen ∧ e = .duplicate (child path k.name) (some k.line)
      (s.origins.lineOf (child path k.name)) := by
  by_cases hk : k.name ∈ seen
  · rw [run_refuseDuplicate_of_mem hk] at h
    cases h
    exact ⟨rfl, hk, rfl⟩
  · rw [run_refuseDuplicate_of_not_mem hk] at h
    cases h

theorem not_mem_of_refuseDuplicate_ok {seen : List String} {k : Key} {u : Unit}
    (h : Step.run (refuseDuplicate path seen k) s = (.ok u, s')) : k.name ∉ seen ∧ s' = s := by
  by_cases hk : k.name ∈ seen
  · rw [run_refuseDuplicate_of_mem hk] at h
    cases h
  · rw [run_refuseDuplicate_of_not_mem hk] at h
    cases h
    exact ⟨hk, rfl⟩

/-- An action that fails leaves the scope as it was. -/
theorem Action.run_error {a : Action} (h : Step.run a.step s = (.error e, s')) : s' = s := by
  cases a with
  | enter path line => cases h
  | define path line value => exact (contains_of_define_error h).1
  | lookup path line segments => exact (unresolved_of_lookup_error h).1
  | check path seen k => exact (mem_of_refuseDuplicate_error h).1

end Failures

section Follows

variable {α β : Type} {all done : List Placed} {s : Scope}

/-- The watched step `y` ends as the step `x` does from the scope `s`. All its moments fit. If it
returns, the scope knows the nodes `done`; if it fails, then in the last of its actions or because a
negation cannot be carried out. -/
def Follows (all done : List Placed) (y : Watch α) (x : Resolve α) (s : Scope) : Prop :=
  ∃ moments : List Moment,
    (∀ earlier, Step.run y ⟨s, earlier⟩
      = ((Step.run x s).1, ⟨(Step.run x s).2, earlier ++ moments⟩)) ∧
    (∀ m ∈ moments, m.Fits all) ∧
    (∀ a s', Step.run x s = (.ok a, s') → Recorded done s') ∧
    ∀ e s', Step.run x s = (.error e, s') → (∃ line issue, e = .badSyntax line issue) ∨
      ∃ front a, moments = front ++ [⟨a, s'⟩] ∧ (Step.run a.step s').1 = .error e

theorem follows_pure (a : α) (h : Recorded done s) : Follows all done (pure a) (pure a) s := by
  refine ⟨[], fun earlier => ?_, List.forall_mem_nil _, ?_, ?_⟩
  · rw [List.append_nil]
    rfl
  · rintro b s' ⟨⟩
    exact h
  · rintro e s' ⟨⟩

theorem follows_evaluate (l : Literal) (h : Recorded done s) :
    Follows all done (Step.lift (evaluate l)) (Step.lift (evaluate l)) s := by
  refine ⟨[], fun earlier => ?_, List.forall_mem_nil _, ?_, ?_⟩
  · rw [Step.run_lift, Step.run_lift, List.append_nil]
  · intro v s' hrun
    rw [Step.run_lift, Prod.mk.injEq] at hrun
    exact hrun.2 ▸ h
  · intro e s' hrun
    rw [Step.run_lift, Prod.mk.injEq] at hrun
    exact .inl (evaluate_error hrun.1)

theorem follows_watch {a : Action} (hfits : Moment.Fits all ⟨a, s⟩)
    (hdone : ∀ r s', Step.run a.step s = (.ok r, s') → Recorded done s') :
    Follows all done (watch a) a.step s := by
  refine ⟨[⟨a, s⟩], fun earlier => rfl, List.forall_mem_singleton.mpr hfits, hdone, ?_⟩
  intro e s' herror
  obtain rfl := Action.run_error herror
  exact .inr ⟨[], a, rfl, by rw [herror]⟩

theorem follows_bind {done' : List Placed} {y : Watch α} {x : Resolve α} {g : α → Watch β}
    {f : α → Resolve β} (hx : Follows all done y x s)
    (hf : ∀ a s', Step.run x s = (.ok a, s') → Recorded done s' →
      Follows all done' (g a) (f a) s') :
    Follows all done' (y >>= g) (x >>= f) s := by
  obtain ⟨moments, hrun, hfits, hdone, hfails⟩ := hx
  rcases hfirst : Step.run x s with ⟨e | a, s'⟩
  · rw [Follows, Step.run_bind_of_error hfirst]
    refine ⟨moments, fun earlier => ?_, hfits, ?_, ?_⟩
    · rw [Step.run_bind, hrun, hfirst]
    · rintro b s'' ⟨⟩
    · rintro e' s'' ⟨⟩
      exact hfails e s' hfirst
  · obtain ⟨moments', hrun', hfits', hdone', hfails'⟩ := hf a s' hfirst (hdone a s' hfirst)
    rw [Follows, Step.run_bind_of_ok hfirst]
    refine ⟨moments ++ moments', fun earlier => ?_, ?_, hdone', ?_⟩
    · rw [Step.run_bind, hrun, hfirst, ← List.append_assoc]
      exact hrun' _
    · exact List.forall_mem_append.mpr ⟨hfits, hfits'⟩
    · intro e s'' herror
      refine (hfails' e s'' herror).imp_right ?_
      rintro ⟨front, action, rfl, haction⟩
      exact ⟨moments ++ front, action, (List.append_assoc _ _ _).symm, haction⟩

end Follows

/-! ## Visits -/

section Visits

variable {all : List Placed} (hall : AllAfter (Announced Placed.path) [] all)

theorem AllAfter.of_split {P : List Placed → Placed → Prop} {before after : List Placed}
    {n : Placed} (h : AllAfter P [] (before ++ n :: after)) : P before n :=
  (allAfter_append.mp h).2.1

theorem outline_eq_cons (steps : List Tree.Step) (line : Nat) (first : LineRef) (l : Literal) :
    ∃ below, outline steps line first l = ⟨steps, line, first, l⟩ :: below := by
  cases l <;> rw [outline] <;> exact ⟨_, rfl⟩

include hall

variable {before after : List Placed} {n : Placed} {s : Scope}

theorem enter_follows (hsplit : all = before ++ n :: after) (hs : Recorded before s)
    (hfirst : n.first = none) (hscalar : n.literal.isScalar = false) :
    Follows all (before ++ [n]) (watch (.enter n.path n.line)) (recordLine n.path n.line) s := by
  have hn : Announced Placed.path before n := (hsplit ▸ hall).of_split
  refine follows_watch ⟨before, n, after, hsplit, ⟨rfl, rfl, hfirst⟩, hs⟩ ?_
  rintro r s' ⟨⟩
  exact hs.enter hn hfirst hscalar

theorem define_follows (hsplit : all = before ++ n :: after) (hs : Recorded before s)
    (hfirst : n.first = none) (hscalar : n.literal.isScalar = true) {v : Scalar}
    (hv : Denotes s.Holds n.literal v) :
    Follows all (before ++ [n]) (watch (.define n.path n.line v)) (define n.path n.line v) s := by
  have hn : Announced Placed.path before n := (hsplit ▸ hall).of_split
  refine follows_watch ⟨before, n, after, hsplit, ⟨rfl, rfl, hfirst⟩, hs⟩ ?_
  intro r s' hok
  rw [show Step.run (Action.define n.path n.line v).step s = _ from
    run_define (hs.get?_path hn hfirst) v] at hok
  cases hok
  exact hs.define hn hfirst hscalar hv

/-- A constant or a negation is evaluated and defined. -/
theorem evaluate_follows (hsplit : all = before ++ n :: after) (hs : Recorded before s)
    (hfirst : n.first = none) (hscalar : n.literal.isScalar = true) :
    Follows all (before ++ [n])
      (do watch (.define n.path n.line (← Step.lift (evaluate n.literal))))
      (do define n.path n.line (← Step.lift (evaluate n.literal))) s := by
  refine follows_bind (follows_evaluate n.literal hs) fun v s' hrun hs' => ?_
  rw [Step.run_lift, Prod.mk.injEq] at hrun
  exact define_follows hall hsplit hs' hfirst hscalar (denotes_of_evaluate _ hrun.1)

/-- A reference is looked up and defined. -/
theorem reference_follows {line : Nat} {segments : List String}
    (hsplit : all = before ++ n :: after) (hs : Recorded before s) (hfirst : n.first = none)
    (hn : n.literal = .reference line segments) :
    Follows all (before ++ [n])
      (do watch (.define n.path n.line (← watch (.lookup n.path line segments))))
      (do define n.path n.line (← lookup n.path line segments)) s := by
  have hlookup : ∀ v s', Step.run (lookup n.path line segments) s = (.ok v, s') →
      ∃ log, s' = { s with log := log } ∧ s.Holds (ofSegments segments) v := by
    intro v s' hrun
    simp only [lookup, Step.run_of] at hrun
    split at hrun
    · next hget =>
        cases hrun
        exact ⟨_, rfl, hget⟩
    · cases hrun
  have hfollows : Follows all before (watch (.lookup n.path line segments))
      (lookup n.path line segments) s := by
    refine follows_watch ⟨before, n, after, hsplit, ⟨rfl, hn, hfirst⟩, hs⟩ ?_
    intro v s' hrun
    obtain ⟨log, rfl, -⟩ := hlookup v s' hrun
    exact hs.log log
  refine follows_bind hfollows fun v s' hrun hs' => ?_
  obtain ⟨log, rfl, hholds⟩ := hlookup v s' hrun
  refine define_follows hall hsplit hs' hfirst (by rw [hn]; rfl) ?_
  rw [hn]
  exact .reference hholds

omit hall in
/-- A key is compared with those before it. -/
theorem check_follows {path : String} {k : Key} {v : Literal} {line : Nat}
    {earlier later : List (Key × Literal)} (hsplit : all = before ++ n :: after)
    (hs : Recorded before s) (hpath : child path k.name = n.path) (hline : k.line = n.line)
    (hfirst : n.first = firstLine (earlier.map Prod.fst) k.name)
    (hnodup : (earlier.map fun e => e.1.name).reverse.Nodup)
    (hmapping : ∃ m ∈ before, m.path = path ∧
      m.literal = .mapping line (earlier ++ (k, v) :: later)) :
    Follows all before (watch (.check path (earlier.map fun e => e.1.name).reverse k))
      (refuseDuplicate path (earlier.map fun e => e.1.name).reverse k) s := by
  obtain ⟨m, hm, hmpath, hliteral⟩ := hmapping
  refine follows_watch ⟨before, n, after, hsplit, ⟨hpath, hline, m, hm, hmpath, line, earlier, v,
    later, hliteral, rfl, hnodup, hfirst⟩, hs⟩ ?_
  intro r s' hrun
  obtain ⟨-, rfl⟩ := not_mem_of_refuseDuplicate_ok hrun
  exact hs

end Visits

mutual

/-- **A visit of a literal goes through its nodes in order.** -/
theorem visit_follows {all : List Placed} (hall : AllAfter (Announced Placed.path) [] all) :
    ∀ (l : Literal) (steps : List Tree.Step) (line : Nat) (before after : List Placed) (s : Scope),
    all = before ++ (outline steps line none l ++ after) → Recorded before s →
    Follows all (before ++ outline steps line none l) (watchVisit (ofSteps steps) line l)
      (visit (ofSteps steps) line l) s
  | .mapping l entries, steps, line, before, after, s, hsplit, hs => by
      rw [outline] at hsplit ⊢
      have henter := enter_follows hall hsplit hs rfl rfl
      rw [watchVisit, visit]
      refine follows_bind henter fun _ s₁ _ hs₁ => ?_
      -- the mapping is now the last of the nodes before its entries
      have hsplit₁ := hsplit.trans (List.append_cons _ _ _)
      have hentries := visitEntries_follows hall entries steps [] _ after s₁ hsplit₁ hs₁
        List.nodup_nil
        ⟨_, List.mem_append_right _ (List.mem_singleton_self _), rfl, l, rfl⟩
      rw [← List.append_cons] at hentries
      exact follows_bind hentries fun fields s₂ _ hs₂ => follows_pure _ hs₂
  | .sequence l items, steps, line, before, after, s, hsplit, hs => by
      rw [outline] at hsplit ⊢
      have henter := enter_follows hall hsplit hs rfl rfl
      rw [watchVisit, visit]
      refine follows_bind henter fun _ s₁ _ hs₁ => ?_
      have hsplit₁ := hsplit.trans (List.append_cons _ _ _)
      have hitems := visitItems_follows hall items steps 0 _ after s₁ hsplit₁ hs₁
      rw [← List.append_cons] at hitems
      exact follows_bind hitems fun trees s₂ _ hs₂ => follows_pure _ hs₂
  | .constant l v, steps, line, before, after, s, hsplit, hs => by
      rw [outline] at hsplit ⊢
      rw [watchVisit, visit]
      exact evaluate_follows hall hsplit hs rfl rfl
  | .negate l operand, steps, line, before, after, s, hsplit, hs => by
      rw [outline] at hsplit ⊢
      rw [watchVisit, visit]
      exact evaluate_follows hall hsplit hs rfl rfl
  | .reference l segments, steps, line, before, after, s, hsplit, hs => by
      rw [outline] at hsplit ⊢
      rw [watchVisit, visit]
      exact reference_follows hall hsplit hs rfl rfl

/-- The mapping that the entries are in was visited before them. -/
theorem visitEntries_follows {all : List Placed}
    (hall : AllAfter (Announced Placed.path) [] all) :
    ∀ (entries : List (Key × Literal)) (steps : List Tree.Step) (earlier : List (Key × Literal))
    (before after : List Placed) (s : Scope),
    all = before ++ (outlineEntries steps (earlier.map Prod.fst) entries ++ after) →
    Recorded before s → (earlier.map fun e => e.1.name).reverse.Nodup →
    (∃ m ∈ before, m.path = ofSteps steps ∧ ∃ line,
      m.literal = .mapping line (earlier ++ entries)) →
    Follows all (before ++ outlineEntries steps (earlier.map Prod.fst) entries)
      (watchEntries (ofSteps steps) (earlier.map fun e => e.1.name).reverse entries)
      (visitEntries (ofSteps steps) (earlier.map fun e => e.1.name).reverse entries) s
  | [], steps, earlier, before, after, s, hsplit, hs, hnodup, hmapping => by
      rw [outlineEntries, List.append_nil, watchEntries, visitEntries]
      exact follows_pure _ hs
  | (k, v) :: rest, steps, earlier, before, after, s, hsplit, hs, hnodup, hmapping => by
      obtain ⟨m, hm, hpath, line, hliteral⟩ := hmapping
      obtain ⟨below, hbelow⟩ := outline_eq_cons (steps ++ [.key k.name]) k.line
        (firstLine (earlier.map Prod.fst) k.name) v
      rw [outlineEntries, List.append_assoc] at hsplit
      have hhead := hsplit
      rw [hbelow, List.cons_append] at hhead
      have hcheck := check_follows hhead hs (ofSteps_append_key steps k.name).symm rfl rfl
        hnodup ⟨m, hm, hpath, hliteral⟩
      rw [outlineEntries, watchEntries, visitEntries, ← ofSteps_append_key]
      refine follows_bind hcheck fun _ s₀ hrun hs₀ => ?_
      -- the key is new, and so is its path
      obtain ⟨hk, -⟩ := not_mem_of_refuseDuplicate_ok hrun
      have hnew : firstLine (earlier.map Prod.fst) k.name = none := by
        rw [firstLine_eq_none_iff]
        intro k' hk' hname
        obtain ⟨e, he, rfl⟩ := List.mem_map.mp hk'
        exact hk (List.mem_reverse.mpr (List.mem_map.mpr ⟨e, he, hname⟩))
      rw [hnew] at hsplit ⊢
      have hvalue := visit_follows hall v _ k.line before _ s₀ hsplit hs₀
      refine follows_bind hvalue fun t s₁ _ hs₁ => ?_
      rw [← List.append_assoc] at hsplit ⊢
      -- the entry joins the earlier ones; the outline has their keys in order, the resolver their
      -- names in reverse
      have hseen : (earlier ++ [(k, v)]).map Prod.fst = earlier.map Prod.fst ++ [k] := by
        rw [List.map_append, List.map_singleton]
      have hnames : ((earlier ++ [(k, v)]).map fun e => e.1.name).reverse
          = k.name :: (earlier.map fun e => e.1.name).reverse := by
        rw [List.map_append, List.map_singleton, List.reverse_append, List.reverse_singleton]
        rfl
      rw [← hseen] at hsplit ⊢
      have hrest := visitEntries_follows hall rest steps (earlier ++ [(k, v)]) _ after s₁ hsplit hs₁
        (by rw [hnames]; exact List.nodup_cons.mpr ⟨hk, hnodup⟩)
        ⟨m, List.mem_append_left _ hm, hpath, line, by rw [hliteral, List.append_assoc]; rfl⟩
      rw [hnames] at hrest
      exact follows_bind hrest fun fields s₂ _ hs₂ => follows_pure _ hs₂

theorem visitItems_follows {all : List Placed} (hall : AllAfter (Announced Placed.path) [] all) :
    ∀ (items : List Literal) (steps : List Tree.Step) (index : Nat) (before after : List Placed)
    (s : Scope),
    all = before ++ (outlineItems steps index items ++ after) → Recorded before s →
    Follows all (before ++ outlineItems steps index items)
      (watchItems (ofSteps steps) index items) (visitItems (ofSteps steps) index items) s
  | [], steps, index, before, after, s, hsplit, hs => by
      rw [outlineItems, List.append_nil, watchItems, visitItems]
      exact follows_pure _ hs
  | v :: rest, steps, index, before, after, s, hsplit, hs => by
      rw [outlineItems, List.append_assoc] at hsplit
      rw [outlineItems, watchItems, visitItems, ← ofSteps_append_index]
      have hvalue := visit_follows hall v (steps ++ [.index index]) v.line before _ s hsplit hs
      refine follows_bind hvalue fun t s₁ _ hs₁ => ?_
      rw [← List.append_assoc] at hsplit ⊢
      have hrest := visitItems_follows hall rest steps (index + 1) _ after s₁ hsplit hs₁
      exact follows_bind hrest fun trees s₂ _ hs₂ => follows_pure _ hs₂

end

/-! ## The keys of literals -/

/-- The grammar takes only proper keys, from any tokens. -/
theorem ofTokens_properKeys {limit : Nat} {tokens : List Token} {l : Literal}
    (h : ofTokens limit tokens = .ok l) : Everywhere ProperKeys l := by
  have hlexical : Everywhere (LexicalIn fun _ => True) l :=
    ofTokens_lexicalIn (fun _ _ _ _ => trivial) h
  exact hlexical.imp properKeys_of_lexicalIn

/-! ## Duplicates -/

/-- In the mapping at the node, the entry with the key `k` comes after exactly one entry with a key
of the same name, which is `k'`. -/
def Placed.Repeats (n : Placed) (k' k : Key) : Prop :=
  ∃ (line : Nat) (a b c : List (Key × Literal)) (v' v : Literal),
    n.literal = .mapping line (a ++ (k', v') :: (b ++ (k, v) :: c)) ∧ k'.name = k.name ∧
      ∀ e ∈ a ++ b, e.1.name ≠ k.name

section Duplicates

variable {all : List Placed} (hall : AllAfter (Announced Placed.path) [] all)
include hall

/-- A path that is defined is new. -/
theorem Moment.Fits.not_contains {s : Scope} {path : String} {line : Nat} {value : Scalar}
    (h : Moment.Fits all ⟨.define path line value, s⟩) :
    Ordered.contains path s.constants = false := by
  obtain ⟨before, n, after, rfl, ⟨rfl, -, hfirst⟩, hs⟩ := h
  rw [Ordered.contains, hs.get?_path hall.of_split hfirst]
  rfl

/-- The key of a mapping was there before, once and on the line that is reported. -/
theorem Moment.Fits.exists_earlier {s : Scope} {path : String} {seen : List String} {k : Key}
    (h : Moment.Fits all ⟨.check path seen k, s⟩) (hk : k.name ∈ seen) :
    ∃ k' : Key, (∃ n ∈ all, n.path = path ∧ n.Repeats k' k) ∧
      s.origins.lineOf (child path k.name) = some k'.line ∧
      ((all.map Placed.line).Pairwise (· ≤ ·) → k'.line ≤ k.line) := by
  obtain ⟨before, n, after, rfl, ⟨hpath, hline, m, hm, hmpath, line, earlier, v, later, hliteral,
    rfl, hnodup, hfirst⟩, hs⟩ := h
  obtain ⟨⟨k', v'⟩, he, hname⟩ := List.mem_map.mp (List.mem_reverse.mp hk)
  obtain ⟨a, b, rfl⟩ := List.append_of_mem he
  have hname : k'.name = k.name := hname
  -- no other key has the name, so the first with the name is this one
  have hothers : ∀ e ∈ a ++ b, e.1.name ≠ k.name := by
    intro e he hsame
    rw [List.nodup_reverse, List.map_append, List.map_cons, List.nodup_middle,
      List.nodup_cons, ← List.map_append] at hnodup
    exact hnodup.1 (List.mem_map.mpr ⟨e, he, hsame.trans hname.symm⟩)
  have hfirst' : n.first = some k'.line := by
    have hbefore : firstLine (a.map Prod.fst) k.name = none := by
      rw [firstLine_eq_none_iff]
      intro k'' hk''
      obtain ⟨e, he, rfl⟩ := List.mem_map.mp hk''
      exact hothers e (List.mem_append_left _ he)
    rw [firstLine] at hbefore
    rw [hfirst, firstLine, List.map_append, List.find?_append, Option.map_or, hbefore]
    simp [hname]
  -- its node is known to the scope, under the same path
  obtain ⟨m', hm', hsteps, hline'⟩ := hall.of_split.repeated k'.line hfirst'
  refine ⟨k', ⟨m, List.mem_append_left _ hm, hmpath, line, a, b, later, v', v, ?_, hname, hothers⟩,
    ?_, ?_⟩
  · rw [hliteral, List.append_assoc]
    rfl
  · have hpath' : m'.path = child path k.name := by rw [hpath, Placed.path, hsteps, Placed.path]
    rw [← hpath', hs.tabled.lineOf hm', hline']
  · intro horder
    rw [List.map_append, List.map_cons] at horder
    have hle := (List.pairwise_append.mp horder).2.2 m'.line (List.mem_map_of_mem hm') n.line
      List.mem_cons_self
    rw [← hline', hline]
    exact hle

end Duplicates

/-- **Duplicates are found by comparing keys, and only so.**

The resolver is watched on a literal that the grammar reads from any tokens. Watching it changes
neither what it returns nor its scope. At each of its actions the scope knows exactly the nodes
before the node that the action is for, and a path that is defined is new; if the resolver returns,
its scope knows all the nodes.

If it fails because of a duplicate, its last action was to compare the key of an entry with those
before it. The key was there before, in exactly one earlier entry of the same mapping, and the error
has the lines of the two. They are in order if the tokens are, and the tokens of a text are. -/
theorem duplicate_only_from_keys {limit : Nat} {tokens : List Token} {l : Literal}
    (hl : ofTokens limit tokens = .ok l) :
    (watched l).1 = (Step.run (visit root l.line l) {}).1 ∧
    (watched l).2.scope = (resolveIn l).2 ∧
    (∀ m ∈ (watched l).2.moments, ∃ (before : List Placed) (n : Placed) (after : List Placed),
      nodes l = before ++ n :: after ∧ m.action.path = n.path ∧ Recorded before m.scope ∧
        ∀ path line value, m.action = .define path line value →
          Ordered.contains path m.scope.constants = false) ∧
    (∀ doc, resolve l = .ok doc → Recorded (nodes l) (resolveIn l).2) ∧
    (∀ path line first, resolve l = .error (.duplicate path line first) →
      ∃ (base : String) (seen : List String) (k k' : Key) (front : List Moment),
        (watched l).2.moments = front ++ [⟨.check base seen k, (resolveIn l).2⟩] ∧
        k.name ∈ seen ∧ (∃ n ∈ nodes l, n.path = base ∧ n.Repeats k' k) ∧
        path = child base k.name ∧ line = some k.line ∧ first = some k'.line ∧
        (Token.InOrder tokens → k'.line ≤ k.line)) ∧
    ∀ text, Token.tokenize text = .ok tokens → Token.InOrder tokens := by
  have hall := nodes_announced (ofTokens_properKeys hl)
  have hsplit : nodes l = [] ++ (nodes l ++ []) := (List.append_nil _).symm
  obtain ⟨moments, hrun, hfits, hdone, hfails⟩ :=
    visit_follows hall l [] l.line [] [] {} hsplit recorded_nil
  have hwatched : watched l = ((Step.run (visit root l.line l) {}).1,
      ⟨(Step.run (visit root l.line l) {}).2, moments⟩) := hrun []
  have hscope : (resolveIn l).2 = (Step.run (visit root l.line l) {}).2 := by
    rw [resolveIn]
    split <;> next h => rw [h]
  rw [hwatched, hscope]
  refine ⟨rfl, rfl, ?_, ?_, ?_, fun text => Token.tokenize_inOrder⟩
  · intro m hm
    obtain ⟨before, n, after, hnodes, hfor, hs⟩ := hfits m hm
    refine ⟨before, n, after, hnodes, hfor.path_eq, hs, ?_⟩
    intro path line value haction
    obtain ⟨action, s⟩ := m
    cases haction
    exact (hfits _ hm).not_contains hall
  · intro doc hdoc
    rcases hvisit : Step.run (visit root l.line l) {} with ⟨e | t, s⟩
    · rw [resolve, resolveIn, hvisit] at hdoc
      cases hdoc
    · exact hdone t s hvisit
  · intro path line first herror
    rcases hvisit : Step.run (visit root l.line l) {} with ⟨e | t, s⟩
    · rw [resolve, resolveIn, hvisit] at herror
      cases herror
      -- of the actions that can fail, only the comparison of keys fails in this way here
      obtain ⟨line', issue, h⟩ | ⟨front, action, rfl, haction⟩ := hfails _ s hvisit
      · cases h
      · have hlast := hfits ⟨action, s⟩ (List.mem_append_right _ (List.mem_singleton_self _))
        have hfailed : Step.run action.step s = (.error (.duplicate path line first), _) :=
          Prod.ext haction rfl
        cases action with
        | enter => cases hfailed
        | define =>
            have hnew := hlast.not_contains hall
            rw [(contains_of_define_error hfailed).2] at hnew
            cases hnew
        | lookup =>
            obtain ⟨-, name, h⟩ := unresolved_of_lookup_error hfailed
            cases h
        | check base seen k =>
            obtain ⟨-, hk, h⟩ := mem_of_refuseDuplicate_error hfailed
            cases h
            obtain ⟨k', hrepeats, hfirst, horder⟩ := hlast.exists_earlier hall hk
            exact ⟨base, seen, k, k', front, rfl, hk, hrepeats, rfl, rfl, hfirst,
              fun hin => horder (lines_nodes_inOrder hin hl)⟩
    · rw [resolve, resolveIn, hvisit] at herror
      cases herror

/-- The key `0` is there again on the second line; that of the inner mapping has a path of its
own. -/
theorem duplicate_only_from_keys_nested :
    ∃ (tokens : List Token) (l : Literal),
      Token.tokenize "\x7b'0': \x7b'0': 1\x7d, a: [2],\n'0': 3\x7d" = .ok tokens ∧
      ofTokens 3 tokens = .ok l ∧ resolve l = .error (.duplicate ".0" (some 2) (some 1)) ∧
      (∀ m ∈ (watched l).2.moments, ∀ path line value, m.action = .define path line value →
        Ordered.contains path m.scope.constants = false) ∧
      ∃ (base : String) (seen : List String) (k k' : Key) (front : List Moment),
        (watched l).2.moments = front ++ [⟨.check base seen k, (resolveIn l).2⟩] ∧
        k.name ∈ seen ∧ ".0" = child base k.name ∧ k.line = 2 ∧ k'.line = 1 := by
  obtain ⟨tokens, l, htokens, hl, hresolve⟩ :
      ∃ (tokens : List Token) (l : Literal),
        Token.tokenize "\x7b'0': \x7b'0': 1\x7d, a: [2],\n'0': 3\x7d" = .ok tokens ∧
        ofTokens 3 tokens = .ok l ∧ resolve l = .error (.duplicate ".0" (some 2) (some 1)) :=
    ⟨[⟨.lbrace, 1⟩, ⟨.str "0", 1⟩, ⟨.colon, 1⟩, ⟨.lbrace, 1⟩, ⟨.str "0", 1⟩, ⟨.colon, 1⟩,
        ⟨.int 1, 1⟩, ⟨.rbrace, 1⟩, ⟨.comma, 1⟩, ⟨.ident "a", 1⟩, ⟨.colon, 1⟩, ⟨.lbracket, 1⟩,
        ⟨.int 2, 1⟩, ⟨.rbracket, 1⟩, ⟨.comma, 1⟩, ⟨.str "0", 2⟩, ⟨.colon, 2⟩, ⟨.int 3, 2⟩,
        ⟨.rbrace, 2⟩, ⟨.eof, 2⟩],
      .mapping 1 [(⟨"0", 1⟩, .mapping 1 [(⟨"0", 1⟩, .constant 1 (.int 1))]),
        (⟨"a", 1⟩, .sequence 1 [.constant 1 (.int 2)]), (⟨"0", 2⟩, .constant 2 (.int 3))],
      by decide +kernel, by cbv, by cbv⟩
  obtain ⟨-, -, hmoments, -, hduplicate, -⟩ := duplicate_only_from_keys hl
  refine ⟨tokens, l, htokens, hl, hresolve, fun m hm => ?_, ?_⟩
  · obtain ⟨-, -, -, -, -, -, hnew⟩ := hmoments m hm
    exact hnew
  · obtain ⟨base, seen, k, k', front, hlast, hk, -, hpath, hline, hfirst, -⟩ :=
      hduplicate _ _ _ hresolve
    exact ⟨base, seen, k, k', front, hlast, hk, hpath, (Option.some.inj hline).symm,
      (Option.some.inj hfirst).symm⟩

end SiteConf.Literal
