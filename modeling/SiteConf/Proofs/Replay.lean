import SiteConf.Proofs.PairedWalks
import SiteConf.Proofs.Visits

set_option autoImplicit false

/-! # Replaying the calls of a walk

Nothing but its calls changes the state of a walk: the calls run one after another, from the state
in which the walk begins to the one in which it ends, whether it goes through or fails
(`runs_calls`). So the last state is the one that the calls leave (`run_walkTree_eq_replay`).

`Walker.Made` is for properties of this sort. What a walk does is made of calls of the hooks, each
for a node under whose key the hook is registered, of notes and of failures; a property that these
have and that sequences keep is a property of the walk (`walkTree_made`). -/

namespace SiteConf.Writer

variable {σ : Type}

/-! ## What a walk is made of -/

/-- All that the walk is made of has the property, and sequences keep it. -/
structure Walker.Made (w : Walker σ) (C : ∀ {α : Type}, Step σ Error α → Prop) : Prop where
  pure : ∀ {α : Type} (a : α), C (pure a)
  throw : ∀ {α : Type} (e : Error), C (throw e : Step σ Error α)
  bind : ∀ {α β : Type} {x : Step σ Error α} {f : α → Step σ Error β},
    C x → (∀ a, C (f a)) → C (x >>= f)
  note : ∀ v, C (Step.of fun s => ((.ok () : Except Error Unit), w.note v s))
  opening : ∀ v hook, (w.registry.writersOf v.key).opening = some (.call hook) → C (call hook v)
  openItem : ∀ v hook, (w.registry.writersOf v.key).openItem = some hook → C (call hook v)
  closeItem : ∀ v hook, (w.registry.writersOf v.key).closeItem = some hook → C (call hook v)
  closing : ∀ v hook, (w.registry.writersOf v.key).closing = some hook → C (call hook v)

section Made

variable {w : Walker σ} {C : ∀ {α : Type}, Step σ Error α → Prop}

theorem callClose_made (hw : w.Made C) {hook : Option (CloseHook σ)} {v : Visit}
    (hhook : ∀ h, hook = some h → C (call h v)) : C (callClose hook v) := by
  cases hook with
  | none => exact hw.pure ()
  | some h => exact hhook h rfl

theorem ask_made (hw : w.Made C) (v : Visit) :
    C ((w.registry.writersOf v.key).ask v) := by
  unfold FieldWriters.ask
  rcases hopening : (w.registry.writersOf v.key).opening with _ | _ | hook
  · by_cases hplain : v.value.isPlain = true
    · simp only [if_pos hplain]
      exact hw.pure _
    · simp only [if_neg hplain]
      exact hw.throw _
  · exact hw.pure _
  · exact hw.opening v hook hopening

/-- What holds of all that a walk is made of holds of it beside itself. -/
theorem Walker.Made.paired (hw : w.Made C) (names : List String) :
    w.Paired (fun x (_ : Step σ Error _) => C x) SamePlace names w where
  pure := hw.pure
  bind := hw.bind
  child := SamePlace.child
  item := SamePlace.item
  deeper := SamePlace.deeper
  indents _ _ := rfl
  noting key _ t l p _ _ _ := hw.note (w.visit key t p l)
  ask key _ t l p _ _ _ := ask_made hw (w.visit key t p l)
  openItem key _ := by
    rcases hopen : (w.registry.writersOf key).openItem with _ | hook
    · exact .none
    · exact .some fun t l p _ _ _ => hw.openItem (w.visit key t p l) hook hopen
  closeItem key _ t l p _ _ _ := callClose_made hw (hw.closeItem (w.visit key t p l))
  closing key _ t l p _ _ _ := callClose_made hw (hw.closing (w.visit key t p l))

/-- **What all that a walk is made of has, the walk has.** -/
theorem walkTree_made (hw : w.Made C) (t : Tree) (level : Nat) (path : String) :
    C (walkTree w level path t) :=
  walkTree_paired t (hw.paired t.fieldNames) (⟨rfl, rfl⟩ : SamePlace level path level path)

end Made

/-! ## What calls do to the state -/

/-- The state that a hook leaves; without a hook nothing changes. -/
def leaves {α : Type} (hook : Option (Visit → Step σ Error α)) (v : Visit) (s : σ) : σ :=
  match hook with
  | some h => (Step.run (h v) s).2
  | none => s

/-- The hook that is called when a field is entered. -/
def Opening.hook? : Opening σ → Option (OpenHook σ)
  | .nothing => none
  | .call hook => some hook

/-- The state that a call leaves: what the hook that is called does to it, or the note. -/
def Call.leaves (w : Walker σ) (c : Call) : σ → σ :=
  let writers := w.registry.writersOf c.visit.key
  match c.side, c.role with
  | .entering, _ => w.note c.visit
  | .opening, .field => Writer.leaves (writers.opening.bind Opening.hook?) c.visit
  | .opening, .item => Writer.leaves writers.openItem c.visit
  | .closing, .field => Writer.leaves writers.closing c.visit
  | .closing, .item => Writer.leaves writers.closeItem c.visit

/-- The state that calls leave when they are made one after another. -/
def replay (w : Walker σ) (cs : List Call) (s : σ) : σ :=
  cs.foldl (fun s c => c.leaves w s) s

/-- The call runs from a state to another one: the hook that is registered for it gives the answer
and leaves the state. A note is taken in any state. -/
inductive Call.Runs (w : Walker σ) : Call → σ → σ → Prop where
  | noted (v : Visit) (s : σ) : Call.Runs w ⟨.field, .entering, v, .ok false⟩ s (w.note v s)
  | opened {v : Visit} {hook : OpenHook σ}
      (h : (w.registry.writersOf v.key).opening = some (.call hook)) (s : σ) :
      Call.Runs w ⟨.field, .opening, v, (Step.run (hook v) s).1⟩ s (Step.run (hook v) s).2
  | openedItem {v : Visit} {hook : OpenHook σ}
      (h : (w.registry.writersOf v.key).openItem = some hook) (s : σ) :
      Call.Runs w ⟨.item, .opening, v, (Step.run (hook v) s).1⟩ s (Step.run (hook v) s).2
  | closedItem {v : Visit} {hook : CloseHook σ}
      (h : (w.registry.writersOf v.key).closeItem = some hook) (s : σ) :
      Call.Runs w ⟨.item, .closing, v, (Step.run (hook v) s).1.map fun _ => true⟩ s
        (Step.run (hook v) s).2
  | closed {v : Visit} {hook : CloseHook σ}
      (h : (w.registry.writersOf v.key).closing = some hook) (s : σ) :
      Call.Runs w ⟨.field, .closing, v, (Step.run (hook v) s).1.map fun _ => true⟩ s
        (Step.run (hook v) s).2

/-- The calls run one after another. -/
inductive Runs (w : Walker σ) : List Call → σ → σ → Prop where
  | nil (s : σ) : Runs w [] s s
  | cons {c : Call} {cs : List Call} {s s₁ s₂ : σ} (hc : c.Runs w s s₁) (hcs : Runs w cs s₁ s₂) :
      Runs w (c :: cs) s s₂

section Runs

variable {w : Walker σ} {c : Call} {cs cs' : List Call} {s s₁ s₂ : σ}

theorem Call.Runs.eq_leaves (h : c.Runs w s s₁) : s₁ = c.leaves w s := by
  cases h with
  | noted v s => rfl
  | opened h s => simp [Call.leaves, Writer.leaves, h, Opening.hook?]
  | openedItem h s | closedItem h s | closed h s => simp [Call.leaves, Writer.leaves, h]

theorem Runs.eq_replay (h : Runs w cs s s₁) : s₁ = replay w cs s := by
  induction h with
  | nil s => rfl
  | cons hc _ ih => rw [ih, hc.eq_leaves, replay, replay, List.foldl_cons]

theorem Runs.append (h : Runs w cs s s₁) (h' : Runs w cs' s₁ s₂) : Runs w (cs ++ cs') s s₂ := by
  induction h with
  | nil s => exact h'
  | cons hc _ ih => exact .cons hc (ih h')

theorem Runs.exists_of_append (h : Runs w (cs ++ cs') s s₂) :
    ∃ s₁, Runs w cs s s₁ ∧ Runs w cs' s₁ s₂ := by
  induction cs generalizing s with
  | nil => exact ⟨s, .nil s, h⟩
  | cons c cs ih =>
      cases h with
      | cons hc hcs =>
          obtain ⟨s₁, hcs, hcs'⟩ := ih hcs
          exact ⟨s₁, .cons hc hcs, hcs'⟩

end Runs

/-- The watched computation writes down calls that run from the state in which it starts to the
one that it leaves. -/
def Explained (w : Walker σ) {α : Type} (x : Step (σ × List Call) Error α) : Prop :=
  ∀ s cs, ∃ new, (Step.run x (s, cs)).2.2 = cs ++ new ∧ Runs w new s (Step.run x (s, cs)).2.1

section Explained

variable {w : Walker σ} {α β : Type}

theorem explained_const {r : Except Error α} : Explained w (Step.of fun s => (r, s)) :=
  fun s cs => ⟨[], (List.append_nil cs).symm, .nil s⟩

theorem Explained.bind {x : Step (σ × List Call) Error α}
    {f : α → Step (σ × List Call) Error β} (hx : Explained w x) (hf : ∀ a, Explained w (f a)) :
    Explained w (x >>= f) := by
  intro s cs
  obtain ⟨new, hnew, hruns⟩ := hx s cs
  rcases hrun : Step.run x (s, cs) with ⟨e | a, s₁, cs₁⟩
  · rw [hrun] at hnew hruns
    rw [Step.run_bind_of_error hrun]
    exact ⟨new, hnew, hruns⟩
  · rw [hrun] at hnew hruns
    obtain rfl : cs₁ = cs ++ new := hnew
    obtain ⟨new', hnew', hruns'⟩ := hf a s₁ (cs ++ new)
    rw [Step.run_bind_of_ok hrun]
    exact ⟨new ++ new', by rw [hnew', List.append_assoc], hruns.append hruns'⟩

theorem explained_call {role : Role} {side : Side} {report : α → Bool}
    {hook : Visit → Step σ Error α} {v : Visit}
    (h : ∀ s, Call.Runs w ⟨role, side, v, (Step.run (hook v) s).1.map report⟩ s
      (Step.run (hook v) s).2) :
    Explained w (call (watchHook role side report hook) v) := by
  intro s cs
  have hend : (Step.run (call (watchHook role side report hook) v) (s, cs)).2
      = ((Step.run (hook v) s).2,
        cs ++ [⟨role, side, v, (Step.run (hook v) s).1.map report⟩]) := by
    -- wrapping an error does not touch the state
    rw [call, Step.run_tryCatch, watchHook, Step.run_of]
    rcases Step.run (hook v) s with ⟨e | a, s₁⟩ <;> rfl
  rw [hend]
  exact ⟨_, rfl, .cons (h s) (.nil _)⟩

/-- All that a watched walk is made of is explained by its calls. -/
theorem made_watched (w : Walker σ) : w.watched.Made (Explained w) where
  pure a := explained_const
  throw e := explained_const
  bind := Explained.bind
  note v s cs := ⟨entered .field v, rfl, .cons (.noted v s) (.nil _)⟩
  opening v hook' hhook := by
    rw [writersOf_watched] at hhook
    obtain ⟨opening, hopening, hwatched⟩ := Option.map_eq_some_iff.mp hhook
    cases opening with
    | nothing => cases hwatched
    | call hook =>
        cases hwatched
        refine explained_call fun s => ?_
        rw [Except.map_id]
        exact .opened hopening s
  openItem v hook' hhook := by
    rw [writersOf_watched] at hhook
    obtain ⟨hook, hopen, rfl⟩ := Option.map_eq_some_iff.mp hhook
    refine explained_call fun s => ?_
    rw [Except.map_id]
    exact .openedItem hopen s
  closeItem v hook' hhook := by
    rw [writersOf_watched] at hhook
    obtain ⟨hook, hclose, rfl⟩ := Option.map_eq_some_iff.mp hhook
    exact explained_call (.closedItem hclose)
  closing v hook' hhook := by
    rw [writersOf_watched] at hhook
    obtain ⟨hook, hclose, rfl⟩ := Option.map_eq_some_iff.mp hhook
    exact explained_call (.closed hclose)

end Explained

/-- The calls of a walk run from the state in which it starts to the one that it leaves. -/
theorem runs_calls (w : Walker σ) (level : Nat) (path : String) (t : Tree) (s : σ) :
    Runs w (calls w level path t s) s (Step.run (walkTree w level path t) s).2 := by
  obtain ⟨e, -, -, hwatched⟩ := exists_makes w path level t s
  obtain ⟨new, hnew, hruns⟩ := walkTree_made (made_watched w) t level path s []
  rw [hwatched] at hnew hruns
  obtain rfl : calls w level path t s = new := hnew
  exact hruns

/-- **The state of a walk is that of its calls.** -/
theorem run_walkTree_eq_replay (w : Walker σ) (level : Nat) (path : String) (t : Tree) (s : σ) :
    (Step.run (walkTree w level path t) s).2 = replay w (calls w level path t s) s :=
  (runs_calls w level path t s).eq_replay

/-- How a walk fails: some calls run and succeed, and then a field has no writer, or one more call
fails. -/
theorem exists_runs_of_error {w : Walker σ} {level : Nat} {path : String} {t : Tree} {s s' : σ}
    {e : Error} (h : Step.run (walkTree w level path t) s = (.error e, s')) :
    ∃ done last s₁, calls w level path t s = done ++ last ∧ Runs w done s s₁ ∧
      (∀ c ∈ done, c.Succeeds) ∧
      ((last = [] ∧ s₁ = s' ∧ ∃ v : Visit, e = .noWriter v.path v.line) ∨
        ∃ c err, last = [c] ∧ c.Runs w s₁ s' ∧ c.answer = .error err ∧
          e = located c.visit err) := by
  obtain ⟨ending, hmakes, hresult, -⟩ := exists_makes w path level t s
  have hend : ending.result = .error e := hresult.trans (congrArg Prod.fst h)
  have hruns := runs_calls w level path t s
  rw [h] at hruns
  have hfollows := hmakes.follows
  cases ending with
  | done => cases hend
  | missing v =>
      exact ⟨calls w level path t s, [], s', (List.append_nil _).symm, hruns, hfollows.1,
        .inl ⟨rfl, rfl, v, (Except.error.inj hend).symm⟩⟩
  | raised v err =>
      obtain ⟨done, c, hcalls, hdone, rfl, hanswer⟩ := hfollows
      rw [hcalls] at hruns
      obtain ⟨s₁, hbefore, hlast⟩ := hruns.exists_of_append
      have hc : c.Runs w s₁ s' := by
        cases hlast with
        | cons hc hnil =>
            cases hnil
            exact hc
      exact ⟨done, [c], s₁, hcalls, hbefore, hdone,
        .inr ⟨c, err, rfl, hc, hanswer, (Except.error.inj hend).symm⟩⟩

end SiteConf.Writer
