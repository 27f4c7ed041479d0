import SiteConf.Proofs.PairedWalks

set_option autoImplicit false

/-! # Two walks side by side

Two walks over the same tree are compared: they may differ in their registries, in their tables of
lines and in the state they start from. What they are allowed to differ in is given by two
relations, `L` between the lines that the two walks know of a node and `S` between their states.

`Walker.Alike` says when the data of two walks agree in this sense: the hooks under the names of
interest do the same for visits and states that are alike. Then the walks stay in lockstep
(`walkTree_lockstep`): they end alike, in states that are alike. Since a watched walk is a walk
too, they also make the same calls (`walkTree_alike`). -/

namespace SiteConf.Writer

variable {σ α β : Type} {L : LineRef → LineRef → Prop} {S : σ → σ → Prop}

/-! ## What is alike -/

/-- Visits of the same node, whose lines may differ. -/
structure Visit.Alike (L : LineRef → LineRef → Prop) (v v' : Visit) : Prop where
  key : v.key = v'.key
  value : v.value = v'.value
  path : v.path = v'.path
  level : v.level = v'.level
  line : L v.line v'.line

/-- The same error, up to the line that the walk has added to it. -/
inductive ErrorAlike (L : LineRef → LineRef → Prop) : Error → Error → Prop where
  | same (e : Error) : ErrorAlike L e e
  | noWriter (path : String) {line line' : LineRef} (h : L line line') :
      ErrorAlike L (.noWriter path line) (.noWriter path line')
  | writerFailed (path message : String) {line line' : LineRef} (h : L line line') :
      ErrorAlike L (.writerFailed path line message) (.writerFailed path line' message)

/-- Both results are the same value, or both are errors that are alike. -/
inductive ResultAlike (L : LineRef → LineRef → Prop) : Except Error α → Except Error α → Prop where
  | ok (a : α) : ResultAlike L (.ok a) (.ok a)
  | error {e e' : Error} (h : ErrorAlike L e e') : ResultAlike L (.error e) (.error e')

structure Call.Alike (L : LineRef → LineRef → Prop) (c c' : Call) : Prop where
  role : c.role = c'.role
  side : c.side = c'.side
  visit : c.visit.Alike L c'.visit
  answer : c.answer = c'.answer

/-- Hooks that do the same for visits and states that are alike. -/
def HookAlike (L : LineRef → LineRef → Prop) (S : σ → σ → Prop)
    (hook hook' : Visit → Step σ Error α) : Prop :=
  ∀ v v' s s', v.Alike L v' → S s s' →
    (Step.run (hook v) s).1 = (Step.run (hook' v') s').1 ∧
      S (Step.run (hook v) s).2 (Step.run (hook' v') s').2

inductive Opening.Alike (L : LineRef → LineRef → Prop) (S : σ → σ → Prop) :
    Opening σ → Opening σ → Prop where
  | nothing : Alike L S .nothing .nothing
  | call {hook hook' : OpenHook σ} (h : HookAlike L S hook hook') :
      Alike L S (.call hook) (.call hook')

/-- Fields that have the same kinds of hooks, which do the same. -/
structure FieldWriters.Alike (L : LineRef → LineRef → Prop) (S : σ → σ → Prop)
    (f f' : FieldWriters σ) : Prop where
  opening : Option.Rel (Opening.Alike L S) f.opening f'.opening
  openItem : Option.Rel (HookAlike L S) f.openItem f'.openItem
  closeItem : Option.Rel (HookAlike L S) f.closeItem f'.closeItem
  closing : Option.Rel (HookAlike L S) f.closing f'.closing

/-- Walks that differ in nothing but what the relations allow, as far as fields with the given
names are concerned. -/
structure Walker.Alike (L : LineRef → LineRef → Prop) (S : σ → σ → Prop) (names : List String)
    (w w' : Walker σ) : Prop where
  writers : ∀ name ∈ names,
    (w.registry.writersOf name).Alike L S (w'.registry.writersOf name)
  lines : ∀ path, L (w.origins.lineOf path) (w'.origins.lineOf path)
  note : ∀ v v' s s', v.Alike L v' → S s s' → S (w.note v s) (w'.note v' s')

/-- The visits that two walks make of a node. -/
theorem Walker.Alike.visit {names : List String} {w w' : Walker σ} (h : w.Alike L S names w')
    (key : String) (value : Tree) (path : String) (level : Nat) :
    Visit.Alike L ⟨key, value, path, level, w.origins.lineOf path⟩
      ⟨key, value, path, level, w'.origins.lineOf path⟩ :=
  ⟨rfl, rfl, rfl, rfl, h.lines path⟩

/-! ## Computations in lockstep -/

/-- From states that are alike, both computations end alike, in states that are alike. -/
def Lockstep (L : LineRef → LineRef → Prop) (S : σ → σ → Prop) (x x' : Step σ Error α) : Prop :=
  ∀ s s', S s s' → ResultAlike L (Step.run x s).1 (Step.run x' s').1 ∧
    S (Step.run x s).2 (Step.run x' s').2

theorem Lockstep.pure (a : α) : Lockstep L S (pure a) (pure a) :=
  fun _ _ h => ⟨.ok a, h⟩

theorem Lockstep.throw {e e' : Error} (he : ErrorAlike L e e') :
    Lockstep L S (throw e : Step σ Error α) (throw e') :=
  fun _ _ h => ⟨.error he, h⟩

theorem Lockstep.bind {x x' : Step σ Error α} {f f' : α → Step σ Error β}
    (hx : Lockstep L S x x') (hf : ∀ a, Lockstep L S (f a) (f' a)) :
    Lockstep L S (x >>= f) (x' >>= f') := by
  intro s s' hs
  obtain ⟨hresult, hstate⟩ := hx s s' hs
  rcases hrun : Step.run x s with ⟨r, s₁⟩
  rcases hrun' : Step.run x' s' with ⟨r', s₁'⟩
  rw [hrun, hrun'] at hresult hstate
  cases hresult with
  | ok a =>
      rw [Step.run_bind_of_ok hrun, Step.run_bind_of_ok hrun']
      exact hf a s₁ s₁' hstate
  | error he =>
      rw [Step.run_bind_of_error hrun, Step.run_bind_of_error hrun']
      exact ⟨.error he, hstate⟩

/-! ## One node -/

theorem located_alike {v v' : Visit} (hv : v.Alike L v') (e : Error) :
    ErrorAlike L (located v e) (located v' e) := by
  cases e with
  | writerFailed path line message => exact .same _
  | _ =>
      -- the walk adds the node, and its line is the one thing in which the visits differ
      unfold located
      rw [hv.path]
      exact .writerFailed v'.path _ hv.line

theorem call_lockstep {hook hook' : Visit → Step σ Error α} (hhook : HookAlike L S hook hook')
    {v v' : Visit} (hv : v.Alike L v') : Lockstep L S (call hook v) (call hook' v') := by
  intro s s' hs
  obtain ⟨hresult, hstate⟩ := hhook v v' s s' hv hs
  rw [call, call, Step.run_tryCatch, Step.run_tryCatch]
  rcases hrun : Step.run (hook v) s with ⟨r, s₁⟩
  rcases hrun' : Step.run (hook' v') s' with ⟨r', s₁'⟩
  rw [hrun, hrun'] at hresult hstate
  obtain rfl : r = r' := hresult
  cases r with
  | ok a => exact ⟨.ok a, hstate⟩
  | error e => exact ⟨.error (located_alike hv e), hstate⟩

theorem callClose_lockstep {hook hook' : Option (CloseHook σ)}
    (hhook : Option.Rel (HookAlike L S) hook hook') {v v' : Visit} (hv : v.Alike L v') :
    Lockstep L S (callClose hook v) (callClose hook' v') := by
  cases hhook with
  | none => exact Lockstep.pure ()
  | some hhook => exact call_lockstep hhook hv

theorem ask_lockstep {f f' : FieldWriters σ} (hf : f.Alike L S f') {v v' : Visit}
    (hv : v.Alike L v') : Lockstep L S (f.ask v) (f'.ask v') := by
  have hopening := hf.opening
  unfold FieldWriters.ask
  generalize f.opening = opening at hopening ⊢
  generalize f'.opening = opening' at hopening ⊢
  cases hopening with
  | some h =>
      cases h with
      | nothing => exact Lockstep.pure false
      | call hhook => exact call_lockstep hhook hv
  | none =>
      -- without a writer the value decides, which is the same for both
      rw [hv.value, hv.path]
      by_cases hplain : v'.value.isPlain = true
      · simp only [if_pos hplain]
        exact Lockstep.pure false
      · simp only [if_neg hplain]
        exact Lockstep.throw (.noWriter v'.path hv.line)

theorem FieldWriters.Alike.indents_eq {f f' : FieldWriters σ} (hf : f.Alike L S f') :
    f.indents = f'.indents := by
  have hopening := hf.opening
  unfold FieldWriters.indents
  generalize f.opening = opening at hopening ⊢
  generalize f'.opening = opening' at hopening ⊢
  cases hopening with
  | some h =>
      cases h with
      | nothing => rfl
      | call hhook => rfl
  | none => rfl

/-! ## The whole walk -/

theorem rel_imp {γ : Type} {R Q : γ → γ → Prop} (himp : ∀ a a', R a a' → Q a a')
    {o o' : Option γ} (h : Option.Rel R o o') : Option.Rel Q o o' := by
  cases h with
  | none => exact .none
  | some h => exact .some (himp _ _ h)

section Walk

variable {w w' : Walker σ}

/-- Walks that are alike are at the same places. -/
theorem Walker.Alike.paired {names : List String} (h : w.Alike L S names w') :
    w.Paired (Lockstep L S) SamePlace names w' where
  pure := Lockstep.pure
  bind := Lockstep.bind
  child := SamePlace.child
  item := SamePlace.item
  deeper := SamePlace.deeper
  indents key hkey := (h.writers key hkey).indents_eq
  noting := by
    rintro key - t l p _ _ ⟨rfl, rfl⟩ s s' hs
    exact ⟨.ok (), h.note _ _ s s' (h.visit key t p l) hs⟩
  ask := by
    rintro key hkey t l p _ _ ⟨rfl, rfl⟩
    exact ask_lockstep (h.writers key hkey) (h.visit key t p l)
  openItem key hkey := by
    refine rel_imp ?_ (h.writers key hkey).openItem
    rintro hook hook' hhook t l p _ _ ⟨rfl, rfl⟩
    exact call_lockstep hhook (h.visit key t p l)
  closeItem := by
    rintro key hkey t l p _ _ ⟨rfl, rfl⟩
    exact callClose_lockstep (h.writers key hkey).closeItem (h.visit key t p l)
  closing := by
    rintro key hkey t l p _ _ ⟨rfl, rfl⟩
    exact callClose_lockstep (h.writers key hkey).closing (h.visit key t p l)

/-- **Walks that are alike stay in lockstep.** -/
theorem walkTree_lockstep (t : Tree) (level : Nat) (path : String)
    (h : w.Alike L S t.fieldNames w') :
    Lockstep L S (walkTree w level path t) (walkTree w' level path t) :=
  walkTree_paired t h.paired ⟨rfl, rfl⟩

end Walk

/-! ## The calls of both walks -/

/-- What watched walks compare: the states, and the calls so far. -/
def WatchedAlike (L : LineRef → LineRef → Prop) (S : σ → σ → Prop) (s s' : σ × List Call) : Prop :=
  S s.1 s'.1 ∧ List.Forall₂ (Call.Alike L) s.2 s'.2

theorem forall₂_append_singleton {cs cs' : List Call} (h : List.Forall₂ (Call.Alike L) cs cs')
    {c c' : Call} (hc : c.Alike L c') :
    List.Forall₂ (Call.Alike L) (cs ++ [c]) (cs' ++ [c']) :=
  List.rel_append h (.cons hc .nil)

theorem HookAlike.watched {hook hook' : Visit → Step σ Error α} (h : HookAlike L S hook hook')
    (role : Role) (side : Side) (report : α → Bool) :
    HookAlike L (WatchedAlike L S) (watchHook role side report hook)
      (watchHook role side report hook') := by
  rintro v v' ⟨s, cs⟩ ⟨s', cs'⟩ hv ⟨hs, hcs⟩
  obtain ⟨hresult, hstate⟩ := h v v' s s' hv hs
  refine ⟨hresult, hstate, forall₂_append_singleton hcs ⟨rfl, rfl, hv, ?_⟩⟩
  show (Step.run (hook v) s).1.map report = (Step.run (hook' v') s').1.map report
  rw [hresult]

theorem rel_map {γ δ : Type} {R : γ → γ → Prop} {Q : δ → δ → Prop} {f : γ → δ}
    (hf : ∀ a a', R a a' → Q (f a) (f a')) {o o' : Option γ} (h : Option.Rel R o o') :
    Option.Rel Q (o.map f) (o'.map f) := by
  cases h with
  | none => exact .none
  | some h => exact .some (hf _ _ h)

theorem FieldWriters.Alike.watched {f f' : FieldWriters σ} (h : f.Alike L S f') :
    f.watched.Alike L (WatchedAlike L S) f'.watched where
  opening := by
    refine rel_map ?_ h.opening
    rintro _ _ (_ | hhook)
    · exact .nothing
    · exact .call (hhook.watched .field .opening id)
  openItem := rel_map (fun _ _ hhook => hhook.watched .item .opening id) h.openItem
  closeItem := rel_map (fun _ _ hhook => hhook.watched .item .closing _) h.closeItem
  closing := rel_map (fun _ _ hhook => hhook.watched .field .closing _) h.closing

theorem Walker.Alike.watched {names : List String} {w w' : Walker σ}
    (h : w.Alike L S names w') : w.watched.Alike L (WatchedAlike L S) names w'.watched where
  writers name hname := by
    rw [writersOf_watched, writersOf_watched]
    exact (h.writers name hname).watched
  lines := h.lines
  note := by
    rintro v v' ⟨s, cs⟩ ⟨s', cs'⟩ hv ⟨hs, hcs⟩
    exact ⟨h.note v v' s s' hv hs, forall₂_append_singleton hcs ⟨rfl, rfl, hv, rfl⟩⟩

/-- From states that are alike, two walks end alike, in states that are alike, and make the same
calls in the same order. -/
structure WalksAlike (L : LineRef → LineRef → Prop) (S : σ → σ → Prop) (w w' : Walker σ)
    (t : Tree) (level : Nat) (path : String) (s s' : σ) : Prop where
  result : ResultAlike L (Step.run (walkTree w level path t) s).1
    (Step.run (walkTree w' level path t) s').1
  state : S (Step.run (walkTree w level path t) s).2 (Step.run (walkTree w' level path t) s').2
  calls : List.Forall₂ (Call.Alike L) (calls w level path t s) (calls w' level path t s')

theorem walkTree_alike {w w' : Walker σ} {t : Tree} (h : w.Alike L S t.fieldNames w')
    (level : Nat) (path : String) {s s' : σ} (hs : S s s') :
    WalksAlike L S w w' t level path s s' := by
  obtain ⟨hresult, hstate⟩ := walkTree_lockstep t level path h s s' hs
  have hwatched := walkTree_lockstep t level path h.watched (s, []) (s', []) ⟨hs, .nil⟩
  exact ⟨hresult, hstate, hwatched.2.2⟩

end SiteConf.Writer
