import SiteConf.Proofs.Children
import SiteConf.Proofs.Step
import SiteConf.Writer.Walk

set_option autoImplicit false

/-! # The calls of a walk

A walk is watched by giving it hooks that do what the hooks of the dialect do and write down that
they were called; the note that it takes of every field is written down as well. Watching changes
nothing else: the result and the state are those of the walk itself (`exists_makes`).

`Makes` says what calls a part of a walk can make and how the part can end, whatever the hooks do
to the state. Its cases are those of the walk with the state left out, and `walkTree_watches` is
the one induction over the walk: properties of the calls follow from `Makes`. -/

namespace SiteConf.Writer

open KeyPath

variable {σ α β : Type}

/-! ## Calls -/

/-- Hooks are called for fields and for the items of a field. -/
inductive Role where
  | field
  | item
  deriving DecidableEq, Repr

/-- A walk takes note of a field when it comes to it. Hooks are called to open a node and to
close it. -/
inductive Side where
  | entering
  | opening
  | closing
  deriving DecidableEq, Repr

/-- A call of a hook, or of the note that is taken of a field, with the answer: an error, or
whether nothing is left to do below the node. Hooks that close leave nothing to do. -/
structure Call where
  role : Role
  side : Side
  visit : Visit
  answer : Except Error Bool

/-- The call is a call of the hook that closes what the other call has opened. -/
structure Call.Closes (d c : Call) : Prop where
  side : d.side = .closing
  role : d.role = c.role
  visit : d.visit = c.visit

/-- Which hook is called, and at which path. -/
def Call.slot (c : Call) : Role × Side × String :=
  (c.role, c.side, c.visit.path)

/-- The walk comes to a node: of a field it takes note. -/
def entered (role : Role) (v : Visit) : List Call :=
  match role with
  | .field => [⟨.field, .entering, v, .ok false⟩]
  | .item => []

/-! ## Watching -/

/-- The hook, which also writes down that it is called. -/
def watchHook (role : Role) (side : Side) (report : α → Bool) (hook : Visit → Step σ Error α)
    (v : Visit) : Step (σ × List Call) Error α :=
  Step.of fun s =>
    let r := Step.run (hook v) s.1
    (r.1, r.2, s.2 ++ [⟨role, side, v, r.1.map report⟩])

def watchOpen (role : Role) (hook : OpenHook σ) : OpenHook (σ × List Call) :=
  watchHook role .opening id hook

def watchClose (role : Role) (hook : CloseHook σ) : CloseHook (σ × List Call) :=
  watchHook role .closing (fun _ => true) hook

def Opening.watched : Opening σ → Opening (σ × List Call)
  | .nothing => .nothing
  | .call hook => .call (watchOpen .field hook)

def FieldWriters.watched (f : FieldWriters σ) : FieldWriters (σ × List Call) where
  opening := f.opening.map Opening.watched
  openItem := f.openItem.map (watchOpen .item)
  closeItem := f.closeItem.map (watchClose .item)
  closing := f.closing.map (watchClose .field)

def Walker.watched (w : Walker σ) : Walker (σ × List Call) where
  registry := w.registry.map fun e => (e.1, e.2.watched)
  origins := w.origins
  note v s := (w.note v s.1, s.2 ++ entered .field v)

theorem writersOf_watched (w : Walker σ) (key : String) :
    w.watched.registry.writersOf key = (w.registry.writersOf key).watched := by
  show (Ordered.get? key (w.registry.map fun e => (e.1, e.2.watched))).getD {}
    = ((Ordered.get? key w.registry).getD {}).watched
  induction w.registry with
  | nil => rfl
  | cons e registry ih =>
      rw [List.map_cons, Ordered.get?_cons]
      obtain ⟨name, f⟩ := e
      rw [Ordered.get?_cons]
      by_cases hname : name = key
      · rw [if_pos hname, if_pos hname]
        rfl
      · rw [if_neg hname, if_neg hname]
        exact ih

def calls (w : Walker σ) (level : Nat) (path : String) (t : Tree) (s : σ) : List Call :=
  (Step.run (walkTree w.watched level path t) (s, [])).2.2

/-! ## Endings -/

/-- How a walk, or a part of it, ends: it goes through, it comes to a field that needs a writer
and has none, or a hook fails for a node. -/
inductive Ending where
  | done
  | missing (v : Visit)
  | raised (v : Visit) (e : Error)

def Ending.result : Ending → Except Error Unit
  | .done => .ok ()
  | .missing v => .error (.noWriter v.path v.line)
  | .raised v e => .error (located v e)

/-- The node at which a walk fails. -/
def Ending.node? : Ending → Option Visit
  | .done => none
  | .missing v => some v
  | .raised v _ => some v

theorem Ending.eq_done_of_result {e : Ending} (h : e.result = .ok ()) : e = .done := by
  cases e with
  | done => rfl
  | missing v => cases h
  | raised v e => cases h

theorem Ending.ne_done_of_result {e : Ending} {err : Error} (h : e.result = .error err) :
    e ≠ .done := by
  rintro rfl
  cases h

theorem Ending.exists_node?_of_ne_done {e : Ending} (h : e ≠ .done) : ∃ v, e.node? = some v := by
  cases e with
  | done => exact absurd rfl h
  | missing v => exact ⟨v, rfl⟩
  | raised v e => exact ⟨v, rfl⟩

/-! ## What the parts of a walk can do -/

section Makes

variable (w : Walker σ) (base : String)

/-- The visit of the node at `steps` below `base`. -/
def visitAt (key : String) (value : Tree) (steps : List Tree.Step) (level : Nat) : Visit :=
  ⟨key, value, base ++ ofSteps steps, level, w.origins.lineOf (base ++ ofSteps steps)⟩

/-- Is there a hook that opens what has the role under the key? -/
def Walker.opens (role : Role) (key : String) : Prop :=
  match role with
  | .field => ∃ hook, (w.registry.writersOf key).opening = some (.call hook)
  | .item => (w.registry.writersOf key).openItem.isSome = true

/-- Is there a hook that closes what has the role under the key? -/
def Walker.closes (role : Role) (key : String) : Prop :=
  match role with
  | .field => (w.registry.writersOf key).closing.isSome = true
  | .item => (w.registry.writersOf key).closeItem.isSome = true

/-- How a node is opened: the calls, and the failure or whether the node is handled and at what
level its inside is written. -/
inductive Opened : Role → Visit → List Call → Except Ending (Bool × Nat) → Prop where
  | nothing {v : Visit} (h : (w.registry.writersOf v.key).opening = some .nothing) :
      Opened .field v (entered .field v) (.ok (false, v.level))
  | plain {v : Visit} (h : (w.registry.writersOf v.key).opening = none)
      (hplain : v.value.isPlain = true) :
      Opened .field v (entered .field v) (.ok (false, v.level))
  | missing {v : Visit} (h : (w.registry.writersOf v.key).opening = none)
      (hplain : v.value.isPlain = false) :
      Opened .field v (entered .field v) (.error (.missing v))
  | called {role : Role} {v : Visit} (h : w.opens role v.key) (handled : Bool) :
      Opened role v (entered role v ++ [⟨role, .opening, v, .ok handled⟩])
        (.ok (handled, v.level + 1))
  | failed {role : Role} {v : Visit} (h : w.opens role v.key) (e : Error) :
      Opened role v (entered role v ++ [⟨role, .opening, v, .error e⟩]) (.error (.raised v e))

inductive Closed : Role → Visit → List Call → Ending → Prop where
  | nothing {role : Role} {v : Visit} (h : ¬ w.closes role v.key) : Closed role v [] .done
  | called {role : Role} {v : Visit} (h : w.closes role v.key) :
      Closed role v [⟨role, .closing, v, .ok true⟩] .done
  | failed {role : Role} {v : Visit} (h : w.closes role v.key) (e : Error) :
      Closed role v [⟨role, .closing, v, .error e⟩] (.raised v e)

/-- As what a step leads to a node: a key leads to a field, and an index to an item when the
sequence is dispatched under the name of its owner. Other items are passed without a call. -/
def roleOf? (owner : Option String) : Tree.Step → Option (Role × String)
  | .key k => some (.field, k)
  | .index _ => owner.map fun k => (.item, k)

/-- The name under which the items of a node are dispatched. -/
def ownerIn (role : Role) (key : String) : Option String :=
  match role with
  | .field => if (w.registry.writersOf key).openItem.isSome then some key else none
  | .item => none

/-- A part of a walk: the children of the node at `steps`, or one of them. -/
inductive Part where
  | through (owner : Option String) (level : Nat) (steps : List Tree.Step)
      (children : List (Tree.Step × Tree))
  | one (owner : Option String) (level : Nat) (steps : List Tree.Step) (step : Tree.Step)
      (t : Tree)

/-- The calls that a part of a walk can make, and how it then ends. -/
inductive Makes : Part → List Call → Ending → Prop where
  | nil {owner : Option String} {level : Nat} {steps : List Tree.Step} :
      Makes (.through owner level steps []) [] .done
  | stop {owner : Option String} {level : Nat} {steps : List Tree.Step}
      {child : Tree.Step × Tree} {rest : List (Tree.Step × Tree)} {cs : List Call} {e : Ending}
      (hchild : Makes (.one owner level steps child.1 child.2) cs e) (he : e ≠ .done) :
      Makes (.through owner level steps (child :: rest)) cs e
  | next {owner : Option String} {level : Nat} {steps : List Tree.Step}
      {child : Tree.Step × Tree} {rest : List (Tree.Step × Tree)} {cs cs' : List Call}
      {e : Ending} (hchild : Makes (.one owner level steps child.1 child.2) cs .done)
      (hrest : Makes (.through owner level steps rest) cs' e) :
      Makes (.through owner level steps (child :: rest)) (cs ++ cs') e
  | pass {owner : Option String} {level : Nat} {steps : List Tree.Step} {step : Tree.Step}
      {t : Tree} {cs : List Call} {e : Ending} (hrole : roleOf? owner step = none)
      (hinside : Makes (.through none level (steps ++ [step]) t.children) cs e) :
      Makes (.one owner level steps step t) cs e
  | refused {owner : Option String} {level : Nat} {steps : List Tree.Step} {step : Tree.Step}
      {t : Tree} {role : Role} {key : String} {os : List Call} {e : Ending}
      (hrole : roleOf? owner step = some (role, key))
      (hopen : Opened w role (visitAt w base key t (steps ++ [step]) level) os (.error e)) :
      Makes (.one owner level steps step t) os e
  | broken {owner : Option String} {level : Nat} {steps : List Tree.Step} {step : Tree.Step}
      {t : Tree} {role : Role} {key : String} {handled : Bool} {inner : Nat}
      {os cs : List Call} {e : Ending} (hrole : roleOf? owner step = some (role, key))
      (hopen : Opened w role (visitAt w base key t (steps ++ [step]) level) os
        (.ok (handled, inner)))
      (hinside : Makes (.through (ownerIn w role key) inner (steps ++ [step])
        (if handled then [] else t.children)) cs e) (he : e ≠ .done) :
      Makes (.one owner level steps step t) (os ++ cs) e
  | closed {owner : Option String} {level : Nat} {steps : List Tree.Step} {step : Tree.Step}
      {t : Tree} {role : Role} {key : String} {handled : Bool} {inner : Nat}
      {os cs zs : List Call} {e : Ending} (hrole : roleOf? owner step = some (role, key))
      (hopen : Opened w role (visitAt w base key t (steps ++ [step]) level) os
        (.ok (handled, inner)))
      (hinside : Makes (.through (ownerIn w role key) inner (steps ++ [step])
        (if handled then [] else t.children)) cs .done)
      (hclose : Closed w role (visitAt w base key t (steps ++ [step]) level) zs e) :
      Makes (.one owner level steps step t) (os ++ cs ++ zs) e

end Makes

/-! ## Watched computations -/

/-- The watched computation does what the computation does, and writes down calls that, with the
result, have the property. -/
def Watches (x : Step σ Error α) (x' : Step (σ × List Call) Error α)
    (P : List Call → Except Error α → Prop) : Prop :=
  ∀ s cs, ∃ new, Step.run x' (s, cs) = ((Step.run x s).1, (Step.run x s).2, cs ++ new) ∧
    P new (Step.run x s).1

/-- The calls and the result are those of an ending with the property. -/
def Ends (P : List Call → Ending → Prop) (new : List Call) (r : Except Error Unit) : Prop :=
  ∃ e : Ending, e.result = r ∧ P new e

section Watches

variable {x : Step σ Error α} {x' : Step (σ × List Call) Error α}
  {P Q : List Call → Except Error α → Prop}

theorem Watches.imp (h : Watches x x' P) (himp : ∀ new r, P new r → Q new r) :
    Watches x x' Q := by
  intro s cs
  obtain ⟨new, hrun, hP⟩ := h s cs
  exact ⟨new, hrun, himp _ _ hP⟩

theorem Watches.pure {a : α} (h : P [] (.ok a)) :
    Watches (pure a : Step σ Error α) (pure a) P := by
  intro s cs
  exact ⟨[], by simp, h⟩

theorem Watches.throw {e : Error} (h : P [] (.error e)) :
    Watches (throw e : Step σ Error α) (throw e) P := by
  intro s cs
  exact ⟨[], by simp, h⟩

/-- Of a sequence the calls are those of its parts, as far as it comes. -/
theorem Watches.bind {f : α → Step σ Error β} {f' : α → Step (σ × List Call) Error β}
    {R : List Call → Except Error β → Prop} (hx : Watches x x' P)
    (hok : ∀ new a, P new (.ok a) → Watches (f a) (f' a) fun new' r => R (new ++ new') r)
    (herror : ∀ new e, P new (.error e) → R new (.error e)) :
    Watches (x >>= f) (x' >>= f') R := by
  intro s cs
  obtain ⟨new, hrun, hP⟩ := hx s cs
  rcases hxs : Step.run x s with ⟨e | a, s₁⟩
  · rw [hxs] at hrun hP
    refine ⟨new, ?_, ?_⟩
    · rw [Step.run_bind_of_error hrun, Step.run_bind_of_error hxs]
    · rw [Step.run_bind_of_error hxs]
      exact herror new e hP
  · rw [hxs] at hrun hP
    obtain ⟨new', hrun', hR⟩ := hok new a hP s₁ (cs ++ new)
    refine ⟨new ++ new', ?_, ?_⟩
    · rw [Step.run_bind_of_ok hrun, hrun', Step.run_bind_of_ok hxs, List.append_assoc]
    · rw [Step.run_bind_of_ok hxs]
      exact hR

end Watches

/-- A hook that is called writes down its answer; its error is reported for the node. -/
theorem call_watches (role : Role) (side : Side) (report : α → Bool)
    (hook : Visit → Step σ Error α) (v : Visit) :
    Watches (call hook v) (call (watchHook role side report hook) v) fun new r =>
      (∃ a, r = .ok a ∧ new = [⟨role, side, v, .ok (report a)⟩]) ∨
        ∃ e, r = .error (located v e) ∧ new = [⟨role, side, v, .error e⟩] := by
  intro s cs
  rw [call, call, Step.run_tryCatch, Step.run_tryCatch, watchHook, Step.run_of]
  rcases hhook : Step.run (hook v) s with ⟨e | a, s'⟩
  · exact ⟨[⟨role, side, v, .error e⟩], by simp [Except.map], .inr ⟨e, by simp⟩⟩
  · exact ⟨[⟨role, side, v, .ok (report a)⟩], by simp [Except.map], .inl ⟨a, rfl, rfl⟩⟩

/-! ## Opening and closing -/

section Bracket

variable {w : Walker σ}

theorem callClose_watches {role : Role} {hook : Option (CloseHook σ)} {v : Visit}
    (hhook : w.closes role v.key ↔ hook.isSome = true) :
    Watches (callClose hook v) (callClose (hook.map (watchClose role)) v)
      (Ends (Closed w role v)) := by
  cases hook with
  | none =>
      have hnone : ¬ w.closes role v.key := by simp [hhook]
      exact Watches.pure ⟨.done, rfl, .nothing hnone⟩
  | some hook =>
      have hsome : w.closes role v.key := by simp [hhook]
      refine (call_watches role .closing (fun _ => true) hook v).imp fun new r h => ?_
      rcases h with ⟨a, rfl, rfl⟩ | ⟨e, rfl, rfl⟩
      · exact ⟨.done, rfl, .called hsome⟩
      · exact ⟨.raised v e, rfl, .failed hsome e⟩

/-- The result of opening a node, as the walk goes on with it. -/
def Opens (w : Walker σ) (role : Role) (v : Visit) (new : List Call)
    (r : Except Error (Bool × Nat)) : Prop :=
  match r with
  | .ok a => Opened w role v new (.ok a)
  | .error err => ∃ e : Ending, e.result = .error err ∧ Opened w role v new (.error e)

theorem callOpen_watches {role : Role} {hook : OpenHook σ} {v : Visit}
    (hhook : w.opens role v.key) :
    Watches (do return (← call hook v, v.level + 1))
      (do return (← call (watchOpen role hook) v, v.level + 1))
      (fun new r => Opens w role v (entered role v ++ new) r) := by
  refine (call_watches role .opening id hook v).bind ?_ ?_
  · rintro new a (⟨b, hb, rfl⟩ | ⟨e, he, -⟩)
    · cases hb
      exact Watches.pure (.called hhook a)
    · cases he
  · rintro new err (⟨a, ha, -⟩ | ⟨e, he, rfl⟩)
    · cases ha
    · cases he
      exact ⟨.raised v e, rfl, .failed hhook e⟩

theorem enter_watches (v : Visit) :
    Watches (enter (w.registry.writersOf v.key).opening v)
      (enter (w.watched.registry.writersOf v.key).opening v)
      (fun new r => Opens w .field v (entered .field v ++ new) r) := by
  rw [writersOf_watched]
  show Watches _ (enter ((w.registry.writersOf v.key).opening.map Opening.watched) v) _
  rcases hopening : (w.registry.writersOf v.key).opening with _ | _ | hook
  · by_cases hplain : v.value.isPlain = true
    · rw [Option.map_none, enter, enter, if_pos hplain, if_pos hplain]
      exact Watches.pure (.plain hopening hplain)
    · rw [Option.map_none, enter, enter, if_neg hplain, if_neg hplain]
      exact Watches.throw ⟨.missing v, rfl, .missing hopening (by simpa using hplain)⟩
  · exact Watches.pure (.nothing hopening)
  · exact callOpen_watches ⟨hook, hopening⟩

/-- Takes note of a field and enters it. -/
def comeTo (w : Walker σ) (v : Visit) : Step σ Error (Bool × Nat) :=
  (Step.of fun s => (.ok (), w.note v s)) >>= fun _ =>
    enter (w.registry.writersOf v.key).opening v

theorem comeTo_watches (v : Visit) :
    Watches (comeTo w v) (comeTo w.watched v) (Opens w .field v) := by
  have hnote : Watches (Step.of fun s => (.ok (), w.note v s) : Step σ Error Unit)
      (Step.of fun s => (.ok (), w.watched.note v s))
      (fun new r => new = entered .field v ∧ r = .ok ()) := by
    intro s cs
    exact ⟨entered .field v, by simp [Walker.watched], rfl, rfl⟩
  refine hnote.bind ?_ ?_
  · rintro new a ⟨rfl, -⟩
    exact enter_watches v
  · rintro new e ⟨-, he⟩
    cases he

end Bracket

/-- Opens a node, goes inside unless the node is handled, and closes it. -/
def bracket (enter : Step σ Error (Bool × Nat)) (inside : Nat → Step σ Error Unit)
    (close : Step σ Error Unit) : Step σ Error Unit :=
  enter >>= fun a => (if a.1 then pure () else inside a.2) >>= fun _ => close

theorem around_eq (w : Walker σ) (v : Visit)
    (inside : Option (FieldWriters σ) → Nat → Step σ Error Unit) :
    around w v inside
      = bracket (comeTo w v) (inside (Ordered.get? v.key w.registry))
          (callClose (w.registry.writersOf v.key).closing v) := by
  unfold around bracket comeTo
  rw [← Registry.bind_opening, ← Registry.bind_closing, bind_assoc]
  refine bind_congr fun _ => bind_congr fun a => ?_
  obtain ⟨handled, inner⟩ := a
  cases handled <;> rfl

theorem aroundItem_eq (openItem : OpenHook σ) (closeItem : Option (CloseHook σ)) (v : Visit)
    (inside : Step σ Error Unit) :
    aroundItem openItem closeItem v inside
      = bracket (do return (← call openItem v, v.level + 1)) (fun _ => inside)
          (callClose closeItem v) := by
  unfold aroundItem bracket
  rw [bind_assoc]
  refine bind_congr fun handled => ?_
  rw [pure_bind]
  cases handled <;> rfl

section Node

variable {w : Walker σ} {base : String} {owner : Option String} {level : Nat}
  {steps : List Tree.Step} {step : Tree.Step} {t : Tree} {role : Role} {key : String}

/-- A node that is opened and closed, when its inside does what the children do. -/
theorem bracket_watches {x : Step σ Error (Bool × Nat)}
    {x' : Step (σ × List Call) Error (Bool × Nat)} {inside : Nat → Step σ Error Unit}
    {inside' : Nat → Step (σ × List Call) Error Unit} {y : Step σ Error Unit}
    {y' : Step (σ × List Call) Error Unit} (hrole : roleOf? owner step = some (role, key))
    (hx : Watches x x' (Opens w role (visitAt w base key t (steps ++ [step]) level)))
    (hinside : ∀ os handled inner,
      Opened w role (visitAt w base key t (steps ++ [step]) level) os (.ok (handled, inner)) →
      Watches (inside inner) (inside' inner)
        (Ends (Makes w base (.through (ownerIn w role key) inner (steps ++ [step]) t.children))))
    (hy : Watches y y' (Ends (Closed w role (visitAt w base key t (steps ++ [step]) level)))) :
    Watches (bracket x inside y) (bracket x' inside' y')
      (Ends (Makes w base (.one owner level steps step t))) := by
  refine hx.bind ?_ ?_
  · rintro os ⟨handled, inner⟩ hopened
    have hbody : Watches (if handled then pure () else inside inner)
        (if handled then pure () else inside' inner)
        (Ends (Makes w base (.through (ownerIn w role key) inner (steps ++ [step])
          (if handled then [] else t.children)))) := by
      cases handled with
      | true => exact Watches.pure ⟨.done, rfl, .nil⟩
      | false => exact hinside os false inner hopened
    refine hbody.bind ?_ ?_
    · rintro cs _ ⟨e, he, hmakes⟩
      rw [Ending.eq_done_of_result he] at hmakes
      refine hy.imp ?_
      rintro zs r ⟨e', he', hclosed⟩
      rw [← List.append_assoc]
      exact ⟨e', he', .closed hrole hopened hmakes hclosed⟩
    · rintro cs err ⟨e, he, hmakes⟩
      exact ⟨e, he, .broken hrole hopened hmakes (Ending.ne_done_of_result he)⟩
  · rintro os err ⟨e, he, hopened⟩
    exact ⟨e, he, .refused hrole hopened⟩

theorem around_watches {inside : Option (FieldWriters σ) → Nat → Step σ Error Unit}
    {inside' : Option (FieldWriters (σ × List Call)) → Nat → Step (σ × List Call) Error Unit}
    (hinside : ∀ inner, Watches (inside (Ordered.get? key w.registry) inner)
      (inside' (Ordered.get? key w.watched.registry) inner)
      (Ends (Makes w base (.through (ownerIn w .field key) inner (steps ++ [Tree.Step.key key])
        t.children)))) :
    Watches (around w (visitAt w base key t (steps ++ [Tree.Step.key key]) level) inside)
      (around w.watched (visitAt w base key t (steps ++ [Tree.Step.key key]) level) inside')
      (Ends (Makes w base (.one owner level steps (.key key) t))) := by
  let v := visitAt w base key t (steps ++ [Tree.Step.key key]) level
  have hclose : Watches (callClose (w.registry.writersOf v.key).closing v)
      (callClose (w.watched.registry.writersOf v.key).closing v) (Ends (Closed w .field v)) := by
    rw [writersOf_watched w v.key]
    exact callClose_watches Iff.rfl
  rw [around_eq, around_eq]
  exact bracket_watches rfl (comeTo_watches v) (fun _ _ inner _ => hinside inner) hclose

theorem aroundItem_watches {openItem : OpenHook σ} {inside : Step σ Error Unit}
    {inside' : Step (σ × List Call) Error Unit} {index : Nat}
    (hopen : (w.registry.writersOf key).openItem = some openItem)
    (hinside : Watches inside inside'
      (Ends (Makes w base
        (.through none (level + 1) (steps ++ [Tree.Step.index index]) t.children)))) :
    Watches
      (aroundItem openItem (w.registry.writersOf key).closeItem
        (visitAt w base key t (steps ++ [Tree.Step.index index]) level) inside)
      (aroundItem (watchOpen .item openItem) (w.registry.writersOf key).watched.closeItem
        (visitAt w base key t (steps ++ [Tree.Step.index index]) level) inside')
      (Ends (Makes w base (.one (some key) level steps (.index index) t))) := by
  let v := visitAt w base key t (steps ++ [Tree.Step.index index]) level
  have hopens : w.opens .item v.key := by
    show (w.registry.writersOf key).openItem.isSome = true
    rw [hopen]
    rfl
  rw [aroundItem_eq, aroundItem_eq]
  refine bracket_watches rfl (callOpen_watches hopens) ?_ (callClose_watches Iff.rfl)
  -- an item that is opened is written one level deeper
  intro os handled inner hopened
  cases hopened with
  | called => exact hinside

end Node

/-! ## The whole walk -/

section Walk

variable (w : Walker σ) (base : String)

theorem child_ofSteps (steps : List Tree.Step) (key : String) :
    KeyPath.child (base ++ ofSteps steps) key = base ++ ofSteps (steps ++ [.key key]) := by
  rw [ofSteps_append_key, KeyPath.child, KeyPath.child, String.append_assoc, String.append_assoc,
    String.append_assoc]

theorem item_ofSteps (steps : List Tree.Step) (index : Nat) :
    KeyPath.item (base ++ ofSteps steps) index = base ++ ofSteps (steps ++ [.index index]) := by
  rw [ofSteps_append_index, KeyPath.item, KeyPath.item, String.append_assoc, String.append_assoc,
    String.append_assoc]

/-- Going through children one by one. -/
theorem through_watches {owner : Option String} {level : Nat} {steps : List Tree.Step}
    {child : Tree.Step × Tree} {rest : List (Tree.Step × Tree)} {x y : Step σ Error Unit}
    {x' y' : Step (σ × List Call) Error Unit}
    (hx : Watches x x' (Ends (Makes w base (.one owner level steps child.1 child.2))))
    (hy : Watches y y' (Ends (Makes w base (.through owner level steps rest)))) :
    Watches (do x; y) (do x'; y')
      (Ends (Makes w base (.through owner level steps (child :: rest)))) := by
  refine hx.bind ?_ ?_
  · rintro cs _ ⟨e, he, hmakes⟩
    rw [Ending.eq_done_of_result he] at hmakes
    refine hy.imp ?_
    rintro cs' r ⟨e', he', hrest⟩
    exact ⟨e', he', .next hmakes hrest⟩
  · rintro cs err ⟨e, he, hmakes⟩
    exact ⟨e, he, .stop hmakes (Ending.ne_done_of_result he)⟩

mutual

/-- **A walk makes the calls of its children.** The recursion is that of the walk. -/
theorem walkTree_watches : ∀ (t : Tree) (level : Nat) (steps : List Tree.Step),
    Watches (walkTree w level (base ++ ofSteps steps) t)
      (walkTree w.watched level (base ++ ofSteps steps) t)
      (Ends (Makes w base (.through none level steps t.children)))
  | .scalar v, level, steps => by
      rw [walkTree, walkTree]
      exact Watches.pure ⟨.done, rfl, .nil⟩
  | .sequence items, level, steps => by
      rw [walkTree, walkTree]
      exact walkItems_watches items level steps 0
  | .mapping fields, level, steps => by
      rw [walkTree, walkTree]
      exact walkFields_watches fields none level steps

theorem walkItems_watches : ∀ (items : List Tree) (level : Nat) (steps : List Tree.Step)
    (index : Nat),
    Watches (walkItems w level (base ++ ofSteps steps) index items)
      (walkItems w.watched level (base ++ ofSteps steps) index items)
      (Ends (Makes w base (.through none level steps (Tree.itemSteps index items))))
  | [], level, steps, index => by
      rw [walkItems, walkItems]
      exact Watches.pure ⟨.done, rfl, .nil⟩
  | t :: ts, level, steps, index => by
      rw [walkItems, walkItems, item_ofSteps]
      have hitem := walkTree_watches t level (steps ++ [Tree.Step.index index])
      refine through_watches w base (hitem.imp ?_) (walkItems_watches ts level steps (index + 1))
      rintro new r ⟨e, he, hmakes⟩
      exact ⟨e, he, .pass rfl hmakes⟩

theorem walkFields_watches : ∀ (fields : List (String × Tree)) (owner : Option String)
    (level : Nat) (steps : List Tree.Step),
    Watches (walkFields w level (base ++ ofSteps steps) fields)
      (walkFields w.watched level (base ++ ofSteps steps) fields)
      (Ends (Makes w base (.through owner level steps (Tree.fieldSteps fields))))
  | [], owner, level, steps => by
      rw [walkFields, walkFields]
      exact Watches.pure ⟨.done, rfl, .nil⟩
  | (key, t) :: rest, owner, level, steps => by
      rw [walkFields, walkFields, child_ofSteps]
      exact through_watches w base (visitField_watches t owner level steps key)
        (walkFields_watches rest owner level steps)

theorem visitField_watches : ∀ (t : Tree) (owner : Option String) (level : Nat)
    (steps : List Tree.Step) (key : String),
    Watches (visitField w level (base ++ ofSteps (steps ++ [Tree.Step.key key])) key t)
      (visitField w.watched level (base ++ ofSteps (steps ++ [Tree.Step.key key])) key t)
      (Ends (Makes w base (.one owner level steps (.key key) t)))
  | .scalar v, owner, level, steps, key => by
      rw [visitField, visitField]
      refine around_watches fun inner => ?_
      exact Watches.pure ⟨.done, rfl, .nil⟩
  | .mapping fields, owner, level, steps, key => by
      rw [visitField, visitField]
      refine around_watches fun inner => ?_
      exact walkFields_watches fields (ownerIn w .field key) inner (steps ++ [Tree.Step.key key])
  | .sequence items, owner, level, steps, key => by
      rw [visitField, visitField]
      refine around_watches fun inner => ?_
      rw [Registry.bind_openItem, Registry.bind_openItem, Registry.bind_closeItem,
        Registry.bind_closeItem, writersOf_watched]
      rcases hopen : (w.registry.writersOf key).openItem with _ | openItem
      · have howner : ownerIn w .field key = none := by simp [ownerIn, hopen]
        rw [howner]
        simp only [FieldWriters.watched, hopen, Option.map_none]
        exact walkItems_watches items inner (steps ++ [Tree.Step.key key]) 0
      · have howner : ownerIn w .field key = some key := by simp [ownerIn, hopen]
        rw [howner]
        simp only [FieldWriters.watched, hopen, Option.map_some]
        exact visitItems_watches items hopen inner (steps ++ [Tree.Step.key key]) 0

theorem visitItems_watches : ∀ (items : List Tree) {key : String} {openItem : OpenHook σ}
    (_ : (w.registry.writersOf key).openItem = some openItem) (level : Nat)
    (steps : List Tree.Step) (index : Nat),
    Watches
      (visitItems w openItem (w.registry.writersOf key).closeItem level (base ++ ofSteps steps) key
        index items)
      (visitItems w.watched (watchOpen .item openItem) (w.registry.writersOf key).watched.closeItem
        level (base ++ ofSteps steps) key index items)
      (Ends (Makes w base (.through (some key) level steps (Tree.itemSteps index items))))
  | [], key, openItem, hopen, level, steps, index => by
      rw [visitItems, visitItems]
      exact Watches.pure ⟨.done, rfl, .nil⟩
  | t :: ts, key, openItem, hopen, level, steps, index => by
      rw [visitItems, visitItems, item_ofSteps]
      have hinside := walkTree_watches t (level + 1) (steps ++ [Tree.Step.index index])
      exact through_watches w base (aroundItem_watches hopen hinside)
        (visitItems_watches ts hopen level steps (index + 1))

end

/-- **Watching changes nothing**, and the calls of a walk are those that its children make. -/
theorem exists_makes (level : Nat) (t : Tree) (s : σ) :
    ∃ e : Ending, Makes w base (.through none level [] t.children) (calls w level base t s) e ∧
      e.result = (Step.run (walkTree w level base t) s).1 ∧
      Step.run (walkTree w.watched level base t) (s, [])
        = ((Step.run (walkTree w level base t) s).1, (Step.run (walkTree w level base t) s).2,
            calls w level base t s) := by
  have hbase : base ++ ofSteps [] = base := String.append_empty
  obtain ⟨new, hrun, e, he, hmakes⟩ := walkTree_watches w base t level [] s []
  rw [hbase] at hrun he
  have hcalls : calls w level base t s = new := by
    rw [calls, hrun]
    rfl
  rw [hcalls]
  exact ⟨e, hmakes, he, hrun⟩

end Walk

end SiteConf.Writer
