import SiteConf.Proofs.Calls
import SiteConf.Proofs.Evaluation
import SiteConf.Proofs.Ordered
import SiteConf.Proofs.Requests
import Mathlib

set_option autoImplicit false

/-! # Failing walks

A template can walk the configuration several times, also from inside a writer that another walk
has called. A walk that fails ends the call of `walk`, which ends the template and all the walks
around it; what is reported is the error of the walk that failed first, which is the innermost
one.

This holds with every engine that is orderly (`Engine.Orderly`): an error in a call is the end of
what makes the call, and notes of failed walks are left to the renderer. The calls that happen
while a template is rendered are those that its program makes and those that are made by calls
(`Engine.Makes`). Since runs and walks stop at a call that fails, and at most one of the calls they
make does, the failing walks lie one inside the other, and the innermost is the one whose error is
on the desk (`invocation_tells`). -/

namespace SiteConf.Template

open SiteConf.Writer

variable {V σ : Type} {H : Host V σ}

/-! ## Walks are traced -/

namespace Host

variable (H)

/-- The hooks of a field, given by the values that are called. -/
def hooksOf (writers : Moment → Option V) (call : Calling V σ) : FieldWriters (Stage σ) :=
  ⟨(writers .opening).map (H.openingOf call), (writers .openItem).map (H.callWriter call),
    (writers .closeItem).map (H.closingOf call), (writers .closing).map (H.closingOf call)⟩

/-- What the end of a call of a writer means for the walk. -/
def resume (s : Stage σ) : Except Fault V × σ → Except Error Bool × Stage σ
  | (.ok _, m) =>
      (.ok ((H.desk m).sink (H.desk s.machine).sinks.length).handled,
        ⟨m, ((H.desk m).sink (H.desk s.machine).sinks.length).replay s.emitter⟩)
  | (.error f, m) => (.error (.template f), ⟨m, s.emitter⟩)

def request (writer : V) (v : Visit) (s : Stage σ) : Request V σ :=
  ⟨writer, [H.ofSink (H.desk s.machine).sinks.length, H.ofTree v.value],
    H.modifyDesk (Desk.addSink (Sink.ofVisit v)) s.machine⟩

theorem desk_request (writer : V) (v : Visit) (s : Stage σ) :
    H.desk (H.request writer v s).machine = (H.desk s.machine).addSink (Sink.ofVisit v) :=
  H.desk_modifyDesk _ _

theorem desk_enterField (v : Visit) (s : Stage σ) :
    H.desk (H.enterField v s).machine = (H.desk s.machine).note v.entry :=
  H.desk_modifyDesk _ _

end Host

theorem callWriter_of_noop {writer : V} (h : H.isNoop writer = true) (call : Calling V σ)
    (v : Visit) : H.callWriter call writer v = pure false :=
  if_pos h

theorem callWriter_eq {writer : V} (h : H.isNoop writer ≠ true) (call : Calling V σ) (v : Visit) :
    H.callWriter call writer v
      = Step.of fun s => H.resume s ((H.request writer v s).answer call) :=
  if_neg h

theorem traced_callWriter (writer : V) (v : Visit) :
    H.Traced Stage.machine fun call => H.callWriter call writer v := by
  by_cases h : H.isNoop writer = true
  · simp only [callWriter_of_noop h]
    exact traced_const fun _ => rfl
  · simp only [callWriter_eq h]
    exact traced_ask (H.request writer v) H.resume
      (fun s => by rw [H.desk_request]; rfl) (fun s f m => ⟨_, _, rfl, rfl⟩) fun _ _ _ => rfl

theorem openingOf_of_noop {writer : V} (h : H.isNoop writer = true) (call : Calling V σ) :
    H.openingOf call writer = .nothing :=
  if_pos h

theorem openingOf_eq {writer : V} (h : H.isNoop writer ≠ true) (call : Calling V σ) :
    H.openingOf call writer = .call (H.callWriter call writer) :=
  if_neg h

section Walks

theorem traced_enterField (v : Visit) :
    H.Traced Stage.machine fun _ =>
      Step.of fun s => ((.ok () : Except Error Unit), H.enterField v s) :=
  traced_const fun s => by rw [Step.run_of, H.desk_enterField]; rfl

theorem traced_callOpen (writer : V) (v : Visit) :
    H.Traced Stage.machine fun call => Writer.call (H.callWriter call writer) v :=
  (traced_callWriter writer v).tryCatch (located v)

theorem traced_callClose (writer : Option V) (v : Visit) :
    H.Traced Stage.machine fun call => callClose (writer.map (H.closingOf call)) v := by
  cases writer with
  | none => exact traced_const fun _ => rfl
  | some writer =>
      have hclosing : H.Traced Stage.machine fun call => H.closingOf call writer v :=
        (traced_callWriter writer v).bind fun _ => traced_const fun _ => rfl
      exact hclosing.tryCatch (located v)

theorem traced_enter (writer : Option V) (v : Visit) :
    H.Traced Stage.machine fun call => enter (writer.map (H.openingOf call)) v := by
  cases writer with
  | none =>
      show H.Traced Stage.machine fun _ =>
        if v.value.isPlain then (pure (false, v.level) : Step (Stage σ) Error (Bool × Nat))
        else throw (.noWriter v.path v.line)
      exact (traced_const fun _ => rfl).ite (traced_const fun _ => rfl)
  | some writer =>
      by_cases h : H.isNoop writer = true
      · simp only [Option.map_some, openingOf_of_noop h]
        exact traced_const fun _ => rfl
      · simp only [Option.map_some, openingOf_eq h]
        exact (traced_callOpen writer v).bind fun _ => traced_const fun _ => rfl

variable {registry : Calling V σ → Registry (Stage σ)} {writers : String → Moment → Option V}
  (hregistry : ∀ call key, (registry call).writersOf key = H.hooksOf (writers key) call)
  (origins : Origins)

include hregistry

theorem traced_around {v : Visit}
    {inside : Calling V σ → Option (FieldWriters (Stage σ)) → Nat → Step (Stage σ) Error Unit}
    (hinside : ∀ level, H.Traced Stage.machine fun call =>
      inside call (Ordered.get? v.key (registry call)) level) :
    H.Traced Stage.machine fun call =>
      around ⟨registry call, origins, H.enterField⟩ v (inside call) := by
  unfold around
  simp only [Registry.bind_opening, Registry.bind_closing, hregistry]
  refine Host.Traced.bind (traced_enterField v) fun _ => (traced_enter _ v).bind fun r => ?_
  obtain ⟨handled, level⟩ := r
  have hclose := traced_callClose (H := H) (writers v.key .closing) v
  cases handled with
  | true => exact hclose
  | false => exact (hinside level).bind fun _ => hclose

set_option linter.unusedSectionVars false in
mutual

theorem traced_walkTree : (t : Tree) → (level : Nat) → (path : String) →
    H.Traced Stage.machine fun call =>
      walkTree ⟨registry call, origins, H.enterField⟩ level path t
  | .scalar v, level, path => by
      simp only [walkTree]
      exact traced_const fun _ => rfl
  | .sequence items, level, path => by
      simp only [walkTree]
      exact traced_walkItems items level path 0
  | .mapping fields, level, path => by
      simp only [walkTree]
      exact traced_walkFields fields level path

theorem traced_walkItems : (items : List Tree) → (level : Nat) → (path : String) →
    (index : Nat) → H.Traced Stage.machine fun call =>
      walkItems ⟨registry call, origins, H.enterField⟩ level path index items
  | [], level, path, index => by
      simp only [walkItems]
      exact traced_const fun _ => rfl
  | t :: ts, level, path, index => by
      simp only [walkItems]
      exact (traced_walkTree t level _).bind fun _ => traced_walkItems ts level path (index + 1)

theorem traced_walkFields : (fields : List (String × Tree)) → (level : Nat) → (path : String) →
    H.Traced Stage.machine fun call =>
      walkFields ⟨registry call, origins, H.enterField⟩ level path fields
  | [], level, path => by
      simp only [walkFields]
      exact traced_const fun _ => rfl
  | (key, t) :: rest, level, path => by
      simp only [walkFields]
      exact (traced_visitField t level _ key).bind fun _ => traced_walkFields rest level path

theorem traced_visitField : (t : Tree) → (level : Nat) → (path key : String) →
    H.Traced Stage.machine fun call =>
      visitField ⟨registry call, origins, H.enterField⟩ level path key t
  | .scalar v, level, path, key => by
      simp only [visitField]
      exact traced_around hregistry origins fun _ => traced_const fun _ => rfl
  | .mapping fields, level, path, key => by
      simp only [visitField]
      exact traced_around hregistry origins fun inner => traced_walkFields fields inner path
  | .sequence items, level, path, key => by
      have hitems := traced_walkItems items
      have hvisits := traced_visitItems items
      simp only [visitField]
      refine traced_around hregistry origins fun inner => ?_
      simp only [Registry.bind_openItem, Registry.bind_closeItem, hregistry, Host.hooksOf]
      cases writers key .openItem with
      | none => exact hitems inner path 0
      | some openItem => exact hvisits openItem (writers key .closeItem) inner path key 0

theorem traced_visitItems : (items : List Tree) → (openItem : V) →
    (closeItem : Option V) → (level : Nat) → (path key : String) → (index : Nat) →
    H.Traced Stage.machine fun call =>
      visitItems ⟨registry call, origins, H.enterField⟩ (H.callWriter call openItem)
        (closeItem.map (H.closingOf call)) level path key index items
  | [], openItem, closeItem, level, path, key, index => by
      simp only [visitItems]
      exact traced_const fun _ => rfl
  | t :: ts, openItem, closeItem, level, path, key, index => by
      simp only [visitItems, aroundItem]
      refine Host.Traced.bind ?_ fun _ =>
        traced_visitItems ts openItem closeItem level path key (index + 1)
      refine (traced_callOpen openItem _).bind fun handled => ?_
      have hinside := traced_walkTree t (level + 1) (KeyPath.item path index)
      cases handled with
      | true => exact traced_callClose closeItem _
      | false => exact hinside.bind fun _ => traced_callClose closeItem _

end

end Walks

/-! ## The writers of a walk -/

/-- The hooks of fields, by the values that are called for them. -/
abbrev Plan (V : Type) := Ordered (Moment → Option V)

def Host.registry (H : Host V σ) (plan : Plan V) (call : Calling V σ) : Registry (Stage σ) :=
  plan.map fun e => (e.1, H.hooksOf e.2 call)

theorem writersOf_registry (plan : Plan V) (call : Calling V σ) (key : String) :
    (H.registry plan call).writersOf key
      = H.hooksOf ((Ordered.get? key plan).getD fun _ => none) call := by
  rw [Registry.writersOf, Host.registry, Ordered.get?_map fun writers => H.hooksOf writers call]
  cases Ordered.get? key plan <;> rfl

theorem exists_insert_plan (plan : Plan V) (field : String) (writers : Moment → Option V) :
    ∃ plan' : Plan V, ∀ call,
      Registry.insert field (H.hooksOf writers call) (H.registry plan call)
        = H.registry plan' call := by
  -- whether a field has a hook at all does not depend on what calls do
  have hisEmpty (call : Calling V σ) : (H.hooksOf writers call).isEmpty
      = ((writers .opening).isNone && (writers .openItem).isNone && (writers .closeItem).isNone
        && (writers .closing).isNone) := by
    simp only [Host.hooksOf, FieldWriters.isEmpty, Option.isNone_map]
  simp only [Registry.insert, hisEmpty]
  split
  · exact ⟨plan, fun _ => rfl⟩
  · exact ⟨Ordered.insert field writers plan, fun call =>
      Ordered.insert_map (fun writers => H.hooksOf writers call) field writers plan⟩

/-- Which values a walk calls for which field does not depend on what calls do. -/
theorem exists_plan (m : σ) (fields : List String) :
    ∃ plan : Plan V, ∀ call, H.registryOf call m fields = H.registry plan call := by
  have hfold : ∀ plan : Plan V, ∃ plan' : Plan V, ∀ call,
      fields.foldl (fun r field => Registry.insert field (H.writersOf call m field) r)
        (H.registry plan call) = H.registry plan' call := by
    induction fields with
    | nil => exact fun plan => ⟨plan, fun _ => rfl⟩
    | cons field fields ih =>
        intro plan
        obtain ⟨plan₁, hplan₁⟩ := exists_insert_plan (H := H) plan field (H.writer? m field)
        obtain ⟨plan', hplan'⟩ := ih plan₁
        refine ⟨plan', fun call => ?_⟩
        have hhooks : H.writersOf call m field = H.hooksOf (H.writer? m field) call := rfl
        rw [List.foldl_cons, hhooks, hplan₁, hplan']
  exact hfold []

/-! ## A walk that a template starts -/

namespace Host

variable (H)

/-- The walker that a call of `walk` sends out: it knows the writers that are visible. -/
def walkerOn (call : Calling V σ) (m : σ) : Walker (Stage σ) :=
  ⟨H.registryOf call m (distinct (H.desk m).document.tree.fieldNames),
    (H.desk m).document.origins, H.enterField⟩

/-- The stage on which a walk with so many writers begins. -/
def stageOn (count : Nat) (m : σ) : Stage σ :=
  ⟨H.modifyDesk (Desk.note ⟨.debug, "Walking configuration with " ++ Number.showNat count
    ++ " templated field writer(s)"⟩) m, {}⟩

/-- The walk that a call of `walk` starts in a state. -/
def walkFrom (call : Calling V σ) (m : σ) : Except Error Unit × Stage σ :=
  (walk (H.walkerOn call m) (H.desk m).document.tree).run
    (H.stageOn (H.walkerOn call m).registry.length m)

/-- What the end of a walk is for the template. -/
def walkEnd : Except Error Unit × Stage σ → Except Fault V × σ
  | (.ok (), s) => (.ok (H.ofText s.emitter.text), s.machine)
  | (.error e, s) =>
      (.error ⟨.invalidOperation, some e.message⟩, H.modifyDesk (Desk.fail e) s.machine)

theorem desk_stageOn (count : Nat) (m : σ) :
    ∃ entry, H.desk (H.stageOn count m).machine = (H.desk m).note entry :=
  ⟨_, H.desk_modifyDesk _ _⟩

theorem desk_walkEnd_error (e : Error) (s : Stage σ) :
    H.desk (H.walkEnd (.error e, s)).2 = (H.desk s.machine).fail e :=
  H.desk_modifyDesk _ _

end Host

theorem run_walkDocument (call : Calling V σ) (m : σ) :
    (H.walkDocument call).run m = H.walkEnd (H.walkFrom call m) := rfl

/-- A walk is a traced computation: its writers, and the stage it begins on, do not depend on what
calls do. -/
theorem exists_traced_walk (H : Host V σ) (m : σ) :
    ∃ (x : Calling V σ → Step (Stage σ) Error Unit) (s : Stage σ), H.Traced Stage.machine x ∧
      (H.desk s.machine).failure = (H.desk m).failure ∧
      ∀ call, H.walkFrom call m = (x call).run s := by
  obtain ⟨plan, hplan⟩ := exists_plan (H := H) m (distinct (H.desk m).document.tree.fieldNames)
  refine ⟨_, H.stageOn plan.length m, traced_walkTree (writersOf_registry plan)
    (H.desk m).document.origins (H.desk m).document.tree 0 KeyPath.root, ?_, fun call => ?_⟩
  · obtain ⟨entry, hentry⟩ := H.desk_stageOn plan.length m
    rw [hentry]
    rfl
  · have hlength : (H.registry plan call).length = plan.length := List.length_map _
    unfold Host.walkFrom walk Host.walkerOn
    simp only [hplan, hlength]

theorem ne_template_of_walkFrom {call : Calling V σ} {m : σ} {e : Error} {s : Stage σ}
    (h : H.walkFrom call m = (.error e, s)) (f : Fault) : e ≠ .template f := by
  rintro rfl
  obtain ⟨ending, -, hresult, -⟩ := exists_makes (H.walkerOn call m) KeyPath.root 0
    (H.desk m).document.tree (H.stageOn (H.walkerOn call m).registry.length m)
  have hend : ending.result = .error (.template f) := hresult.trans (congrArg Prod.fst h)
  cases ending with
  | done => cases hend
  | missing v => cases hend
  | raised v e =>
      -- the error of a writer is located, so it is not that of the template any more
      cases e with
      | _ => cases hend

/-! ## What happens during a call -/

/-- A call, and how deep the calls that are made during it may nest. -/
structure Invocation (V σ : Type) where
  depth : Nat
  request : Request V σ

namespace Engine

section Invocations

variable (E : Engine V σ)

/-- The call makes the other call, itself and not only during a call in between. -/
def Makes (c d : Invocation V σ) : Prop :=
  c.depth = d.depth + 1 ∧
    Asks (fun call => c.request.answer (E.apply call)) (E.invoke d.depth) d.request

/-- The other call is made during the call, or is the call. -/
def Covers : Invocation V σ → Invocation V σ → Prop :=
  Relation.ReflTransGen E.Makes

/-- The call starts a walk, and the walk fails with the error. -/
def FailsAsWalk (c : Invocation V σ) (e : Error) : Prop :=
  ∃ n s, c.depth = n + 1 ∧ E.isWalk c.request.callee = true ∧ c.request.args = [] ∧
    E.walkFrom (E.invoke n) c.request.machine = (.error e, s)

def Quiet (c : Invocation V σ) : Prop :=
  ∀ d e, E.Covers c d → ¬ E.FailsAsWalk d e

/-- A walk fails with the error during the call, inside all the walks that fail. -/
def Breaks (c : Invocation V σ) (e : Error) : Prop :=
  ∃ first, E.Covers c first ∧ E.FailsAsWalk first e ∧
    ∀ d e', E.Covers c d → E.FailsAsWalk d e' → E.Covers d first

/-- The call tells whether a walk has failed: either it leaves no note of one, and none has, or it
fails itself and leaves a note of the innermost one. -/
def Tells (c : Invocation V σ) : Prop :=
  ((E.desk (c.request.answer (E.invoke c.depth)).2).failure = none ∧ E.Quiet c) ∨
    ∃ f m e, c.request.answer (E.invoke c.depth) = (.error f, m) ∧
      (E.desk m).failure = some e ∧ E.Breaks c e

end Invocations

variable {E : Engine V σ} {c : Invocation V σ}

theorem FailsAsWalk.ne_template {e : Error} (h : E.FailsAsWalk c e) (f : Fault) :
    e ≠ .template f := by
  obtain ⟨n, s, -, -, -, hwalk⟩ := h
  exact ne_template_of_walkFrom hwalk f

theorem makes_iff {n : Nat} {q : Request V σ} {d : Invocation V σ} :
    E.Makes ⟨n + 1, q⟩ d ↔
      ∃ p, d = ⟨n, p⟩ ∧ Asks (fun call => q.answer (E.apply call)) (E.invoke n) p := by
  constructor
  · obtain ⟨depth, p⟩ := d
    rintro ⟨hdepth, hp⟩
    obtain rfl : n = depth := Nat.succ.inj hdepth
    exact ⟨p, rfl, hp⟩
  · rintro ⟨p, rfl, hp⟩
    exact ⟨rfl, hp⟩

theorem quiet_of_makes (hself : ∀ e, ¬ E.FailsAsWalk c e) (h : ∀ d, E.Makes c d → E.Quiet d) :
    E.Quiet c := by
  intro d e hd hfails
  rcases Relation.ReflTransGen.cases_head hd with rfl | ⟨b, hb, hbd⟩
  · exact hself e hfails
  · exact h b hb d e hbd hfails

theorem breaks_of_self {e : Error} (hself : E.FailsAsWalk c e)
    (h : ∀ d, E.Makes c d → E.Quiet d) : E.Breaks c e := by
  refine ⟨c, .refl, hself, fun d e' hd hfails => ?_⟩
  rcases Relation.ReflTransGen.cases_head hd with rfl | ⟨b, hb, hbd⟩
  · exact .refl
  · exact absurd hfails (h b hb d e' hbd)

/-- The walk that fails inside all others is found in the one call that is not quiet. -/
theorem breaks_of_makes {d : Invocation V σ} {e : Error} (hd : E.Makes c d)
    (hbreaks : E.Breaks d e) (h : ∀ b, E.Makes c b → b ≠ d → E.Quiet b) : E.Breaks c e := by
  obtain ⟨first, hfirst, hfails, hinside⟩ := hbreaks
  have hcover : E.Covers c first := .head hd hfirst
  refine ⟨first, hcover, hfails, fun b e' hb hb' => ?_⟩
  rcases Relation.ReflTransGen.cases_head hb with rfl | ⟨a, ha, hab⟩
  · exact hcover
  · by_cases had : a = d
    · subst had
      exact hinside b e' hab hb'
    · exact absurd hb' (h a ha had b e' hab)

/-! ## Calls tell -/

/-- What is assumed of an engine. It evaluates in order, so that an error of a call that it makes
is the end, and it leaves it to the renderer to take note of a failed walk; in the calls of its own
values and in the templates that it reads. -/
structure Orderly (E : Engine V σ) : Prop where
  calls : ∀ callee args, E.Traced id fun call => E.callValue call callee args
  programs : ∀ {template program}, E.read template = .ok program → E.Traced id program

def StartsWalk (E : Engine V σ) (q : Request V σ) : Prop :=
  E.isWalk q.callee = true ∧ q.args = []

/-- A call that starts a walk is that walk. -/
theorem answer_of_startsWalk {q : Request V σ} (h : E.StartsWalk q) (call : Calling V σ) :
    q.answer (E.apply call) = E.walkEnd (E.walkFrom call q.machine) := by
  rw [Request.answer, apply, if_pos h.1, h.2]
  rfl

/-- The end of a walk keeps the log, so a call that starts a walk makes the calls that the walk
makes. -/
theorem makes_iff_of_startsWalk {q : Request V σ} (h : E.StartsWalk q)
    {x : Calling V σ → Step (Stage σ) Error Unit} {s : Stage σ} (hx : E.Traced Stage.machine x)
    (hfrom : ∀ call, E.walkFrom call q.machine = (x call).run s) {n : Nat}
    {d : Invocation V σ} :
    E.Makes ⟨n + 1, q⟩ d ↔
      ∃ p, d = ⟨n, p⟩ ∧ Asks (fun call => (x call).run s) (E.invoke n) p := by
  rw [makes_iff]
  simp only [answer_of_startsWalk h, hfrom]
  refine exists_congr fun p => and_congr_right fun _ => ⟨Asks.of_comp, fun hp => ?_⟩
  refine hx.asks_of_log (g := fun _ => E.walkEnd) hp (fun r => (E.desk r.2).log) fun _ e s => ?_
  rw [E.desk_walkEnd_error]
  rfl

theorem not_failsAsWalk_of_ok {n : Nat} {q : Request V σ} {s : Stage σ}
    (h : E.walkFrom (E.invoke n) q.machine = (.ok (), s)) (e : Error) :
    ¬ E.FailsAsWalk ⟨n + 1, q⟩ e := by
  rintro ⟨k, s', hk, -, -, hwalk⟩
  obtain rfl : n = k := Nat.succ.inj hk
  rw [h] at hwalk
  cases hwalk

/-- A call that starts no walk is traced. -/
theorem Orderly.traced_apply (hE : E.Orderly) {q : Request V σ} (h : ¬ E.StartsWalk q) :
    E.Traced id fun call => E.apply call q.callee q.args := by
  obtain ⟨callee, args, m⟩ := q
  unfold apply
  by_cases hwalk : E.isWalk callee = true
  · cases args with
    | nil => exact absurd ⟨hwalk, rfl⟩ h
    | cons v vs =>
        simp only [if_pos hwalk]
        show E.Traced id fun _ => (throw tooManyArguments : Step σ Fault V)
        exact traced_const fun _ => rfl
  · simp only [if_neg hwalk]
    refine Host.Traced.ite ?_ (hE.calls callee args)
    exact traced_const fun _ => rfl

section Tells

variable {n : Nat}
  (htells : ∀ q : Request V σ, (E.desk q.machine).failure = none → E.Tells ⟨n, q⟩)

include htells

theorem trusted_invoke : E.Trusted (E.invoke n) := by
  intro q hq v m hanswer
  rcases htells q hq with ⟨hnone, -⟩ | ⟨f, m', e, herror, -⟩
  · rwa [hanswer] at hnone
  · rw [hanswer] at herror
    cases herror

/-- If the calls of a traced computation tell whether a walk has failed, then so does the
computation. -/
theorem tells_of_traced {τ ε α : Type} {view : τ → σ} {x : Calling V σ → Step τ ε α} {s : τ}
    (hx : E.Traced view x) (hs : (E.desk (view s)).failure = none) :
    ((E.desk (view ((x (E.invoke n)).run s).2)).failure = none ∧
        ∀ q, Asks (fun call => (x call).run s) (E.invoke n) q → E.Quiet ⟨n, q⟩) ∨
      ∃ err s' e q, (x (E.invoke n)).run s = (.error err, s') ∧
        (E.desk (view s')).failure = some e ∧
        Asks (fun call => (x call).run s) (E.invoke n) q ∧ E.Breaks ⟨n, q⟩ e ∧
        ∀ p, Asks (fun call => (x call).run s) (E.invoke n) p → p ≠ q → E.Quiet ⟨n, p⟩ := by
  have htrusted := trusted_invoke htells
  by_cases hend : (E.desk (view ((x (E.invoke n)).run s).2)).failure = none
  · refine .inl ⟨hend, fun q hq => ?_⟩
    rcases htells q (hx.calm htrusted hs hq) with ⟨-, hquiet⟩ | ⟨f, m, e, hanswer, hm, -⟩
    · exact hquiet
    · -- the computation would have ended with the note of this call
      obtain ⟨err, s', hrun, hview⟩ := hx.stoppedAt_of_fails hq hanswer
      rw [hrun, hview, hm] at hend
      cases hend
  · right
    obtain ⟨q, hq, hfailure⟩ := hx.source htrusted hs hend
    rcases htells q (hx.calm htrusted hs hq) with ⟨hnone, -⟩ | ⟨f, m, e, hanswer, hm, hbreaks⟩
    · exact absurd (hfailure.symm.trans hnone) hend
    · obtain ⟨err, s', hrun, hview⟩ := hx.stoppedAt_of_fails hq hanswer
      refine ⟨err, s', e, q, hrun, hview ▸ hm, hq, hbreaks, fun p hp hne => ?_⟩
      rcases htells p (hx.calm htrusted hs hp) with ⟨-, hquiet⟩ | ⟨f', m', e', hanswer', -⟩
      · exact hquiet
      · exact absurd (hx.eq_of_fails hp hq hanswer' hanswer) hne

/-- A call that starts no walk tells what the computation behind it tells. -/
theorem tells_of_not_startsWalk (hE : E.Orderly) {q : Request V σ} (hwalk : ¬ E.StartsWalk q)
    (hq : (E.desk q.machine).failure = none) : E.Tells ⟨n + 1, q⟩ := by
  have hself (e : Error) : ¬ E.FailsAsWalk ⟨n + 1, q⟩ e := by
    rintro ⟨_, _, -, hcallee, hargs, -⟩
    exact hwalk ⟨hcallee, hargs⟩
  rcases tells_of_traced htells (hE.traced_apply hwalk) hq with
    ⟨hend, hquiet⟩ | ⟨f, m, e, p, hrun, hm, hp, hbreaks, hothers⟩
  · refine .inl ⟨hend, quiet_of_makes hself fun d hd => ?_⟩
    obtain ⟨p, rfl, hp⟩ := makes_iff.mp hd
    exact hquiet p hp
  · have hmade : E.Makes ⟨n + 1, q⟩ ⟨n, p⟩ := makes_iff.mpr ⟨p, rfl, hp⟩
    refine .inr ⟨f, m, e, hrun, hm, breaks_of_makes hmade hbreaks fun d hd hne => ?_⟩
    obtain ⟨p', rfl, hp'⟩ := makes_iff.mp hd
    exact hothers p' hp' fun heq => hne (congrArg _ heq)

/-- A call that starts a walk tells of the walk, unless a walk inside it has failed. -/
theorem tells_of_startsWalk {q : Request V σ} (hwalk : E.StartsWalk q)
    (hq : (E.desk q.machine).failure = none) : E.Tells ⟨n + 1, q⟩ := by
  obtain ⟨x, s, hx, hs, hfrom⟩ := exists_traced_walk E.toHost q.machine
  have hanswer : q.answer (E.invoke (n + 1)) = E.walkEnd ((x (E.invoke n)).run s) :=
    (answer_of_startsWalk hwalk _).trans (congrArg E.walkEnd (hfrom _))
  rcases tells_of_traced htells hx (hs.trans hq) with
    ⟨hend, hquiet⟩ | ⟨err, s', e, p, hrun, hm, hp, hbreaks, hothers⟩
  · have hquiet' (d : Invocation V σ) (hd : E.Makes ⟨n + 1, q⟩ d) : E.Quiet d := by
      obtain ⟨p, rfl, hp⟩ := (makes_iff_of_startsWalk hwalk hx hfrom).mp hd
      exact hquiet p hp
    rcases hrun : (x (E.invoke n)).run s with ⟨e | ⟨⟩, s'⟩
    · -- the walk fails itself, and no walk inside it has
      rw [hrun] at hend
      have hfails : E.FailsAsWalk ⟨n + 1, q⟩ e :=
        ⟨n, s', rfl, hwalk.1, hwalk.2, (hfrom (E.invoke n)).trans hrun⟩
      refine .inr ⟨_, _, e, hanswer.trans (congrArg E.walkEnd hrun), ?_,
        breaks_of_self hfails hquiet'⟩
      rw [E.desk_modifyDesk, Desk.fail, hend]
      rfl
    · have hself := not_failsAsWalk_of_ok ((hfrom (E.invoke n)).trans hrun)
      refine .inl ⟨?_, quiet_of_makes hself hquiet'⟩
      rw [hrun] at hend
      rw [hanswer, hrun]
      exact hend
  · -- the walk fails because of a walk inside it, whose note stays
    have hmade := (makes_iff_of_startsWalk hwalk hx hfrom).mpr ⟨p, rfl, hp⟩
    refine .inr ⟨_, _, e, hanswer.trans (congrArg E.walkEnd hrun), ?_,
      breaks_of_makes hmade hbreaks fun d hd hne => ?_⟩
    · rw [E.desk_modifyDesk, Desk.fail, hm]
      rfl
    · obtain ⟨p', rfl, hp'⟩ := (makes_iff_of_startsWalk hwalk hx hfrom).mp hd
      exact hothers p' hp' fun heq => hne (congrArg _ heq)

end Tells

/-- **Calls tell whether a walk has failed**: the induction is on how deep they may nest. -/
theorem invocation_tells (hE : E.Orderly) (n : Nat) :
    ∀ q : Request V σ, (E.desk q.machine).failure = none → E.Tells ⟨n, q⟩ := by
  induction n with
  | zero =>
      intro q hq
      have hself (e : Error) : ¬ E.FailsAsWalk ⟨0, q⟩ e := by
        rintro ⟨n, s, hdepth, -⟩
        cases hdepth
      refine .inl ⟨hq, quiet_of_makes hself fun d hd => ?_⟩
      cases hd.1
  | succ n ih =>
      intro q hq
      by_cases hwalk : E.StartsWalk q
      · exact tells_of_startsWalk ih hwalk hq
      · exact tells_of_not_startsWalk ih hE hwalk hq

/-! ## Rendering -/

/-- While the template is rendered, the call is made. -/
def MadeDuring (E : Engine V σ) (document : Document) (conditions : Conditions)
    (template : String) (c : Invocation V σ) : Prop :=
  ∃ program p, E.read template = .ok program ∧
    Asks (fun call => (program call).run (E.begin document conditions)) (E.invoke E.limit) p ∧
    E.Covers ⟨E.limit, p⟩ c

section Render

variable {document : Document} {conditions : Conditions} {template : String}
  {program : Calling V σ → Step σ Fault String} {m : σ}

theorem result_render_of_ok (hread : E.read template = .ok program) {text : String}
    (hrun : (program (E.invoke E.limit)).run (E.begin document conditions) = (.ok text, m)) :
    (E.render document conditions template).result = .ok text := by
  rw [render, hread]
  simp only [hrun]

theorem result_render_of_error (hread : E.read template = .ok program) {f : Fault}
    (hrun : (program (E.invoke E.limit)).run (E.begin document conditions) = (.error f, m)) :
    (E.render document conditions template).result
      = .error ((E.desk m).failure.getD (.template f)) := by
  rw [render, hread]
  simp only [hrun]

theorem madeDuring_iff (hread : E.read template = .ok program) {c : Invocation V σ} :
    E.MadeDuring document conditions template c ↔
      ∃ p, Asks (fun call => (program call).run (E.begin document conditions))
        (E.invoke E.limit) p ∧ E.Covers ⟨E.limit, p⟩ c := by
  constructor
  · rintro ⟨program', p, hread', hp⟩
    obtain rfl : program = program' := Except.ok.inj (hread.symm.trans hread')
    exact ⟨p, hp⟩
  · rintro ⟨p, hp⟩
    exact ⟨program, p, hread, hp⟩

theorem failure_begin : (E.desk (E.begin document conditions)).failure = none := by
  rw [begin, E.desk_setDesk]

end Render

end Engine

/-! ## The machine is orderly -/

theorem traced_composed : Composed fun x => host.Traced id x where
  const h := traced_const fun m => (h m).failure
  call v args := traced_ask (fun m => ⟨v, args, m⟩) (fun _ r => r) (fun _ => rfl)
    (fun _ f m => ⟨f, m, rfl, rfl⟩) (fun _ _ _ => rfl)
  sink := traced_callSink
  bind hx hf := hx.bind hf

theorem orderly_engine : engine.Orderly where
  calls := callValue_composed traced_composed
  programs := read_composed traced_composed

/-- **A failing walk surfaces as itself**, with every orderly engine. If walks fail while a template
is rendered, then one of them fails inside all the others, and its error is the answer; it is no
error of the template. If no walk fails, the answer is a text or an error of the template. -/
theorem render_answers_innermost_failure {V σ : Type} {E : Engine V σ} (hE : E.Orderly)
    (document : Document) (conditions : Conditions) (template : String) :
    ((∃ c e, E.MadeDuring document conditions template c ∧ E.FailsAsWalk c e) →
      ∃ first e, E.MadeDuring document conditions template first ∧ E.FailsAsWalk first e ∧
        (∀ c e', E.MadeDuring document conditions template c → E.FailsAsWalk c e' →
          E.Covers c first) ∧
        (E.render document conditions template).result = .error e ∧ ∀ f, e ≠ .template f) ∧
    ((∀ c e, E.MadeDuring document conditions template c → ¬ E.FailsAsWalk c e) →
      (∃ text, (E.render document conditions template).result = .ok text) ∨
        ∃ f, (E.render document conditions template).result = .error (.template f)) := by
  rcases hread : E.read template with f | program
  · -- nothing of the template runs
    have hnone (c : Invocation V σ) : ¬ E.MadeDuring document conditions template c := by
      rintro ⟨program, p, hprogram, -⟩
      rw [hread] at hprogram
      cases hprogram
    have hresult : (E.render document conditions template).result = .error (.template f) := by
      rw [Engine.render, hread]
      rfl
    exact ⟨fun ⟨c, e, hc, _⟩ => absurd hc (hnone c), fun _ => .inr ⟨f, hresult⟩⟩
  · simp only [Engine.madeDuring_iff hread]
    rcases Engine.tells_of_traced (Engine.invocation_tells hE E.limit) (hE.programs hread)
        (s := E.begin document conditions) Engine.failure_begin with
      ⟨hend, hquiet⟩ | ⟨f, m, e, q, hrun, hm, hq, ⟨first, hfirst, hfails, hinside⟩, hothers⟩
    · constructor
      · rintro ⟨c, e, ⟨p, hp, hc⟩, hfails⟩
        exact absurd hfails (hquiet p hp c e hc)
      · intro _
        rcases hrun : (program (E.invoke E.limit)).run (E.begin document conditions)
          with ⟨f | text, m⟩
        · rw [hrun] at hend
          have hresult := Engine.result_render_of_error hread hrun
          rw [show (E.desk m).failure = none from hend] at hresult
          exact .inr ⟨f, hresult⟩
        · exact .inl ⟨text, Engine.result_render_of_ok hread hrun⟩
    · constructor
      · intro _
        have hresult := Engine.result_render_of_error hread hrun
        rw [show (E.desk m).failure = some e from hm] at hresult
        refine ⟨first, e, ⟨q, hq, hfirst⟩, hfails, ?_, hresult, hfails.ne_template⟩
        rintro c e' ⟨p, hp, hc⟩ hfails'
        by_cases hpq : p = q
        · subst hpq
          exact hinside c e' hc hfails'
        · exact absurd hfails' (hothers p hp hpq c e' hc)
      · intro hnone
        exact absurd hfails (hnone first e ⟨q, hq, hfirst⟩)

def nestedSite : Document :=
  ⟨.mapping [("a", .mapping [])], ⟨[(".a", 1)]⟩⟩

/-- The writer of the field walks the site again, this time without a writer. -/
def nestedTemplate : String :=
  "\x7b% macro a_open(out, node) %\x7d\x7b% set a_open = none %\x7d\x7b\x7b walk() \x7d\x7d"
    ++ "\x7b% endmacro %\x7d\x7b\x7b walk() \x7d\x7d"

/-- The answer is the error of the walk inside, and not that the writer failed. -/
theorem render_answers_innermost_failure_nestedSite :
    (render nestedSite [] nestedTemplate).result = .error (.noWriter ".a" (some 1)) ∧
      ∃ first, engine.MadeDuring nestedSite [] nestedTemplate first ∧
        engine.FailsAsWalk first (.noWriter ".a" (some 1)) ∧
        ∀ c e, engine.MadeDuring nestedSite [] nestedTemplate c → engine.FailsAsWalk c e →
          engine.Covers c first := by
  have hresult : (render nestedSite [] nestedTemplate).result
      = .error (.noWriter ".a" (some 1)) := by decide +kernel
  obtain ⟨hfailing, hquiet⟩ :=
    render_answers_innermost_failure orderly_engine nestedSite [] nestedTemplate
  have hsome : ∃ c e, engine.MadeDuring nestedSite [] nestedTemplate c ∧
      engine.FailsAsWalk c e := by
    by_contra hnone
    rcases hquiet fun c e hc hfails => hnone ⟨c, e, hc, hfails⟩ with ⟨text, h⟩ | ⟨f, h⟩
    · exact absurd (hresult.symm.trans h) (by simp)
    · exact absurd (hresult.symm.trans h) (by simp)
  obtain ⟨first, e, hfirst, hfails, hinside, hanswer, -⟩ := hfailing hsome
  cases hresult.symm.trans hanswer
  exact ⟨hresult, first, hfirst, hfails, hinside⟩

end SiteConf.Template
