import SiteConf.Proofs.Step
import SiteConf.Template.Render
import Mathlib

set_option autoImplicit false

/-! # What runs of templates are composed of

Every computation of the template machine, from the value of an expression to the body of a macro,
is put together from calls, from calls of the methods of sinks, and from steps of which a walk
around the template sees nothing: they leave the sinks and the note of a failed walk as they are.
A property that these have and that sequences keep is a property of every computation
(`callValue_composed`, `read_composed`). The lemmas follow the recursion of the evaluator. -/

namespace SiteConf.Template

/-! ## What walks see of the machine -/

namespace Machine

/-- Walks see no difference: the sinks are the same, and so is the note of a failed walk. -/
structure SameForWalks (m m' : Machine) : Prop where
  sinks : m'.sinks = m.sinks
  failure : m'.failure = m.failure

theorem SameForWalks.refl (m : Machine) : m.SameForWalks m :=
  ⟨rfl, rfl⟩

theorem SameForWalks.trans {m m' m'' : Machine} (h : m.SameForWalks m')
    (h' : m'.SameForWalks m'') : m.SameForWalks m'' :=
  ⟨h'.sinks.trans h.sinks, h'.failure.trans h.failure⟩

theorem sameForWalks_store (name : String) (v : Value) (m : Machine) :
    m.SameForWalks (m.store name v) := by
  unfold store
  split <;> exact ⟨rfl, rfl⟩

theorem sameForWalks_openClosure (m : Machine) : m.SameForWalks m.openClosure := by
  unfold openClosure
  repeat' split
  all_goals exact ⟨rfl, rfl⟩

theorem sameForWalks_enclose (m : Machine) (name : String) :
    m.SameForWalks (m.enclose name) := by
  have hopen := sameForWalks_openClosure m
  unfold enclose
  simp only
  split <;> exact ⟨hopen.sinks, hopen.failure⟩

theorem sameForWalks_foldl_enclose (names : List String) (m : Machine) :
    m.SameForWalks (names.foldl enclose m) := by
  induction names generalizing m with
  | nil => exact .refl m
  | cons name names ih => exact (sameForWalks_enclose m name).trans (ih _)

end Machine

theorem sameForWalks_define (name : String) (params : List String) (defaults : List Expr)
    (body : List Stmt) (m : Machine) :
    m.SameForWalks (define name params defaults body m) := by
  unfold define
  refine Machine.SameForWalks.trans ?_ (Machine.sameForWalks_store _ _ _)
  exact ⟨(Machine.sameForWalks_foldl_enclose _ m).sinks,
    (Machine.sameForWalks_foldl_enclose _ m).failure⟩

/-! ## Properties of compositions -/

/-- All that the computations of the template machine are composed of has the property, and
sequences keep it. What calls do is a parameter of the computations. -/
structure Composed (C : ∀ {α : Type}, (Caller → Run α) → Prop) : Prop where
  const : ∀ {α : Type} {y : Run α},
    (∀ m : Machine, m.SameForWalks (y.run m).2) → C fun _ => y
  call : ∀ v args, C fun call => call v args
  sink : ∀ n name args, C fun _ => host.callSink n name args
  bind : ∀ {α β : Type} {x : Caller → Run α} {f : Caller → α → Run β},
    C x → (∀ a, C fun call => f call a) → C fun call => x call >>= f call

variable {C : ∀ {α : Type}, (Caller → Run α) → Prop}

namespace Composed

variable {α : Type}

theorem returns (hC : Composed C) (a : α) : C fun _ => (pure a : Run α) :=
  hC.const Machine.SameForWalks.refl

theorem fails (hC : Composed C) (f : Fault) : C fun _ => (throw f : Run α) :=
  hC.const Machine.SameForWalks.refl

theorem known (hC : Composed C) (r : Except Fault α) : C fun _ => (Step.lift r : Run α) :=
  hC.const fun m => by
    rw [Step.run_lift]
    exact .refl m

theorem reads (hC : Composed C) : C fun _ => (get : Run Machine) :=
  hC.const Machine.SameForWalks.refl

theorem changes (hC : Composed C) {f : Machine → Machine}
    (h : ∀ m : Machine, m.SameForWalks (f m)) : C fun _ => (modify f : Run PUnit) :=
  hC.const h

/-- A state that is looked at and then changed. -/
theorem replaces (hC : Composed C) {g : Machine → Machine}
    (hg : ∀ m : Machine, m.SameForWalks (g m)) {k : Caller → Machine → Run α}
    (hk : ∀ m, C fun call => k call m) :
    C fun call => get >>= fun m => set (g m) >>= fun _ => k call m := by
  have hmodify : (fun call => get >>= fun m => set (g m) >>= fun _ => k call m)
      = fun call => get >>= fun m => modify g >>= fun _ => k call m := rfl
  rw [hmodify]
  exact hC.bind hC.reads fun m => hC.bind (hC.changes hg) fun _ => hk m

end Composed

theorem ite_composed {α : Type} {x y : Caller → Run α} {c : Prop} [Decidable c] (hx : C x)
    (hy : C y) : C fun call => if c then x call else y call := by
  by_cases hc : c
  · simpa only [if_pos hc] using hx
  · simpa only [if_neg hc] using hy

/-! ## Calls of names and methods -/

theorem callName_composed (hC : Composed C) (name : String) (args : List Value) :
    C fun call => callName call name args := by
  unfold callName
  refine ite_composed (hC.fails _) (hC.bind hC.reads fun m => ?_)
  cases m.lookup? name with
  | none => exact hC.fails _
  | some v => exact hC.call v args

theorem callMethod_composed (hC : Composed C) (v : Value) (name : String) (args : List Value) :
    C fun call => callMethod call v name args := by
  unfold callMethod
  cases v with
  | sink n => exact hC.sink n name args
  | map pairs =>
      simp only
      cases Value.find? (.str name) pairs with
      | none => exact hC.fails _
      | some f => exact hC.call f args
  | space n =>
      refine hC.bind hC.reads fun m => ?_
      cases Ordered.get? name (m.space n) with
      | none => exact hC.fails _
      | some f => exact hC.call f args
  | _ => exact hC.fails _

theorem runFilter_composed (hC : Composed C) (name : String) (v : Value) (args : List Value) :
    C fun _ => runFilter name v args := by
  unfold runFilter
  refine hC.bind hC.reads fun m => hC.bind ?_ fun _ => hC.known _
  exact hC.changes fun _ => ⟨rfl, rfl⟩

theorem runTest_composed (hC : Composed C) (name : String) (v : Value) (args : List Value) :
    C fun _ => runTest name v args :=
  hC.bind hC.reads fun _ => hC.bind (hC.known _) fun _ => hC.returns _

/-! ## Expressions -/

mutual

theorem eval_composed (hC : Composed C) : (e : Expr) → C fun call => e.eval call
  | .var name => by
      simp only [Expr.eval]
      exact hC.bind hC.reads fun m => hC.returns _
  | .constant c => by
      simp only [Expr.eval]
      exact hC.returns _
  | .list items => by
      simp only [Expr.eval]
      exact hC.bind (evalItems_composed hC items) fun _ => hC.returns _
  | .dict pairs => by
      simp only [Expr.eval]
      exact hC.bind (evalPairs_composed hC pairs) fun _ => hC.returns _
  | .attr base name => by
      simp only [Expr.eval]
      exact hC.bind (eval_composed hC base) fun v => hC.bind hC.reads fun m => hC.known _
  | .item base index => by
      simp only [Expr.eval]
      exact hC.bind (eval_composed hC base) fun v => hC.bind (eval_composed hC index) fun i =>
        hC.bind hC.reads fun m => hC.known _
  | .call callee args named => by
      have hargs := evalItems_composed hC args
      have hnamed := evalNamed_composed hC named
      have hcallee := eval_composed hC callee
      cases callee with
      | var name =>
          simp only [Expr.eval]
          exact hC.bind hargs fun args => hC.bind hnamed fun named => callName_composed hC name _
      | attr base name =>
          simp only [Expr.eval]
          exact hC.bind (eval_composed hC base) fun v => hC.bind hargs fun args =>
            hC.bind hnamed fun named => callMethod_composed hC v name _
      | _ =>
          simp only [Expr.eval] at hcallee ⊢
          exact hC.bind hcallee fun f => hC.bind hargs fun args => hC.bind hnamed fun named =>
            hC.call f _
  | .filter base name args named => by
      simp only [Expr.eval]
      exact hC.bind (eval_composed hC base) fun v =>
        hC.bind (evalItems_composed hC args) fun args =>
          hC.bind (evalNamed_composed hC named) fun named => runFilter_composed hC name v _
  | .test base name args named => by
      simp only [Expr.eval]
      exact hC.bind (eval_composed hC base) fun v =>
        hC.bind (evalItems_composed hC args) fun args =>
          hC.bind (evalNamed_composed hC named) fun named => runTest_composed hC name v _
  | .binary op left right => by
      simp only [Expr.eval]
      exact hC.bind (eval_composed hC left) fun a => hC.bind (eval_composed hC right) fun b =>
        hC.bind hC.reads fun m => hC.known _
  | .both left right => by
      simp only [Expr.eval]
      exact hC.bind (eval_composed hC left) fun a => hC.bind hC.reads fun m =>
        ite_composed (eval_composed hC right) (hC.returns a)
  | .either left right => by
      simp only [Expr.eval]
      exact hC.bind (eval_composed hC left) fun a => hC.bind hC.reads fun m =>
        ite_composed (hC.returns a) (eval_composed hC right)
  | .not operand => by
      simp only [Expr.eval]
      exact hC.bind (eval_composed hC operand) fun a => hC.bind hC.reads fun m => hC.returns _
  | .neg operand => by
      simp only [Expr.eval]
      exact hC.bind (eval_composed hC operand) fun a => hC.known _
  | .cond test yes no => by
      simp only [Expr.eval]
      exact hC.bind (eval_composed hC test) fun t => hC.bind hC.reads fun m =>
        ite_composed (eval_composed hC yes) (eval_composed hC no)

theorem evalItems_composed (hC : Composed C) : (es : List Expr) → C fun call => evalItems call es
  | [] => by
      simp only [evalItems]
      exact hC.returns _
  | e :: es => by
      simp only [evalItems]
      exact hC.bind (eval_composed hC e) fun v =>
        hC.bind (evalItems_composed hC es) fun vs => hC.returns _

theorem evalPairs_composed (hC : Composed C) :
    (pairs : List (Expr × Expr)) → C fun call => evalPairs call pairs
  | [] => by
      simp only [evalPairs]
      exact hC.returns _
  | (k, e) :: rest => by
      simp only [evalPairs]
      exact hC.bind (eval_composed hC k) fun key => hC.bind (eval_composed hC e) fun value =>
        hC.bind (evalPairs_composed hC rest) fun others => hC.returns _

theorem evalNamed_composed (hC : Composed C) : (named : List (String × Expr)) →
    C fun call => evalNamed call named
  | [] => by
      simp only [evalNamed]
      exact hC.returns _
  | (name, e) :: rest => by
      simp only [evalNamed]
      exact hC.bind (eval_composed hC e) fun v =>
        hC.bind (evalNamed_composed hC rest) fun vs => hC.returns _

end

/-! ## Assigning -/

theorem setAttr_composed (hC : Composed C) (v : Value) (name : String) (value : Value) :
    C fun _ => setAttr v name value := by
  unfold setAttr
  cases v with
  | space n => exact hC.changes fun _ => ⟨rfl, rfl⟩
  | _ => exact hC.fails _

mutual

theorem assign_composed (hC : Composed C) : (t : Target) → (v : Value) →
    C fun call => t.assign call v
  | .name n, v => by
      simp only [Target.assign]
      exact hC.changes fun m => Machine.sameForWalks_store n v m
  | .attr base name, v => by
      simp only [Target.assign]
      exact hC.bind (eval_composed hC base) fun b => setAttr_composed hC b name v
  | .several targets, v => by
      simp only [Target.assign]
      exact hC.bind hC.reads fun m => hC.bind (hC.known _) fun parts =>
        assignAll_composed hC targets parts

theorem assignAll_composed (hC : Composed C) : (ts : List Target) → (vs : List Value) →
    C fun call => assignAll call ts vs
  | t :: ts, v :: vs => by
      simp only [assignAll]
      exact hC.bind (assign_composed hC t v) fun _ => assignAll_composed hC ts vs
  | [], vs => by
      simp only [assignAll]
      exact hC.returns _
  | _ :: _, [] => by
      simp only [assignAll]
      exact hC.returns _

end

/-! ## Loops -/

theorem pushFrame_composed (hC : Composed C) (f : Frame) : C fun _ => pushFrame f := by
  refine hC.const fun m => ?_
  show m.SameForWalks (Step.run (if recursionLimit < m.depth then
    (throw invalidOperation : Run PUnit) else set { m with frames := f :: m.frames }) m).2
  split <;> exact ⟨rfl, rfl⟩

theorem popFrame_composed (hC : Composed C) : C fun _ => popFrame :=
  hC.changes fun _ => ⟨rfl, rfl⟩

theorem loopItems_composed (hC : Composed C) (v : Value) : C fun _ => loopItems v := by
  unfold loopItems
  refine hC.bind hC.reads fun m => ?_
  cases (m.view v).items? with
  | none => exact hC.fails _
  | some items => exact hC.returns _

section Loops

variable (hC : Composed C) {bind : Caller → Value → Run Unit}
  (hbind : ∀ v, C fun call => bind call v)

include hC hbind

theorem select_composed {holds : Caller → Run Value} (hholds : C holds)
    (vs : List Value) : C fun call => select (bind call) (holds call) vs := by
  induction vs with
  | nil => exact hC.returns _
  | cons v vs ih =>
      unfold select
      exact hC.bind (hbind v) fun _ => hC.bind hholds fun t => hC.bind hC.reads fun m =>
        hC.bind ih fun others => hC.returns _

variable {body : Caller → Run (String × Flow)} (hbody : C body)

include hbody

theorem turns_composed (number length : Nat) (vs : List Value) (index : Nat) :
    C fun call => turns (bind call) (body call) number length index vs := by
  induction vs generalizing index with
  | nil => exact hC.returns _
  | cons v vs ih =>
      unfold turns
      refine hC.bind ?_ fun _ => hC.bind (hbind v) fun _ => hC.bind hbody fun r => ?_
      · exact hC.changes fun _ => ⟨rfl, rfl⟩
      obtain ⟨text, flow⟩ := r
      cases flow with
      | leave => exact hC.returns _
      | next => exact hC.bind (ih (index + 1)) fun rest => hC.returns _
      | skip => exact hC.bind (ih (index + 1)) fun rest => hC.returns _

theorem runLoop_composed (items : List Value) :
    C fun call => runLoop (bind call) (body call) items := by
  unfold runLoop
  refine hC.bind hC.reads fun m => hC.bind ?_ fun _ => hC.bind (pushFrame_composed hC _) fun _ =>
    hC.bind (turns_composed hC hbind hbody _ _ items 0) fun text =>
      hC.bind (popFrame_composed hC) fun _ => hC.returns _
  exact hC.changes fun _ => ⟨rfl, rfl⟩

end Loops

/-! ## Statements -/

mutual

theorem exec_composed (hC : Composed C) : (s : Stmt) → C fun call => s.exec call
  | .text content => by
      simp only [Stmt.exec]
      exact hC.returns _
  | .output e => by
      simp only [Stmt.exec]
      exact hC.bind (eval_composed hC e) fun v => hC.bind hC.reads fun m => hC.returns _
  | .branch test yes no => by
      simp only [Stmt.exec]
      exact hC.bind (eval_composed hC test) fun t => hC.bind hC.reads fun m =>
        ite_composed (execBody_composed hC yes) (execBody_composed hC no)
  | .each target items only body otherwise => by
      simp only [Stmt.exec]
      have hbody := execBody_composed hC body
      have hotherwise := execBody_composed hC otherwise
      have hloop (vs : List Value) : C fun call => do
          let text ← runLoop (target.assign call) (execBody call body) vs
          match vs with
          | [] => execBody call otherwise
          | _ :: _ => return (text, .next) := by
        refine hC.bind (runLoop_composed hC (assign_composed hC target) hbody vs) fun text => ?_
        cases vs with
        | nil => exact hotherwise
        | cons v vs => exact hC.returns _
      refine hC.bind (eval_composed hC items) fun v =>
        hC.bind (loopItems_composed hC v) fun items => ?_
      cases only with
      | none => exact hC.bind (hC.returns _) hloop
      | some e =>
          exact hC.bind (pushFrame_composed hC _) fun _ =>
            hC.bind (select_composed hC (assign_composed hC target) (eval_composed hC e) items)
              fun kept => hC.bind (popFrame_composed hC) fun _ => hC.bind (hC.returns _) hloop
  | .assign target e => by
      simp only [Stmt.exec]
      exact hC.bind (eval_composed hC e) fun v =>
        hC.bind (assign_composed hC target v) fun _ => hC.returns _
  | .capture target body => by
      simp only [Stmt.exec]
      refine hC.bind (execBody_composed hC body) fun r => ?_
      obtain ⟨text, flow⟩ := r
      cases flow with
      | next => exact hC.bind (assign_composed hC target _) fun _ => hC.returns _
      | leave => exact hC.returns _
      | skip => exact hC.returns _
  | .macroDef name params defaults body => by
      simp only [Stmt.exec]
      exact hC.bind (hC.changes (sameForWalks_define name params defaults body)) fun _ =>
        hC.returns _
  | .leave => by
      simp only [Stmt.exec]
      exact hC.returns _
  | .skip => by
      simp only [Stmt.exec]
      exact hC.returns _

theorem execBody_composed (hC : Composed C) : (body : List Stmt) →
    C fun call => execBody call body
  | [] => by
      simp only [execBody]
      exact hC.returns _
  | s :: rest => by
      simp only [execBody]
      refine hC.bind (exec_composed hC s) fun r => ?_
      obtain ⟨text, flow⟩ := r
      cases flow with
      | next => exact hC.bind (execBody_composed hC rest) fun more => hC.returns _
      | leave => exact hC.returns _
      | skip => exact hC.returns _

end

/-! ## Macros and namespaces -/

theorem setParams_composed (hC : Composed C) :
    (params : List ((String × Value) × Option Expr)) → C fun call => setParams call params
  | [] => hC.returns _
  | ((name, v), d) :: rest => by
      unfold setParams
      have hstore (v : Value) : C fun _ => (modify (Machine.store name v) : Run PUnit) :=
        hC.changes fun m => Machine.sameForWalks_store name v m
      refine hC.bind (setParams_composed hC rest) fun _ => ?_
      cases d with
      | none => exact hC.bind (hC.returns v) hstore
      | some e =>
          exact ite_composed (hC.bind (eval_composed hC e) hstore)
            (hC.bind (hC.returns v) hstore)

theorem callMacro_composed (hC : Composed C) (d : MacroDef) (args : List Value) :
    C fun call => callMacro call d args := by
  unfold callMacro
  refine hC.bind (hC.known _) fun r => ?_
  obtain ⟨bound, caller⟩ := r
  refine hC.replaces ?_ fun m => ?_
  · exact fun _ => ⟨rfl, rfl⟩
  have hbody : C fun call => do
      if recursionLimit < (← get).depth then
        throw invalidOperation
      else
        setParams call (bound.zip d.defaultsOf)
        let r ← execBody call d.body
        modify fun after => { after with frames := m.frames, outer := m.outer }
        return Value.str r.1 := by
    refine hC.bind hC.reads fun _ => ite_composed (hC.fails _) ?_
    refine hC.bind (setParams_composed hC _) fun _ => hC.bind (execBody_composed hC d.body) fun r =>
      hC.bind ?_ fun _ => hC.returns _
    exact hC.changes fun _ => ⟨rfl, rfl⟩
  cases caller with
  | none => exact hbody
  | some v => exact hC.bind (hC.changes fun m => Machine.sameForWalks_store _ v m) fun _ => hbody

theorem newSpace_composed (hC : Composed C) (args : List Value) : C fun _ => newSpace args := by
  unfold newSpace
  obtain ⟨entries, rest⟩ := optional args
  have hnew (entries : Ordered Value) : C fun _ => (do
      Step.lift (noMore rest)
      let m ← get
      set { m with spaces := m.spaces ++ [entries] }
      return Value.space m.spaces.length : Run Value) := by
    refine hC.bind (hC.known _) fun _ => hC.replaces ?_ fun m => hC.returns _
    exact fun _ => ⟨rfl, rfl⟩
  rcases entries with _ | entries
  · exact hC.bind (hC.returns _) hnew
  · cases entries with
    | arguments named => exact hC.bind (hC.returns _) hnew
    | map pairs => exact hC.bind (hC.returns _) hnew
    | _ => exact hC.bind (hC.fails _) hnew

theorem callValue_composed (hC : Composed C) (callee : Value) (args : List Value) :
    C fun call => callValue call callee args := by
  cases callee with
  | macroRef name n =>
      unfold callValue
      refine hC.bind hC.reads fun m => ?_
      cases m.macros[n]? with
      | none => exact hC.fails _
      | some d => exact callMacro_composed hC d args
  | makeSpace => exact newSpace_composed hC args
  | _ => exact hC.fails _

theorem runProgram_composed (hC : Composed C) (program : List Stmt) : C (runProgram program) :=
  hC.bind (execBody_composed hC program) fun _ => hC.returns _

theorem engine_read (template : String) :
    engine.read template = (Template.parse template).map runProgram := rfl

theorem read_composed (hC : Composed C) {template : String} {program : Caller → Run String}
    (h : engine.read template = .ok program) : C program := by
  rw [engine_read] at h
  obtain ⟨stmts, -, rfl⟩ := Step.exists_of_map_eq_ok h
  exact runProgram_composed hC stmts

end SiteConf.Template
