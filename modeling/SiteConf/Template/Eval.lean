import SiteConf.Template.Filter
import SiteConf.Template.Machine
import SiteConf.Template.Scope

set_option autoImplicit false

/-! # Evaluating expressions and executing statements

Both go down the structure of the template. Calls are left to a parameter: what calling a value
with arguments does is said in `SiteConf.Template.Call`, which closes the circle. -/

namespace SiteConf.Template

abbrev Caller := Calling Value Machine

/-! ## Arguments -/

/-- The arguments of a call: those by name come last, as one. -/
def withNamed (args : List Value) (named : List (String × Value)) : List Value :=
  match named with
  | [] => args
  | _ :: _ => args ++ [.arguments (Ordered.insertAll named [])]

def Constant.value : Constant → Value
  | .undefined => .undefined
  | .none => .none
  | .bool b => .bool b
  | .int n => .int n
  | .str s => .str s

/-! ## Calls of names and methods -/

def callName (call : Caller) (name : String) (args : List Value) : Run Value := do
  if name = "loop" || name = "super" then
    throw invalidOperation
  else
    match (← get).lookup? name with
    | some v => call v args
    | none => throw ⟨.unknownFunction, none⟩

/-- The one argument of a sink's method in printed form. -/
def emitted (m : Machine) (args : List Value) : Except Fault String := do
  let (v, rest) ← required args
  let _ ← printed v
  noMore rest
  return m.text v

/-- The machine, as a renderer sees it. -/
def host : Host Value Machine where
  desk := Machine.toDesk
  setDesk d m := { m with toDesk := d }
  desk_setDesk _ _ := rfl
  lookup? := Machine.lookup?
  isAbsent := Value.isAbsent
  isNoop v := v matches .noop
  isWalk v := v matches .walk
  ofSink := .sink
  ofTree := .ofTree
  ofText := .str
  content := emitted

/-- Calls a method of a value: sinks have methods, the others call what their attribute holds. -/
def callMethod (call : Caller) (v : Value) (name : String) (args : List Value) : Run Value := do
  match v with
  | .sink n => host.callSink n name args
  | .map pairs =>
      match Value.find? (.str name) pairs with
      | some f => call f args
      | none => throw ⟨.unknownMethod, none⟩
  | .space n =>
      match Ordered.get? name ((← get).space n) with
      | some f => call f args
      | none => throw ⟨.unknownMethod, none⟩
  | _ => throw ⟨.unknownMethod, none⟩

/-- Applies a filter, noting what it reports. -/
def runFilter (name : String) (v : Value) (args : List Value) : Run Value := do
  let m ← get
  let v := m.view v
  let args := args.map m.view
  modify fun m => { m with log := m.log ++ filterLog name v args }
  Step.lift (applyFilter name v args)

def runTest (name : String) (v : Value) (args : List Value) : Run Value := do
  let m ← get
  let holds ← Step.lift (applyTest name (m.view v) (args.map m.view))
  return .bool holds

/-! ## Expressions -/

mutual

def Expr.eval (call : Caller) : Expr → Run Value
  | .var name => do return ((← get).lookup? name).getD .undefined
  | .constant c => pure c.value
  | .list items => do return .seq (← evalItems call items)
  | .dict pairs => do return .map (← evalPairs call pairs)
  | .attr base name => do
      let v ← base.eval call
      Step.lift ((← get).attr v name)
  | .item base index => do
      let v ← base.eval call
      let i ← index.eval call
      Step.lift ((← get).item v i)
  | .call (.var name) args named => do
      let args ← evalItems call args
      let named ← evalNamed call named
      callName call name (withNamed args named)
  | .call (.attr base name) args named => do
      let v ← base.eval call
      let args ← evalItems call args
      let named ← evalNamed call named
      callMethod call v name (withNamed args named)
  | .call callee args named => do
      let f ← callee.eval call
      let args ← evalItems call args
      let named ← evalNamed call named
      call f (withNamed args named)
  | .filter base name args named => do
      let v ← base.eval call
      let args ← evalItems call args
      let named ← evalNamed call named
      runFilter name v (withNamed args named)
  | .test base name args named => do
      let v ← base.eval call
      let args ← evalItems call args
      let named ← evalNamed call named
      runTest name v (withNamed args named)
  | .binary op left right => do
      let a ← left.eval call
      let b ← right.eval call
      let m ← get
      Step.lift (op.apply (m.view a) (m.view b))
  | .both left right => do
      let a ← left.eval call
      if ((← get).view a).isTrue then right.eval call else pure a
  | .either left right => do
      let a ← left.eval call
      if ((← get).view a).isTrue then pure a else right.eval call
  | .not operand => do
      let a ← operand.eval call
      return .bool (!((← get).view a).isTrue)
  | .neg operand => do
      let a ← operand.eval call
      Step.lift (negate a)
  | .cond test yes no => do
      let t ← test.eval call
      if ((← get).view t).isTrue then yes.eval call else no.eval call

def evalItems (call : Caller) : List Expr → Run (List Value)
  | [] => pure []
  | e :: es => do
      let v ← e.eval call
      return v :: (← evalItems call es)

/-- The pairs of a mapping; a later pair replaces the value of an earlier one. -/
def evalPairs (call : Caller) : List (Expr × Expr) → Run (List (Value × Value))
  | [] => pure []
  | (k, e) :: rest => do
      let key ← k.eval call
      let value ← e.eval call
      let others ← evalPairs call rest
      return others.foldl (fun pairs p => Value.put p.1 p.2 pairs) [(key, value)]

def evalNamed (call : Caller) : List (String × Expr) → Run (List (String × Value))
  | [] => pure []
  | (name, e) :: rest => do
      let v ← e.eval call
      return (name, v) :: (← evalNamed call rest)

end

/-! ## Assigning -/

/-- The parts of a value that is assigned to several targets. -/
def unpack (count : Nat) (v : Value) : Except Fault (List Value) :=
  match v with
  | .seq items => if items.length = count then .ok items else .error ⟨.cannotUnpack, none⟩
  | .map pairs =>
      if pairs.length = count then .ok (pairs.map (·.1)) else .error ⟨.cannotUnpack, none⟩
  | _ => .error ⟨.cannotUnpack, none⟩

/-- Sets an attribute; only namespaces have attributes that can be set. -/
def setAttr (v : Value) (name : String) (value : Value) : Run Unit :=
  match v with
  | .space n =>
      modify fun m => { m with spaces := m.spaces.modify n (Ordered.insert name value) }
  | _ => throw invalidOperation

mutual

def Target.assign (call : Caller) : Target → Value → Run Unit
  | .name n, v => modify (Machine.store n v)
  | .attr base name, v => do
      let b ← base.eval call
      setAttr b name v
  | .several targets, v => do
      let parts ← Step.lift (unpack targets.length ((← get).view v))
      assignAll call targets parts

def assignAll (call : Caller) : List Target → List Value → Run Unit
  | t :: ts, v :: vs => do
      t.assign call v
      assignAll call ts vs
  | _, _ => pure ()

end

/-! ## Loops -/

/-- How a statement ends: with the next one, or by leaving the loop or its current turn. -/
inductive Flow where
  | next
  | leave
  | skip
  deriving DecidableEq, Repr, Inhabited

/-- Enters a frame, unless calls and loops nest too deep. -/
def pushFrame (f : Frame) : Run Unit := do
  let m ← get
  if recursionLimit < m.depth then
    throw invalidOperation
  else
    set { m with frames := f :: m.frames }

/-- Leaves the innermost frame. -/
def popFrame : Run Unit :=
  modify fun m => { m with frames := m.frames.tail }

def loopItems (v : Value) : Run (List Value) := do
  match ((← get).view v).items? with
  | some items => pure items
  | none => throw invalidOperation

/-- The items that a condition holds for, after each is bound. -/
def select (bind : Value → Run Unit) (holds : Run Value) : List Value → Run (List Value)
  | [] => pure []
  | v :: vs => do
      bind v
      let t ← holds
      let keep := ((← get).view t).isTrue
      let others ← select bind holds vs
      return if keep then v :: others else others

/-- Runs the body of a loop for each item, from the item at `index` on. -/
def turns (bind : Value → Run Unit) (body : Run (String × Flow)) (number length index : Nat) :
    List Value → Run String
  | [] => pure ""
  | v :: vs => do
      modify fun m => { m with loops := m.loops.set number ⟨index, length⟩ }
      bind v
      let (text, flow) ← body
      match flow with
      | .leave => pure text
      | _ => return text ++ (← turns bind body number length (index + 1) vs)

/-- Runs a loop over items in a frame of its own. -/
def runLoop (bind : Value → Run Unit) (body : Run (String × Flow)) (items : List Value) :
    Run String := do
  let number := (← get).loops.length
  modify fun m => { m with loops := m.loops ++ [⟨0, items.length⟩] }
  pushFrame { loop := some number }
  let text ← turns bind body number items.length 0 items
  popFrame
  return text

/-! ## Statements -/

/-- Defines a macro: its free names are put into the closure of the frame. -/
def define (name : String) (params : List String) (defaults : List Expr) (body : List Stmt)
    (m : Machine) : Machine :=
  let free := freeNames params defaults body
  let m := (free.filter (· ≠ "caller")).foldl Machine.enclose m
  let d : MacroDef := ⟨params, defaults, body, m.closure?, free.contains "caller"⟩
  { m with macros := m.macros ++ [d] }.store name (.macroRef name m.macros.length)

mutual

/-- Executes a statement: the text it gives and how it ends. -/
def Stmt.exec (call : Caller) : Stmt → Run (String × Flow)
  | .text content => pure (content, .next)
  | .output e => do
      let v ← e.eval call
      return ((← get).text v, .next)
  | .branch test yes no => do
      let t ← test.eval call
      if ((← get).view t).isTrue then execBody call yes else execBody call no
  | .each target items only body otherwise => do
      let v ← items.eval call
      let items ← loopItems v
      let items ← match only with
        | none => pure items
        | some e => do
            pushFrame {}
            let kept ← select (target.assign call) (e.eval call) items
            popFrame
            pure kept
      let text ← runLoop (target.assign call) (execBody call body) items
      match items with
      | [] => execBody call otherwise
      | _ :: _ => return (text, .next)
  | .assign target e => do
      let v ← e.eval call
      target.assign call v
      return ("", .next)
  | .capture target body => do
      let (text, flow) ← execBody call body
      match flow with
      | .next => do
          target.assign call (.str text)
          return ("", .next)
      | flow => return ("", flow)
  | .macroDef name params defaults body => do
      modify (define name params defaults body)
      return ("", .next)
  | .leave => pure ("", .leave)
  | .skip => pure ("", .skip)

/-- Executes statements one after the other, up to one that leaves the loop or its turn. -/
def execBody (call : Caller) : List Stmt → Run (String × Flow)
  | [] => pure ("", .next)
  | s :: rest => do
      let (text, flow) ← s.exec call
      match flow with
      | .next => do
          let (more, flow) ← execBody call rest
          return (text ++ more, flow)
      | flow => return (text, flow)

end

end SiteConf.Template
