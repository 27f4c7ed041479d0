import SiteConf.Template.Eval

set_option autoImplicit false

/-! # Calls

What can be called, beside what a renderer hands out: macros and the maker of namespaces. -/

namespace SiteConf.Template

/-! ## Macros -/

/-- Splits arguments into those by place and those by name. -/
def splitNamed (args : List Value) : List Value × List (String × Value) :=
  match args.getLast? with
  | some (.arguments named) => (args.dropLast, named)
  | _ => (args, [])

/-- The value of each parameter. An argument too many, or given twice, is a fault; a missing one is
undefined. -/
def bindParams (named : List (String × Value)) :
    List String → List Value → Except Fault (List (String × Value))
  | [], [] => .ok []
  | [], _ :: _ => .error tooManyArguments
  | p :: ps, [] => do
      return (p, (Ordered.get? p named).getD .undefined) :: (← bindParams named ps [])
  | p :: ps, v :: vs =>
      if Ordered.contains p named then .error tooManyArguments
      else do return (p, v) :: (← bindParams named ps vs)

/-- The variables that a call of a macro starts with. Arguments by name have to belong to a
parameter, or to the caller if the macro uses it. -/
def MacroDef.bind (d : MacroDef) (args : List Value) :
    Except Fault (List (String × Value) × Option Value) := do
  let (args, named) := splitNamed args
  let bound ← bindParams named d.params args
  let known (name : String) := d.params.contains name || (d.usesCaller && name == "caller")
  if named.all fun a => known a.1 then
    return (bound, if d.usesCaller then some ((Ordered.get? "caller" named).getD .undefined)
      else none)
  else
    .error tooManyArguments

/-- The default of each parameter, if it has one. -/
def MacroDef.defaultsOf (d : MacroDef) : List (Option Expr) :=
  List.replicate (d.params.length - d.defaults.length) none ++ d.defaults.map some

/-- Sets the parameters, the last one first; one that is undefined takes its default. -/
def setParams (call : Caller) : List ((String × Value) × Option Expr) → Run Unit
  | [] => pure ()
  | ((name, v), d) :: rest => do
      setParams call rest
      let v ← match d with
        | some e => if v.isUndefined then e.eval call else pure v
        | none => pure v
      modify (Machine.store name v)

/-- The frames that a call of a macro starts with: one on the macro's closure, one on the variables
of the template. -/
def MacroDef.frames (d : MacroDef) : List Frame :=
  [{ layer := match d.closure with
      | some n => .closure n
      | none => .nothing }, { layer := .context }]

/-- Calls a macro: the text of its body. The frames of the caller come back afterwards. -/
def callMacro (call : Caller) (d : MacroDef) (args : List Value) : Run Value := do
  let (bound, caller) ← Step.lift (d.bind args)
  let m ← get
  set { m with frames := d.frames, outer := m.depth + callCost }
  match caller with
  | some v => modify (Machine.store "caller" v)
  | none => pure ()
  if recursionLimit < (← get).depth then
    throw invalidOperation
  else
    setParams call (bound.zip d.defaultsOf)
    let (text, _) ← execBody call d.body
    modify fun after => { after with frames := m.frames, outer := m.outer }
    return .str text

/-! ## Namespaces -/

/-- Makes a namespace from a mapping or from arguments by name. -/
def newSpace (args : List Value) : Run Value := do
  let (entries, rest) := optional args
  let entries : Ordered Value ← match entries with
    | none => pure []
    | some (.arguments named) => pure named
    | some (.map pairs) => pure (pairs.map fun p => (p.1.text, p.2))
    | some _ => throw invalidOperation
  Step.lift (noMore rest)
  let m ← get
  set { m with spaces := m.spaces ++ [entries] }
  return .space m.spaces.length

/-! ## Calling a value -/

/-- Calls a value that is none of the renderer's, with `call` for the calls that it makes. -/
def callValue (call : Caller) : Caller
  | .macroRef _ n, args => do
      match (← get).macros[n]? with
      | some d => callMacro call d args
      | none => throw invalidOperation
  | .makeSpace, args => newSpace args
  | _, _ => throw invalidOperation

end SiteConf.Template
