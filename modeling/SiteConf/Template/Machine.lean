import SiteConf.Source.Conditions
import SiteConf.Template.Expr
import SiteConf.Template.Host
import SiteConf.Template.Operator

set_option autoImplicit false

/-! # The state of a running template

A machine has a stack of frames with variables, and stores for all that values only refer to:
closures, macros, namespaces and loops, and the sinks on the desk of the renderer. Looking a name
up goes from the innermost frame outwards and ends with the names that every template knows. -/

namespace SiteConf.Template

/-! ## Parts of the state -/

/-- What a frame shows below its own variables. -/
inductive Layer where
  | nothing
  | context
  | closure (number : Nat)
  deriving DecidableEq, Repr, Inhabited

/-- A frame: its variables, its loop, what lies below, and the closure that the macros defined in
it share. -/
structure Frame where
  locals : Ordered Value := []
  loop : Option Nat := none
  layer : Layer := .nothing
  closure : Option Nat := none
  deriving Repr, Inhabited

/-- A macro: the defaults belong to its last parameters. -/
structure MacroDef where
  params : List String
  defaults : List Expr
  body : List Stmt
  closure : Option Nat
  usesCaller : Bool
  deriving Repr, Inhabited

/-- A loop: the place of its current item and the number of its items. -/
structure Loop where
  index : Nat
  length : Nat
  deriving DecidableEq, Repr, Inhabited

/-- The state of a running template. `outer` is the depth of the calls around the current one. -/
structure Machine extends Desk where
  context : Ordered Value
  frames : List Frame
  outer : Nat := 0
  closures : List (Ordered Value) := []
  macros : List MacroDef := []
  spaces : List (Ordered Value) := []
  loops : List Loop := []
  deriving Repr, Inhabited

abbrev Run (α : Type) := Step Machine Fault α

/-- How deep calls and loops may nest. -/
def recursionLimit : Nat := 500

/-- What a call of a macro adds to the depth, beside its frames. -/
def callCost : Nat := 4

def Loop.attr (l : Loop) : String → Value
  | "index" => .int (l.index + 1)
  | "index0" => .int l.index
  | "revindex" => .int ((l.length : Int) - l.index)
  | "revindex0" => .int ((l.length : Int) - l.index - 1)
  | "first" => .bool (l.index == 0)
  | "last" => .bool (l.index + 1 == l.length)
  | "length" => .int l.length
  | _ => .undefined

def Sink.attr (s : Sink) : String → Value
  | "path" => .str s.path
  | "line_no" =>
      match s.line with
      | some n => .int n
      | none => .str "unknown"
  | "level" => .int s.level
  | _ => .undefined

namespace Machine

/-! ## Starting -/

/-- The variables that a template is rendered with. -/
def contextOf (document : Document) (conditions : Conditions) : Ordered Value :=
  [("config", .ofTree document.tree), ("origins", .ofOrigins document.origins),
    ("conditions", .seq (conditions.map .str))]

/-- The machine before the first statement. -/
def start (document : Document) (conditions : Conditions) : Machine :=
  ⟨⟨document, [], none, []⟩, contextOf document conditions, [{ layer := .context }], 0, [], [], [],
    []⟩

/-- How deep calls and loops are nested. -/
def depth (m : Machine) : Nat :=
  m.outer + m.frames.length

/-! ## Variables -/

/-- The names that every template knows. -/
def global? : String → Option Value
  | "noop" => some .noop
  | "walk" => some .walk
  | "namespace" => some .makeSpace
  | _ => none

/-- A name in what lies below a frame. -/
def layer? (m : Machine) (name : String) : Layer → Option Value
  | .nothing => none
  | .context => Ordered.get? name m.context
  | .closure n => (m.closures[n]?).bind (Ordered.get? name)

def frame? (m : Machine) (name : String) (f : Frame) : Option Value :=
  match Ordered.get? name f.locals with
  | some v => some v
  | none =>
      match (if name = "loop" then f.loop else none) with
      | some n => some (.loop n)
      | none => m.layer? name f.layer

/-- The value of a name, none if nothing has that name. -/
def lookup? (m : Machine) (name : String) : Option Value :=
  match m.frames.findSome? (m.frame? name) with
  | some v => some v
  | none => global? name

/-- Sets a variable of the innermost frame, and of its closure if it has one. -/
def store (name : String) (value : Value) (m : Machine) : Machine :=
  match m.frames with
  | [] => m
  | f :: rest =>
      { m with
        frames := { f with locals := Ordered.insert name value f.locals } :: rest
        closures := match f.closure with
          | some n => m.closures.modify n (Ordered.insert name value)
          | none => m.closures }

/-- Gives the innermost frame a closure, unless it has one. -/
def openClosure (m : Machine) : Machine :=
  match m.frames with
  | [] => m
  | f :: rest =>
      match f.closure with
      | some _ => m
      | none =>
          { m with
            frames := { f with closure := some m.closures.length } :: rest
            closures := m.closures ++ [[]] }

def closure? (m : Machine) : Option Nat :=
  m.frames.head?.bind (·.closure)

/-- Puts the current value of a name into the closure of the innermost frame, unless the closure
knows the name. -/
def enclose (m : Machine) (name : String) : Machine :=
  let m := m.openClosure
  match m.closure? with
  | some n =>
      let value := (m.lookup? name).getD .undefined
      { m with closures := m.closures.modify n fun c =>
          if Ordered.contains name c then c else Ordered.insert name value c }
  | none => m

/-! ## Stores -/

def space (m : Machine) (n : Nat) : Ordered Value :=
  (m.spaces[n]?).getD []

def loop (m : Machine) (n : Nat) : Loop :=
  (m.loops[n]?).getD ⟨0, 0⟩

/-- A value as operators, filters and tests see it: a namespace is a mapping with sorted keys. -/
def view (m : Machine) : Value → Value
  | .space n =>
      .map (((m.space n).mergeSort fun a b => Value.compareText a.1 b.1 != .gt).map fun e =>
        (.str e.1, e.2))
  | v => v

def text (m : Machine) : Value → String
  | .loop n =>
      let l := m.loop n
      "<loop " ++ Number.showNat l.index ++ "/" ++ Number.showNat l.length ++ ">"
  | v => (m.view v).text

/-- An attribute of a value. Undefined has none at all; values without the attribute give
undefined. -/
def attr (m : Machine) (v : Value) (name : String) : Except Fault Value :=
  match v with
  | .undefined => .error ⟨.undefinedValue, none⟩
  | .map pairs => .ok ((Value.find? (.str name) pairs).getD .undefined)
  | .arguments named => .ok ((Ordered.get? name named).getD .undefined)
  | .space n => .ok ((Ordered.get? name (m.space n)).getD .undefined)
  | .sink n => .ok ((m.sink n).attr name)
  | .loop n => .ok ((m.loop n).attr name)
  | _ => .ok .undefined

/-- An item of a value: the value under a key, or the item or character at a place. -/
def item (m : Machine) (v index : Value) : Except Fault Value :=
  match v, index with
  | .map pairs, _ => .ok ((Value.find? index pairs).getD .undefined)
  | .seq items, _ =>
      .ok (((Value.place? index items.length).bind (items[·]?)).getD .undefined)
  | .str s, _ =>
      let chars := s.toList
      .ok (((Value.place? index chars.length).bind (chars[·]?)).elim .undefined fun c =>
        .str (String.ofList [c]))
  | _, .str name => m.attr v name
  | .undefined, _ => .error ⟨.undefinedValue, none⟩
  | _, _ => .ok .undefined

end Machine

end SiteConf.Template
