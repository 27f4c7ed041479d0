import SiteConf.Document
import SiteConf.Template.Sink
import SiteConf.Writer.Walk

set_option autoImplicit false

/-! # What a renderer deals with

A template is run by an engine, of which the renderer knows little: it has values, it works on a
state, names can be looked up in the state, and values can be called. The renderer hands the
engine a writer that does nothing, the sinks that writers write into, and `walk`, which walks the
configuration with the writers that the template defines. The writers of a field are the values
named after the field and the moment they are called at.

What the renderer keeps for itself lies on a desk, which is a part of the state. -/

namespace SiteConf.Template

open SiteConf.Writer

/-! ## The desk -/

/-- What a renderer keeps while a template runs: the configuration, the sinks that it has handed
out, the error of the first walk that failed, and the log. -/
structure Desk where
  document : Document
  sinks : List Sink := []
  failure : Option Error := none
  log : Log := []
  deriving Repr, Inhabited

namespace Desk

def sink (d : Desk) (n : Nat) : Sink :=
  (d.sinks[n]?).getD ⟨"", none, 0, [], false⟩

def modifySink (n : Nat) (f : Sink → Sink) (d : Desk) : Desk :=
  { d with sinks := d.sinks.modify n f }

/-- Puts a sink behind those that there are. -/
def addSink (s : Sink) (d : Desk) : Desk :=
  { d with sinks := d.sinks ++ [s] }

def note (entry : LogEntry) (d : Desk) : Desk :=
  { d with log := d.log ++ [entry] }

/-- Takes note of a walk that failed, unless one has failed before. -/
def fail (e : Error) (d : Desk) : Desk :=
  { d with failure := d.failure.or (some e) }

end Desk

/-! ## Engines, as renderers see them -/

/-- What calling a value with arguments does. -/
abbrev Calling (V σ : Type) := V → List V → Step σ Fault V

/-- What a renderer has to know of an engine with values `V` and states `σ`: where its desk is,
what a name stands for, which values are those that it has handed out, and how other data becomes
a value. -/
structure Host (V σ : Type) where
  desk : σ → Desk
  setDesk : Desk → σ → σ
  desk_setDesk : ∀ d s, desk (setDesk d s) = d
  lookup? : σ → String → Option V
  /-- Is the value undefined or none? -/
  isAbsent : V → Bool
  isNoop : V → Bool
  isWalk : V → Bool
  ofSink : Nat → V
  ofTree : Tree → V
  ofText : String → V
  /-- The one argument of a sink's method as a text. -/
  content : σ → List V → Except Fault String

namespace Host

variable {V σ : Type} (H : Host V σ)

def modifyDesk (f : Desk → Desk) (s : σ) : σ :=
  H.setDesk (f (H.desk s)) s

@[simp] theorem desk_modifyDesk (f : Desk → Desk) (s : σ) :
    H.desk (H.modifyDesk f s) = f (H.desk s) :=
  H.desk_setDesk _ _

def callSink (n : Nat) (name : String) (args : List V) : Step σ Fault V := do
  match name with
  | "line" =>
      let content ← Step.lift (H.content (← get) args)
      modify (H.modifyDesk (Desk.modifySink n (Sink.emit (.line content))))
  | "write" =>
      let content ← Step.lift (H.content (← get) args)
      modify (H.modifyDesk (Desk.modifySink n (Sink.emit (.raw content))))
  | "handled" =>
      Step.lift (noMore args)
      modify (H.modifyDesk (Desk.modifySink n fun s => { s with handled := true }))
  | _ => throw ⟨.invalidOperation, some ("writer sink has no method '" ++ name ++ "'")⟩
  return H.ofText ""

end Host

/-! ## Calling writers -/

/-- The state of a walk that a template started: that of the engine, and the text of the walk. -/
structure Stage (σ : Type) where
  machine : σ
  emitter : Emitter := {}
  deriving Repr, Inhabited

/-- The moments at which writers are called. -/
inductive Moment where
  | opening
  | openItem
  | closeItem
  | closing
  deriving DecidableEq, Repr

/-- What the name of a writer ends with. -/
def Moment.ending : Moment → String
  | .opening => "_open"
  | .openItem => "_open_item"
  | .closeItem => "_close_item"
  | .closing => "_close"

/-- The name under which the writer of a field is looked up. -/
def writerName (field : String) (moment : Moment) : String :=
  field ++ moment.ending

namespace Host

variable {V σ : Type} (H : Host V σ)

/-- Calls a writer for a visit, with a fresh sink and the node. What it wrote is replayed once it
is done; a fault leaves the emitter as it was. -/
def callWriter (call : Calling V σ) (writer : V) (v : Visit) : Step (Stage σ) Error Bool :=
  if H.isNoop writer then pure false
  else Step.of fun s =>
    let n := (H.desk s.machine).sinks.length
    let m := H.modifyDesk (Desk.addSink (Sink.ofVisit v)) s.machine
    match (call writer [H.ofSink n, H.ofTree v.value]).run m with
    | (.ok _, m) =>
        (.ok ((H.desk m).sink n).handled, ⟨m, ((H.desk m).sink n).replay s.emitter⟩)
    | (.error f, m) => (.error (.template f), ⟨m, s.emitter⟩)

/-- The writer of a field; undefined and none stand for no writer. -/
def writer? (m : σ) (field : String) (moment : Moment) : Option V :=
  (H.lookup? m (writerName field moment)).filter fun v => !H.isAbsent v

/-- What a writer does when a field is entered: the no-op writer is known as such. -/
def openingOf (call : Calling V σ) (writer : V) : Opening (Stage σ) :=
  if H.isNoop writer then .nothing else .call (H.callWriter call writer)

def closingOf (call : Calling V σ) (writer : V) : CloseHook (Stage σ) :=
  fun v => do
    let _ ← H.callWriter call writer v
    pure ()

def writersOf (call : Calling V σ) (m : σ) (field : String) : FieldWriters (Stage σ) :=
  ⟨(H.writer? m field .opening).map (H.openingOf call),
    (H.writer? m field .openItem).map (H.callWriter call),
    (H.writer? m field .closeItem).map (H.closingOf call),
    (H.writer? m field .closing).map (H.closingOf call)⟩

/-- The writers that a template defines for the given fields. -/
def registryOf (call : Calling V σ) (m : σ) (fields : List String) : Registry (Stage σ) :=
  fields.foldl (fun r field => Registry.insert field (H.writersOf call m field) r) []

/-! ## Walking the configuration -/

def enterField (v : Visit) (s : Stage σ) : Stage σ :=
  { s with machine := H.modifyDesk (Desk.note v.entry) s.machine }

/-- Walks the configuration with the writers that are visible now: the text of the walk. The first
walk that fails is remembered. -/
def walkDocument (call : Calling V σ) : Step σ Fault V :=
  Step.of fun m =>
    let document := (H.desk m).document
    let registry := H.registryOf call m (distinct document.tree.fieldNames)
    let m := H.modifyDesk (Desk.note ⟨.debug, "Walking configuration with "
      ++ Number.showNat registry.length ++ " templated field writer(s)"⟩) m
    let walker : Walker (Stage σ) := ⟨registry, document.origins, H.enterField⟩
    match (walk walker document.tree).run ⟨m, {}⟩ with
    | (.ok (), s) => (.ok (H.ofText s.emitter.text), s.machine)
    | (.error e, s) =>
        (.error ⟨.invalidOperation, some e.message⟩, H.modifyDesk (Desk.fail e) s.machine)

end Host

end SiteConf.Template
