import SiteConf.Log
import SiteConf.Origins
import SiteConf.Writer.Registry

set_option autoImplicit false

/-! # Walking a configuration

A walk goes through the tree in document order and calls the writers of the fields it meets. A
field without an opening writer is an error, unless it is a text or an integer; a failing writer
is reported with the path and line of the node it was called for. -/

namespace SiteConf.Writer

variable {σ : Type}

/-- What a walk needs to know: the writers, the lines of the nodes, and how the state takes note
of a field that is entered. -/
structure Walker (σ : Type) where
  registry : Registry σ
  origins : Origins
  note : Visit → σ → σ

/-- The log line about a field that is entered. -/
def Visit.entry (v : Visit) : LogEntry :=
  ⟨.trace, "visiting " ++ v.path ++ " (line " ++ v.line.text ++ ") at level "
    ++ Number.showNat v.level⟩

/-! ## One node -/

/-- The error of a writer, with the node it was called for. An error that already names its node
is kept. -/
def located (v : Visit) : Error → Error
  | .writerFailed path line message => .writerFailed path line message
  | other => .writerFailed v.path v.line other.message

def call {α : Type} (hook : Visit → Step σ Error α) (v : Visit) : Step σ Error α :=
  tryCatch (hook v) fun e => throw (located v e)

/-- Calls a hook for a node, if there is one. -/
def callClose (hook : Option (CloseHook σ)) (v : Visit) : Step σ Error Unit :=
  match hook with
  | some h => call h v
  | none => pure ()

/-- Enters a field: is it handled, and at what level is the inside written? -/
def enter (opening : Option (Opening σ)) (v : Visit) : Step σ Error (Bool × Nat) :=
  match opening with
  | some .nothing => pure (false, v.level)
  | some (.call hook) => do return (← call hook v, v.level + 1)
  | none => if v.value.isPlain then pure (false, v.level) else throw (.noWriter v.path v.line)

/-- Enters a field, goes inside unless the field is handled, and leaves it. -/
def around (w : Walker σ) (v : Visit)
    (inside : Option (FieldWriters σ) → Nat → Step σ Error Unit) : Step σ Error Unit := do
  let writers := Ordered.get? v.key w.registry
  Step.of fun s => (.ok (), w.note v s)
  let (handled, inner) ← enter (writers.bind FieldWriters.opening) v
  if handled then pure () else inside writers inner
  callClose (writers.bind FieldWriters.closing) v

/-- Enters an item, goes inside unless the item is handled, and leaves it. -/
def aroundItem (openItem : OpenHook σ) (closeItem : Option (CloseHook σ)) (v : Visit)
    (inside : Step σ Error Unit) : Step σ Error Unit := do
  if ← call openItem v then pure () else inside
  callClose closeItem v

/-! ## The whole tree -/

mutual

def walkTree (w : Walker σ) (level : Nat) (path : String) : Tree → Step σ Error Unit
  | .scalar _ => pure ()
  | .sequence items => walkItems w level path 0 items
  | .mapping fields => walkFields w level path fields

/-- Walks the items of the sequence at `path` from `index` on. -/
def walkItems (w : Walker σ) (level : Nat) (path : String) (index : Nat) :
    List Tree → Step σ Error Unit
  | [] => pure ()
  | t :: ts => do
      walkTree w level (KeyPath.item path index) t
      walkItems w level path (index + 1) ts

def walkFields (w : Walker σ) (level : Nat) (path : String) :
    List (String × Tree) → Step σ Error Unit
  | [] => pure ()
  | (key, t) :: rest => do
      visitField w level (KeyPath.child path key) key t
      walkFields w level path rest

def visitField (w : Walker σ) (level : Nat) (path key : String) : Tree → Step σ Error Unit
  | .scalar v =>
      around w ⟨key, .scalar v, path, level, w.origins.lineOf path⟩ fun _ _ => pure ()
  | .mapping fields =>
      around w ⟨key, .mapping fields, path, level, w.origins.lineOf path⟩ fun _ inner =>
        walkFields w inner path fields
  | .sequence items =>
      around w ⟨key, .sequence items, path, level, w.origins.lineOf path⟩ fun writers inner =>
        match writers.bind FieldWriters.openItem with
        | some openItem =>
            visitItems w openItem (writers.bind FieldWriters.closeItem) inner path key 0 items
        | none => walkItems w inner path 0 items

/-- Visits the items, from `index` on, of the field at `path` whose items have writers. -/
def visitItems (w : Walker σ) (openItem : OpenHook σ) (closeItem : Option (CloseHook σ))
    (level : Nat) (path key : String) (index : Nat) : List Tree → Step σ Error Unit
  | [] => pure ()
  | t :: ts => do
      let here := KeyPath.item path index
      aroundItem openItem closeItem ⟨key, t, here, level, w.origins.lineOf here⟩
        (walkTree w (level + 1) here t)
      visitItems w openItem closeItem level path key (index + 1) ts

end

def walk (w : Walker σ) (tree : Tree) : Step σ Error Unit :=
  walkTree w 0 KeyPath.root tree

/-! ## Writing on a page -/

/-- What a walk leaves behind: the emitted text and the log. -/
structure Page where
  emitter : Emitter := {}
  log : Log := []
  deriving Repr, Inhabited

def Page.note (v : Visit) (p : Page) : Page :=
  { p with log := p.log ++ [v.entry] }

/-- Walks a configuration onto a fresh page: the text and the log. -/
def write (registry : Registry Page) (origins : Origins) (tree : Tree) :
    Except Error String × Log :=
  match Step.run (walk ⟨registry, origins, Page.note⟩ tree) {} with
  | (.ok (), page) => (.ok page.emitter.text, page.log)
  | (.error e, page) => (.error e, page.log)

end SiteConf.Writer
