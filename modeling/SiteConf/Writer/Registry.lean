import SiteConf.Error
import SiteConf.Step
import SiteConf.Writer.Emitter

set_option autoImplicit false

/-! # Writers

A dialect registers writers for the fields of a configuration. Writers are hooks that are called
when a field or an item of it is entered and left; they work on a state `σ`, into which they
write. A hook that opens a field or item says whether it has handled all that is below. -/

namespace SiteConf.Writer

/-- A hook that opens a field or an item; its result says whether the subtree is handled. -/
abbrev OpenHook (σ : Type) := Visit → Step σ Error Bool

abbrev CloseHook (σ : Type) := Visit → Step σ Error Unit

/-- What a field does when it is entered. A field that does nothing does not indent what is
below it. -/
inductive Opening (σ : Type) where
  | nothing
  | call (hook : OpenHook σ)

structure FieldWriters (σ : Type) where
  opening : Option (Opening σ) := none
  openItem : Option (OpenHook σ) := none
  closeItem : Option (CloseHook σ) := none
  closing : Option (CloseHook σ) := none

namespace FieldWriters

variable {σ : Type}

instance : Inhabited (FieldWriters σ) := ⟨{}⟩

def isEmpty (w : FieldWriters σ) : Bool :=
  w.opening.isNone && w.openItem.isNone && w.closeItem.isNone && w.closing.isNone

/-- Adds hooks to those a field has; a hook of the same kind is replaced. -/
def extend (more w : FieldWriters σ) : FieldWriters σ :=
  ⟨more.opening.or w.opening, more.openItem.or w.openItem, more.closeItem.or w.closeItem,
    more.closing.or w.closing⟩

end FieldWriters

abbrev Registry (σ : Type) := Ordered (FieldWriters σ)

namespace Registry

variable {σ : Type}

/-- Registers a complete set of hooks; one without any hook is ignored. -/
def insert (name : String) (writers : FieldWriters σ) (r : Registry σ) : Registry σ :=
  if writers.isEmpty then r else Ordered.insert name writers r

/-- Registers hooks beside those a field already has. -/
def extend (name : String) (writers : FieldWriters σ) (r : Registry σ) : Registry σ :=
  Ordered.insert name (writers.extend ((Ordered.get? name r).getD {})) r

/-- The hooks of a field, none for a field that is not registered. -/
def writersOf (name : String) (r : Registry σ) : FieldWriters σ :=
  (Ordered.get? name r).getD {}

/-! A field that is not registered and one without any hook are alike, whichever hook is asked
for. -/

theorem bind_get? {α : Type} {hook : FieldWriters σ → Option α} (h : hook {} = none)
    (name : String) (r : Registry σ) :
    (Ordered.get? name r).bind hook = hook (r.writersOf name) := by
  rw [writersOf]
  cases Ordered.get? name r with
  | none => exact h.symm
  | some writers => rfl

theorem bind_opening (name : String) (r : Registry σ) :
    (Ordered.get? name r).bind FieldWriters.opening = (r.writersOf name).opening :=
  bind_get? rfl name r

theorem bind_openItem (name : String) (r : Registry σ) :
    (Ordered.get? name r).bind FieldWriters.openItem = (r.writersOf name).openItem :=
  bind_get? rfl name r

theorem bind_closeItem (name : String) (r : Registry σ) :
    (Ordered.get? name r).bind FieldWriters.closeItem = (r.writersOf name).closeItem :=
  bind_get? rfl name r

theorem bind_closing (name : String) (r : Registry σ) :
    (Ordered.get? name r).bind FieldWriters.closing = (r.writersOf name).closing :=
  bind_get? rfl name r

end Registry

end SiteConf.Writer
