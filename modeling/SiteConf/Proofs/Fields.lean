import SiteConf.Proofs.Calls

set_option autoImplicit false

/-! # The fields that a walk may come to

`fieldsIn` lists the fields of a tree in document order, each with the visit that a walk makes of it
and with the fields and items it sits in. It goes through the tree as the walk does, but asks no
hook: whether the walk comes to a field is left open. -/

namespace SiteConf.Writer

open KeyPath

variable {σ : Type}

/-! ## The fields of a tree -/

/-- A field with the visit that a walk makes of it, and the fields and the dispatched items that it
sits in, from the outside in. -/
structure FieldSpot where
  visit : Visit
  trail : List (Role × Visit)

/-- The level at which the inside of a node is written. -/
def Walker.innerLevel (w : Walker σ) (role : Role) (v : Visit) : Nat :=
  match role, (w.registry.writersOf v.key).opening with
  | .item, _ => v.level + 1
  | .field, some (.call _) => v.level + 1
  | .field, _ => v.level

def Walker.visit (w : Walker σ) (key : String) (t : Tree) (path : String) (level : Nat) : Visit :=
  ⟨key, t, path, level, w.origins.lineOf path⟩

mutual

/-- The fields in the node at `path`, in document order. Its items are dispatched under the name
of the owner, if there is one. -/
def fieldsIn (w : Walker σ) (trail : List (Role × Visit)) (owner : Option String) (level : Nat)
    (path : String) : Tree → List FieldSpot
  | .scalar _ => []
  | .sequence items => fieldsInItems w trail owner level path 0 items
  | .mapping fields => fieldsInFields w trail level path fields

/-- The fields in the items of the sequence at `path` from `index` on. -/
def fieldsInItems (w : Walker σ) (trail : List (Role × Visit)) (owner : Option String)
    (level : Nat) (path : String) (index : Nat) : List Tree → List FieldSpot
  | [] => []
  | t :: ts =>
      let here := KeyPath.item path index
      (match owner with
        | none => fieldsIn w trail none level here t
        | some key =>
            let v := w.visit key t here level
            fieldsIn w (trail ++ [(.item, v)]) none (w.innerLevel .item v) here t)
        ++ fieldsInItems w trail owner level path (index + 1) ts

/-- The fields of the mapping at `path`, and the fields in them. -/
def fieldsInFields (w : Walker σ) (trail : List (Role × Visit)) (level : Nat) (path : String) :
    List (String × Tree) → List FieldSpot
  | [] => []
  | (key, t) :: rest =>
      let here := KeyPath.child path key
      let v := w.visit key t here level
      ⟨v, trail⟩ :: (fieldsIn w (trail ++ [(.field, v)]) (ownerIn w .field key)
        (w.innerLevel .field v) here t ++ fieldsInFields w trail level path rest)

end

section Names

variable (w : Walker σ)

mutual

/-- No field is left out, and they are in document order. -/
theorem map_key_fieldsIn : ∀ (t : Tree) (trail : List (Role × Visit)) (owner : Option String)
    (level : Nat) (path : String),
    (fieldsIn w trail owner level path t).map (fun f => f.visit.key) = t.fieldNames
  | .scalar _, _, _, _, _ => rfl
  | .sequence items, trail, owner, level, path => by
      rw [fieldsIn, Tree.fieldNames]
      exact map_key_fieldsInItems items trail owner level path 0
  | .mapping fields, trail, owner, level, path => by
      rw [fieldsIn, Tree.fieldNames]
      exact map_key_fieldsInFields fields trail level path

theorem map_key_fieldsInItems : ∀ (items : List Tree) (trail : List (Role × Visit))
    (owner : Option String) (level : Nat) (path : String) (index : Nat),
    (fieldsInItems w trail owner level path index items).map (fun f => f.visit.key)
      = Tree.fieldNamesOfItems items
  | [], _, _, _, _, _ => by rw [fieldsInItems]; rfl
  | t :: ts, trail, owner, level, path, index => by
      have hrest := map_key_fieldsInItems ts trail owner level path (index + 1)
      cases owner with
      | none =>
          rw [fieldsInItems, List.map_append, hrest, map_key_fieldsIn t, Tree.fieldNamesOfItems]
      | some key =>
          rw [fieldsInItems, List.map_append, hrest, map_key_fieldsIn t, Tree.fieldNamesOfItems]

theorem map_key_fieldsInFields : ∀ (fields : List (String × Tree)) (trail : List (Role × Visit))
    (level : Nat) (path : String),
    (fieldsInFields w trail level path fields).map (fun f => f.visit.key)
      = Tree.fieldNamesOfFields fields
  | [], _, _, _ => by rw [fieldsInFields]; rfl
  | (key, t) :: rest, trail, level, path => by
      have hrest := map_key_fieldsInFields rest trail level path
      rw [fieldsInFields, List.map_cons, List.map_append, hrest, map_key_fieldsIn t,
        Tree.fieldNamesOfFields]
      rfl

end

end Names

/-! ## Fields below a step -/

/-- The path of a part of the node at `path`. -/
def stepPath (path : String) : Tree.Step → String
  | .key k => KeyPath.child path k
  | .index i => KeyPath.item path i

theorem ofSteps_append_step (base : String) (steps : List Tree.Step) (step : Tree.Step) :
    base ++ ofSteps (steps ++ [step]) = stepPath (base ++ ofSteps steps) step := by
  cases step with
  | key k => exact (child_ofSteps base steps k).symm
  | index i => exact (item_ofSteps base steps i).symm

/-- A field itself, with what it sits in; an item is no field. -/
def fieldAt (trail : List (Role × Visit)) (role : Role) (v : Visit) : List FieldSpot :=
  match role with
  | .field => [⟨v, trail⟩]
  | .item => []

section Fields

variable (w : Walker σ) (trail : List (Role × Visit)) (owner : Option String) (level : Nat)
  (path : String)

/-- The fields that a child is and holds. -/
def fieldsOf (child : Tree.Step × Tree) : List FieldSpot :=
  let here := stepPath path child.1
  match roleOf? owner child.1 with
  | none => fieldsIn w trail none level here child.2
  | some (role, key) =>
      let v := w.visit key child.2 here level
      fieldAt trail role v ++ fieldsIn w (trail ++ [(role, v)]) (ownerIn w role key)
        (w.innerLevel role v) here child.2

theorem fieldsOf_of_none {step : Tree.Step} (h : roleOf? owner step = none) (t : Tree) :
    fieldsOf w trail owner level path (step, t)
      = fieldsIn w trail none level (stepPath path step) t := by
  rw [fieldsOf, h]

theorem fieldsOf_of_some {step : Tree.Step} {role : Role} {key : String}
    (h : roleOf? owner step = some (role, key)) (t : Tree) :
    fieldsOf w trail owner level path (step, t)
      = fieldAt trail role (w.visit key t (stepPath path step) level)
        ++ fieldsIn w (trail ++ [(role, w.visit key t (stepPath path step) level)])
          (ownerIn w role key) (w.innerLevel role (w.visit key t (stepPath path step) level))
          (stepPath path step) t := by
  rw [fieldsOf, h]

theorem fieldsInItems_eq (index : Nat) (items : List Tree) :
    fieldsInItems w trail owner level path index items
      = (Tree.itemSteps index items).flatMap (fieldsOf w trail owner level path) := by
  induction items generalizing index with
  | nil => rfl
  | cons t ts ih =>
      cases owner <;> rw [fieldsInItems, Tree.itemSteps, List.flatMap_cons, ih] <;> rfl

theorem fieldsInFields_eq (fields : List (String × Tree)) :
    fieldsInFields w trail level path fields
      = (Tree.fieldSteps fields).flatMap (fieldsOf w trail owner level path) := by
  induction fields with
  | nil => rfl
  | cons e rest ih =>
      obtain ⟨key, t⟩ := e
      rw [fieldsInFields, Tree.fieldSteps, List.flatMap_cons, ih]
      rfl

/-- The fields in a node are those that its children are and hold. -/
theorem fieldsIn_eq (t : Tree) :
    fieldsIn w trail owner level path t
      = t.children.flatMap (fieldsOf w trail owner level path) := by
  cases t with
  | scalar v => rfl
  | sequence items => exact fieldsInItems_eq w trail owner level path 0 items
  | mapping fields => exact fieldsInFields_eq w trail owner level path fields

end Fields

/-- The fields in a node sit in what the node sits in, and their lines are those of the table. -/
theorem of_mem_fieldsIn {w : Walker σ} (t : Tree) :
    ∀ {trail : List (Role × Visit)} {owner : Option String} {level : Nat} {path : String}
      {f : FieldSpot}, f ∈ fieldsIn w trail owner level path t →
      trail <+: f.trail ∧ f.visit.line = w.origins.lineOf f.visit.path := by
  induction t using Tree.children_induction with
  | h t ih =>
      intro trail owner level path f hf
      rw [fieldsIn_eq, List.mem_flatMap] at hf
      obtain ⟨⟨step, u⟩, hchild, hf⟩ := hf
      rcases hrole : roleOf? owner step with _ | ⟨role, key⟩
      · rw [fieldsOf_of_none _ _ _ _ _ hrole] at hf
        exact ih _ hchild hf
      · rw [fieldsOf_of_some _ _ _ _ _ hrole] at hf
        rcases List.mem_append.mp hf with hf | hf
        · cases role with
          | item => cases hf
          | field =>
              obtain rfl := List.mem_singleton.mp hf
              exact ⟨List.prefix_rfl, rfl⟩
        · obtain ⟨htrail, hline⟩ := ih _ hchild hf
          exact ⟨(List.prefix_append _ _).trans htrail, hline⟩

/-! ## The fields of a part -/

/-- The fields that a part of a walk may come to. -/
def Part.fields (w : Walker σ) (base : String) (trail : List (Role × Visit)) :
    Part → List FieldSpot
  | .through owner level steps children =>
      children.flatMap (fieldsOf w trail owner level (base ++ ofSteps steps))
  | .one owner level steps step t =>
      fieldsOf w trail owner level (base ++ ofSteps steps) (step, t)

section Part

variable {w : Walker σ} {base : String} {trail : List (Role × Visit)} {owner : Option String}
  {level : Nat} {steps : List Tree.Step} {step : Tree.Step} {t : Tree} {role : Role} {key : String}

theorem Part.fields_one_of_none (h : roleOf? owner step = none) :
    (Part.one owner level steps step t).fields w base trail
      = (Part.through none level (steps ++ [step]) t.children).fields w base trail := by
  rw [Part.fields, Part.fields, fieldsOf_of_none _ _ _ _ _ h, fieldsIn_eq, ofSteps_append_step]

theorem Part.fields_one_of_some (h : roleOf? owner step = some (role, key)) {v : Visit}
    (hv : v = visitAt w base key t (steps ++ [step]) level) :
    (Part.one owner level steps step t).fields w base trail
      = fieldAt trail role v
        ++ (Part.through (ownerIn w role key) (w.innerLevel role v) (steps ++ [step])
            t.children).fields w base (trail ++ [(role, v)]) := by
  have hvisit : v = w.visit key t (stepPath (base ++ ofSteps steps) step) level := by
    rw [hv, visitAt, ofSteps_append_step, Walker.visit]
  rw [Part.fields, Part.fields, fieldsOf_of_some _ _ _ _ _ h, ← hvisit, fieldsIn_eq,
    ofSteps_append_step]

end Part

end SiteConf.Writer
