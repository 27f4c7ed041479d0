import SiteConf.Proofs.MissingWriters

set_option autoImplicit false

/-! # The levels of visits

The level at which a field is visited follows from the fields it sits in: each of them that has an
opening hook adds one, and each whose items are dispatched adds one. The level of an item follows
from the field that owns it, and a node is closed at the level at which it was opened
(`calls_follow_writers`).

A key may occur twice in a tree, and then a path leads to two nodes. So the way to a node is given
by a *route*, the steps together with the nodes they lead to. -/

namespace SiteConf

def Tree.isSequence : Tree → Bool
  | .sequence _ => true
  | _ => false

theorem Tree.isSequence_of_key_mem {u t : Tree} {k : String} (h : (.key k, t) ∈ u.children) :
    u.isSequence = false := by
  cases u with
  | scalar v => rfl
  | mapping fields => rfl
  | sequence items =>
      obtain ⟨i, hstep, -⟩ := mem_itemSteps.mp h
      cases hstep

theorem Tree.exists_items_of_index_mem {u t : Tree} {i : Nat} (h : (.index i, t) ∈ u.children) :
    ∃ items, u = .sequence items ∧ items[i]? = some t := by
  cases u with
  | scalar v => cases h
  | mapping fields =>
      obtain ⟨k, hstep, -⟩ := mem_fieldSteps.mp h
      cases hstep
  | sequence items =>
      obtain ⟨j, hstep, hj⟩ := mem_itemSteps.mp h
      obtain rfl : i = j := by simpa using hstep
      exact ⟨items, rfl, hj⟩

namespace Writer

open KeyPath

variable {σ : Type}

/-! ## Routes -/

/-- A way down in a tree: the steps, each with the node it leads to. -/
abbrev Route := List (Tree.Step × Tree)

/-- The route leads from the root to the node, from child to child. -/
inductive Leads (root : Tree) : Route → Tree → Prop where
  | here : Leads root [] root
  | down {r : Route} {u t : Tree} {step : Tree.Step} (h : Leads root r u)
      (hmem : (step, t) ∈ u.children) : Leads root (r ++ [(step, t)]) t

/-- The steps of a route. -/
def stepsOn (r : Route) : List Tree.Step :=
  r.map Prod.fst

/-- The field that a step leads to, with its value; an item is no field. -/
def fieldOf? : Tree.Step × Tree → Option (String × Tree)
  | (.key k, t) => some (k, t)
  | (.index _, _) => none

/-- The fields on a route, with their values. -/
def fieldsOn (r : Route) : List (String × Tree) :=
  r.filterMap fieldOf?

theorem stepsOn_append (r : Route) (step : Tree.Step) (t : Tree) :
    stepsOn (r ++ [(step, t)]) = stepsOn r ++ [step] :=
  List.map_append

theorem fieldsOn_append_key (r : Route) (k : String) (t : Tree) :
    fieldsOn (r ++ [(.key k, t)]) = fieldsOn r ++ [(k, t)] :=
  List.filterMap_append

theorem fieldsOn_append_index (r : Route) (i : Nat) (t : Tree) :
    fieldsOn (r ++ [(.index i, t)]) = fieldsOn r := by
  rw [fieldsOn, List.filterMap_append]
  exact List.append_nil _

/-! ## Levels -/

section Levels

variable (w : Walker σ)

/-- Has the field an opening hook? -/
def Walker.indents (f : String × Tree) : Bool :=
  (w.registry.writersOf f.1).indents

/-- Are the items of the field dispatched? -/
def Walker.dispatches (f : String × Tree) : Bool :=
  f.2.isSequence && (w.registry.writersOf f.1).openItem.isSome

/-- The level inside the fields, from a start level on. -/
def Walker.levelIn (start : Nat) (fields : List (String × Tree)) : Nat :=
  start + fields.countP w.indents + fields.countP w.dispatches

theorem Walker.levelIn_append (start : Nat) (fields : List (String × Tree)) (f : String × Tree) :
    w.levelIn start (fields ++ [f])
      = w.levelIn start fields + (w.indents f).toNat + (w.dispatches f).toNat := by
  have hcount : ∀ p : String × Tree → Bool,
      (fields ++ [f]).countP p = fields.countP p + (p f).toNat := by
    intro p
    rw [List.countP_append, List.countP_singleton]
    cases p f <;> rfl
  rw [Walker.levelIn, Walker.levelIn, hcount, hcount]
  omega

end Levels

/-- By how much the items of a node are written above the inside of the node. -/
def lift (owner : Option String) (u : Tree) : Nat :=
  (u.isSequence && owner.isSome).toNat

/-- A walk from level `start` on goes through the node at the end of the route, on the level that
the route makes. Of the field that owns the items, if there is one, the walk has taken note. -/
structure Placed (w : Walker σ) (base : String) (root : Tree) (start : Nat) (all : List Call)
    (r : Route) (u : Tree) (owner : Option String) (level : Nat) : Prop where
  leads : Leads root r u
  level_eq : level + lift owner u = w.levelIn start (fieldsOn r)
  owned : ∀ k, owner = some k → ∃ v, ⟨.field, .entering, v, .ok false⟩ ∈ all ∧ v.key = k ∧
    v.value = u ∧ v.path = base ++ ofSteps (stepsOn r) ∧
    level = v.level + (w.registry.writersOf k).indents.toNat ∧
    (u.isSequence = true → (w.registry.writersOf k).opening.isSome = true)

/-- The call is for a field, on the level that the fields around it make. -/
def Call.AtFieldLevel (w : Walker σ) (base : String) (root : Tree) (start : Nat) (c : Call) :
    Prop :=
  ∃ r u, Leads root r u ∧ (.key c.visit.key, c.visit.value) ∈ u.children ∧
    c.visit.path = base ++ ofSteps (stepsOn r ++ [.key c.visit.key]) ∧
    c.visit.level
      = start + (fieldsOn r).countP w.indents + (fieldsOn r).countP w.dispatches

/-- The call is for an item of a field that the walk has visited, one level deeper than the field
if the field has an opening hook. -/
def Call.AtItemLevel (w : Walker σ) (all : List Call) (c : Call) : Prop :=
  ∃ v items i, ⟨.field, .entering, v, .ok false⟩ ∈ all ∧ v.key = c.visit.key ∧
    v.value = .sequence items ∧ items[i]? = some c.visit.value ∧
    c.visit.path = KeyPath.item v.path i ∧
    (((w.registry.writersOf v.key).opening = some .nothing ∧ c.visit.level = v.level) ∨
      (∃ hook, (w.registry.writersOf v.key).opening = some (.call hook)) ∧
        c.visit.level = v.level + 1)

/-- The hook that opens what the call closes was called for the same visit, if there is one, and
the walk has taken note of a field. -/
def Call.AtOpeningLevel (w : Walker σ) (all : List Call) (c : Call) : Prop :=
  (w.opens c.role c.visit.key → ∃ o ∈ all, o.side = .opening ∧ c.Closes o) ∧
    (c.role = .field → ∃ o ∈ all, o.side = .entering ∧ c.Closes o)

/-- The level of the call follows from the writers. -/
structure Call.Follows (w : Walker σ) (base : String) (root : Tree) (start : Nat)
    (all : List Call) (c : Call) : Prop where
  field : c.role = .field → c.AtFieldLevel w base root start
  item : c.role = .item → c.AtItemLevel w all
  closing : c.side = .closing → c.AtOpeningLevel w all

section Placed

variable {w : Walker σ} {base : String} {root : Tree} {start : Nat} {all os : List Call}
  {r : Route} {u t : Tree} {owner : Option String} {level : Nat} {step : Tree.Step} {role : Role}
  {key : String} {v : Visit}

theorem placed_root (w : Walker σ) (base : String) (root : Tree) (start : Nat)
    (all : List Call) : Placed w base root start all [] root none start where
  leads := .here
  level_eq := by simp [lift, Walker.levelIn, fieldsOn]
  owned := by rintro k ⟨⟩

/-- A step leads to a field, to an item that is dispatched, or to an item that is passed. -/
theorem roleOf?_cases (hrole : roleOf? owner step = some (role, key)) :
    (step = .key key ∧ role = .field) ∨
      ∃ i, step = .index i ∧ role = .item ∧ owner = some key := by
  cases step with
  | key k =>
      obtain ⟨rfl, rfl⟩ := Prod.mk.inj (Option.some.inj hrole)
      exact .inl ⟨rfl, rfl⟩
  | index i =>
      obtain ⟨k, rfl, hk⟩ := Option.map_eq_some_iff.mp hrole
      obtain ⟨rfl, rfl⟩ := Prod.mk.inj hk
      exact .inr ⟨i, rfl, rfl, rfl⟩

theorem Placed.level_of_key (h : Placed w base root start all r u owner level)
    (hmem : (.key key, t) ∈ u.children) : level = w.levelIn start (fieldsOn r) := by
  have hlevel := h.level_eq
  rw [lift, Tree.isSequence_of_key_mem hmem] at hlevel
  exact hlevel

theorem Placed.pass (h : Placed w base root start all r u owner level)
    (hmem : (step, t) ∈ u.children) (hrole : roleOf? owner step = none) :
    Placed w base root start all (r ++ [(step, t)]) t none level := by
  cases step with
  | key k => cases hrole
  | index i =>
      obtain rfl : owner = none := Option.map_eq_none_iff.mp hrole
      refine ⟨h.leads.down hmem, ?_, by rintro k ⟨⟩⟩
      have hlevel := h.level_eq
      rw [fieldsOn_append_index, ← hlevel]
      simp [lift]

/-- A field that is opened is noted, and a sequence is opened only if it has an opening writer. -/
theorem Opened.noted {handled : Bool} {inner : Nat}
    (h : Opened w .field v os (.ok (handled, inner))) :
    ⟨.field, .entering, v, .ok false⟩ ∈ os ∧
      (v.value.isSequence = true → (w.registry.writersOf v.key).opening.isSome = true) := by
  have hentered : (⟨.field, .entering, v, .ok false⟩ : Call) ∈ entered .field v :=
    List.mem_singleton_self _
  cases h with
  | nothing h => exact ⟨hentered, fun _ => by rw [h]; rfl⟩
  | plain h hplain =>
      refine ⟨hentered, fun hsequence => ?_⟩
      rcases hvalue : v.value with _ | _ | _
      all_goals rw [hvalue] at hplain hsequence
      · cases hsequence
      · cases hplain
      · cases hsequence
  | called h =>
      obtain ⟨hook, hhook⟩ := h
      exact ⟨List.mem_append_left _ hentered, fun _ => by rw [hhook]; rfl⟩

/-- Inside a node the walk is on the level that the longer route makes. -/
theorem Placed.inside (h : Placed w base root start all r u owner level)
    (hmem : (step, t) ∈ u.children) (hrole : roleOf? owner step = some (role, key))
    {handled : Bool} {inner : Nat}
    (hopen : Opened w role (visitAt w base key t (stepsOn r ++ [step]) level) os
      (.ok (handled, inner))) (hos : os ⊆ all) :
    Placed w base root start all (r ++ [(step, t)]) t (ownerIn w role key) inner := by
  have hinner := hopen.inner_eq
  rcases roleOf?_cases hrole with ⟨rfl, rfl⟩ | ⟨i, rfl, rfl, rfl⟩
  · -- the field adds one if it has a hook, and its items are lifted if they are dispatched
    rw [innerLevel_field] at hinner
    have hinner' : inner = level + (w.registry.writersOf key).indents.toNat := hinner
    have hlift : lift (ownerIn w .field key) t = (w.dispatches (key, t)).toNat := by
      rw [lift, ownerIn, Walker.dispatches]
      cases (w.registry.writersOf key).openItem.isSome <;> rfl
    obtain ⟨hnoted, hopening⟩ := hopen.noted
    refine ⟨h.leads.down hmem, ?_, fun k hk => ?_⟩
    · calc inner + lift (ownerIn w .field key) t
          = level + (w.indents (key, t)).toNat + (w.dispatches (key, t)).toNat := by
            rw [hinner', hlift]
            rfl
        _ = w.levelIn start (fieldsOn r ++ [(key, t)]) := by
            rw [Walker.levelIn_append, h.level_of_key hmem]
        _ = w.levelIn start (fieldsOn (r ++ [(.key key, t)])) := by
            rw [fieldsOn_append_key]
    · obtain rfl : key = k := by
        rw [ownerIn] at hk
        split at hk
        · exact Option.some.inj hk
        · cases hk
      refine ⟨_, hos hnoted, rfl, rfl, ?_, hinner', hopening⟩
      rw [stepsOn_append]
      rfl
  · -- items of a dispatched sequence have been lifted out of its inside
    obtain ⟨items, rfl, hi⟩ := Tree.exists_items_of_index_mem hmem
    refine ⟨h.leads.down hmem, ?_, by rintro k ⟨⟩⟩
    have hlevel : level + 1 = w.levelIn start (fieldsOn r) := h.level_eq
    have hnone : lift (ownerIn w .item key) t = 0 := by simp [lift, ownerIn]
    rw [fieldsOn_append_index, hnone, hinner, ← hlevel]
    rfl

/-- The visit of a child is on the level of the node, as a field or as an item. -/
theorem Placed.follows (h : Placed w base root start all r u owner level)
    (hmem : (step, t) ∈ u.children) (hrole : roleOf? owner step = some (role, key)) {c : Call}
    (hc : c.role = role) (hvisit : c.visit = visitAt w base key t (stepsOn r ++ [step]) level)
    (hclosing : c.side = .closing → c.AtOpeningLevel w all) :
    c.Follows w base root start all := by
  rcases roleOf?_cases hrole with ⟨rfl, rfl⟩ | ⟨i, rfl, rfl, rfl⟩
  · refine ⟨fun _ => ?_, fun hitem => ?_, hclosing⟩
    · rw [Call.AtFieldLevel, hvisit]
      exact ⟨r, u, h.leads, hmem, rfl, h.level_of_key hmem⟩
    · rw [hc] at hitem
      cases hitem
  · refine ⟨fun hfield => ?_, fun _ => ?_, hclosing⟩
    · rw [hc] at hfield
      cases hfield
    · obtain ⟨items, rfl, hi⟩ := Tree.exists_items_of_index_mem hmem
      obtain ⟨v, hv, rfl, hvalue, hpath, hlevel, hopening⟩ := h.owned _ rfl
      rw [Call.AtItemLevel, hvisit]
      refine ⟨v, items, i, hv, rfl, hvalue, hi, ?_, ?_⟩
      · rw [hpath, item_ofSteps]
        rfl
      · have hsome := hopening rfl
        unfold FieldWriters.indents at hlevel
        rcases hopen : (w.registry.writersOf v.key).opening with _ | _ | hook
        · rw [hopen] at hsome
          cases hsome
        · rw [hopen] at hlevel
          exact .inl ⟨rfl, hlevel⟩
        · rw [hopen] at hlevel
          exact .inr ⟨⟨hook, rfl⟩, hlevel⟩

theorem Placed.follows_opened (h : Placed w base root start all r u owner level)
    (hmem : (step, t) ∈ u.children) (hrole : roleOf? owner step = some (role, key))
    {result : Except Ending (Bool × Nat)}
    (hopen : Opened w role (visitAt w base key t (stepsOn r ++ [step]) level) os result) :
    ∀ c ∈ os, c.Follows w base root start all := by
  intro c hc
  obtain ⟨hcrole, hcside, hcvisit⟩ := hopen.of_mem hc
  exact h.follows hmem hrole hcrole hcvisit fun hclosing => absurd hclosing hcside

/-- A node that is closed has been opened with the same visit. -/
theorem Opened.atOpeningLevel {handled : Bool} {inner : Nat}
    (h : Opened w role v os (.ok (handled, inner))) (hos : os ⊆ all) {c : Call}
    (hc : c.role = role ∧ c.side = .closing ∧ c.visit = v) : c.AtOpeningLevel w all := by
  obtain ⟨hrole, hside, hvisit⟩ := hc
  constructor
  · rw [hrole, hvisit]
    intro hopens
    cases h with
    | nothing h | plain h =>
        obtain ⟨hook, hhook⟩ := hopens
        rw [h] at hhook
        cases hhook
    | called =>
        exact ⟨_, hos (List.mem_append_right _ (List.mem_singleton_self _)), rfl, hside, hrole,
          hvisit⟩
  · intro hfield
    obtain rfl : role = .field := hrole.symm.trans hfield
    exact ⟨_, hos h.noted.1, rfl, hside, hrole, hvisit⟩

end Placed

/-! ## The calls of a walk -/

/-- The level of the node whose children the part goes through. -/
def Part.level : Part → Nat
  | through _ level _ _ => level
  | one _ level _ _ _ => level

theorem ite_nil_subset (handled : Bool) (children : List (Tree.Step × Tree)) :
    (if handled then [] else children) ⊆ children := by
  cases handled with
  | true => exact List.nil_subset _
  | false => exact List.Subset.refl _

/-- **The levels of all calls follow from the writers.** The induction is on what the walk does;
the part that it has come to is placed in the tree. -/
theorem Makes.follows_levels {w : Walker σ} {base : String} {root : Tree} {start : Nat}
    {all : List Call} {p : Part} {cs : List Call} {e : Ending} (h : Makes w base p cs e) :
    ∀ {r : Route} {u : Tree}, Placed w base root start all r u p.owner p.level →
      p.steps = stepsOn r → p.spots ⊆ u.children → cs ⊆ all →
      ∀ c ∈ cs, c.Follows w base root start all := by
  induction h with
  | nil =>
      intro r u hplaced hsteps hspots hcs c hc
      cases hc
  | stop hchild he ih =>
      intro r u hplaced hsteps hspots hcs
      have hspot := (List.cons_subset.mp hspots).1
      exact ih hplaced hsteps (List.cons_subset.mpr ⟨hspot, List.nil_subset _⟩) hcs
  | next hchild hrest ihchild ihrest =>
      intro r u hplaced hsteps hspots hcs
      obtain ⟨hhere, hlater⟩ := List.append_subset.mp hcs
      obtain ⟨hspot, hspots'⟩ := List.cons_subset.mp hspots
      exact List.forall_mem_append.mpr
        ⟨ihchild hplaced hsteps (List.cons_subset.mpr ⟨hspot, List.nil_subset _⟩) hhere,
          ihrest hplaced hsteps hspots' hlater⟩
  | pass hrole hinside ih =>
      intro r u hplaced hsteps hspots hcs
      have hmem := hspots (List.mem_singleton_self _)
      refine ih (hplaced.pass hmem hrole) ?_ (List.Subset.refl _) hcs
      rw [stepsOn_append, ← hsteps]
      rfl
  | refused hrole hopen =>
      intro r u hplaced hsteps hspots hcs
      obtain rfl := hsteps
      exact hplaced.follows_opened (hspots (List.mem_singleton_self _)) hrole hopen
  | broken hrole hopen hinside he ih =>
      intro r u hplaced hsteps hspots hcs
      obtain rfl := hsteps
      obtain ⟨hos, hcs⟩ := List.append_subset.mp hcs
      have hmem := hspots (List.mem_singleton_self _)
      have hhere := hplaced.inside hmem hrole hopen hos
      exact List.forall_mem_append.mpr ⟨hplaced.follows_opened hmem hrole hopen,
        ih hhere (stepsOn_append _ _ _).symm (ite_nil_subset _ _) hcs⟩
  | closed hrole hopen hinside hclose ih =>
      intro r u hplaced hsteps hspots hcs
      obtain rfl := hsteps
      obtain ⟨hcs, hzs⟩ := List.append_subset.mp hcs
      obtain ⟨hos, hcs⟩ := List.append_subset.mp hcs
      have hmem := hspots (List.mem_singleton_self _)
      have hhere := hplaced.inside hmem hrole hopen hos
      refine List.forall_mem_append.mpr ⟨List.forall_mem_append.mpr
        ⟨hplaced.follows_opened hmem hrole hopen,
          ih hhere (stepsOn_append _ _ _).symm (ite_nil_subset _ _) hcs⟩, fun c hc => ?_⟩
      have hclosing := hclose.of_mem hc
      exact hplaced.follows hmem hrole hclosing.1 hclosing.2.2
        fun _ => hopen.atOpeningLevel hos hclosing

/-- Each call of a walk is on the level that the writers give to it. -/
theorem calls_follow_writers (w : Walker σ) (start : Nat) (base : String) (t : Tree) (s : σ) :
    ∀ c ∈ calls w start base t s, c.Follows w base t start (calls w start base t s) := by
  obtain ⟨e, hmakes, -⟩ := exists_makes w base start t s
  exact hmakes.follows_levels (placed_root w base t start _) rfl (List.Subset.refl _)
    (List.Subset.refl _)

end Writer

end SiteConf
