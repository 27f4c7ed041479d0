import SiteConf.Proofs.Calls

set_option autoImplicit false

/-! # Where the calls of a walk are made

Every call that a part of a walk makes is for a node of the tree: its path leads to the value that
the hook gets, its line is the one that the table has for the path, and its key is the name of the
field, or the name of the field that owns the item (`Makes.located`). In a keyed tree no hook is
called twice with one path (`Makes.nodup_slots`). How the hooks have answered says how the walk
has ended (`Makes.follows`). -/

namespace SiteConf.Writer

open KeyPath

variable {σ : Type}

/-! ## Paths below a path -/

/-- The second path is that of a node below the node of the first path. -/
def Below (p q : String) : Prop :=
  ∃ rest : List Tree.Step, rest ≠ [] ∧ q = p ++ ofSteps rest

theorem below_of_isPrefix {base : String} {p q : List Tree.Step} {step : Tree.Step}
    (h : p ++ [step] <+: q) : Below (base ++ ofSteps p) (base ++ ofSteps q) := by
  obtain ⟨rest, rfl⟩ := h
  refine ⟨step :: rest, List.cons_ne_nil _ _, ?_⟩
  have hsplit : ofSteps (p ++ [step] ++ rest) = ofSteps p ++ ofSteps (step :: rest) := by
    rw [List.append_assoc, ofSteps, segments_append, ofSegments_append]
    rfl
  rw [hsplit, String.append_assoc]

theorem Below.ne {p q : String} (h : Below p q) : q ≠ p := by
  obtain ⟨rest, hrest, rfl⟩ := h
  intro heq
  obtain ⟨step, rest, rfl⟩ := List.exists_cons_of_ne_nil hrest
  have hlength := congrArg (fun s : String => s.toList.length) heq
  simp only [String.toList_append, List.length_append, ofSteps, toList_ofSegments, segments,
    List.map_cons, chars_cons, List.length_cons] at hlength
  omega

/-! ## Parts in a tree -/

namespace Part

/-- The steps to the node whose children the part goes through. -/
def steps : Part → List Tree.Step
  | through _ _ steps _ => steps
  | one _ _ steps _ _ => steps

/-- The children that the part goes through. -/
def spots : Part → List (Tree.Step × Tree)
  | through _ _ _ children => children
  | one _ _ _ step t => [(step, t)]

/-- The name under which items are dispatched. -/
def owner : Part → Option String
  | through owner _ _ _ => owner
  | one owner _ _ _ _ => owner

/-- The part goes through children of a node of the tree, in their order. The name of the owner,
if there is one, is the name of the field that the node is. -/
structure In (root : Tree) (p : Part) : Prop where
  node : ∃ node, root.at? p.steps = some node ∧ p.spots.Sublist node.children
  owned : ∀ k, p.owner = some k → ∃ q, p.steps = q ++ [.key k]

/-- The steps lead to a child that the part goes through, or further down. -/
def Covers (p : Part) (steps : List Tree.Step) : Prop :=
  ∃ c ∈ p.spots, p.steps ++ [c.1] <+: steps

end Part

section In

variable {root t : Tree} {owner : Option String} {level : Nat} {steps : List Tree.Step}
  {step : Tree.Step}

theorem Part.In.head {child : Tree.Step × Tree} {rest : List (Tree.Step × Tree)}
    (h : (Part.through owner level steps (child :: rest)).In root) :
    (Part.one owner level steps child.1 child.2).In root := by
  obtain ⟨node, hnode, hsub⟩ := h.node
  have hchild : [child].Sublist (child :: rest) := (List.nil_sublist rest).cons_cons child
  exact ⟨⟨node, hnode, hchild.trans hsub⟩, h.owned⟩

theorem Part.In.tail {child : Tree.Step × Tree} {rest : List (Tree.Step × Tree)}
    (h : (Part.through owner level steps (child :: rest)).In root) :
    (Part.through owner level steps rest).In root := by
  obtain ⟨node, hnode, hsub⟩ := h.node
  exact ⟨⟨node, hnode, (List.sublist_cons_self child rest).trans hsub⟩, h.owned⟩

variable (hroot : root.Keyed) (h : (Part.one owner level steps step t).In root)
include hroot h

theorem Part.In.at?_here : root.at? (steps ++ [step]) = some t := by
  obtain ⟨node, hnode, hsub⟩ := h.node
  have hmem : (step, t) ∈ node.children := hsub.subset List.mem_cons_self
  have hkeys : node.DistinctKeys := (hroot.of_at? hnode).here
  rw [Tree.at?_append, show root.at? steps = some node from hnode, Option.bind_some,
    Tree.at?_cons_of_mem_children hkeys hmem, Tree.at?_nil]

/-- The inside of a node of the tree is in the tree. -/
theorem Part.In.inside {owner' : Option String} {inner : Nat}
    {children : List (Tree.Step × Tree)} (hsub : children.Sublist t.children)
    (howner : ∀ k, owner' = some k → step = .key k) :
    (Part.through owner' inner (steps ++ [step]) children).In root := by
  refine ⟨⟨t, h.at?_here hroot, hsub⟩, fun k hk => ⟨steps, ?_⟩⟩
  rw [← howner k hk]
  rfl

end In

/-! ## Located visits -/

/-- The steps lead to a field with the name, or to an item of such a field. -/
def Role.Names (role : Role) (key : String) (steps : List Tree.Step) : Prop :=
  match role with
  | .field => ∃ q, steps = q ++ [.key key]
  | .item => ∃ q i, steps = q ++ [.key key, .index i]

/-- The visit is for the node of the tree that the steps lead to. -/
structure Located (w : Walker σ) (base : String) (root : Tree) (role : Role) (v : Visit)
    (steps : List Tree.Step) : Prop where
  node : root.at? steps = some v.value
  path : v.path = base ++ ofSteps steps
  line : v.line = w.origins.lineOf v.path
  names : role.Names v.key steps

/-- The visit is for a node that the part covers. -/
def Part.Locates (w : Walker σ) (base : String) (root : Tree) (p : Part) (role : Role)
    (v : Visit) : Prop :=
  ∃ steps, p.Covers steps ∧ Located w base root role v steps

section Located

variable {w : Walker σ} {base : String} {root t : Tree} {owner : Option String} {level : Nat}
  {steps : List Tree.Step} {step : Tree.Step} {role : Role} {key : String} {v : Visit}

/-- In a keyed tree the path of a visit determines its node. -/
theorem Located.steps_eq {role' : Role} {v' : Visit} {steps' : List Tree.Step}
    (hroot : root.Keyed) (h : Located w base root role v steps)
    (h' : Located w base root role' v' steps') (hpath : v.path = v'.path) : steps = steps' := by
  have hsteps : base ++ ofSteps steps = base ++ ofSteps steps' := by
    rw [← h.path, ← h'.path, hpath]
  exact hroot.steps_eq_of_ofSteps_eq h.node h'.node ((String.append_right_inj base).mp hsteps)

theorem Part.Locates.of_head {child : Tree.Step × Tree} {rest : List (Tree.Step × Tree)}
    (h : (Part.one owner level steps child.1 child.2).Locates w base root role v) :
    (Part.through owner level steps (child :: rest)).Locates w base root role v := by
  obtain ⟨steps', ⟨c, hc, hprefix⟩, hlocated⟩ := h
  obtain rfl := List.mem_singleton.mp hc
  exact ⟨steps', ⟨child, List.mem_cons_self, hprefix⟩, hlocated⟩

theorem Part.Locates.of_tail {child : Tree.Step × Tree} {rest : List (Tree.Step × Tree)}
    (h : (Part.through owner level steps rest).Locates w base root role v) :
    (Part.through owner level steps (child :: rest)).Locates w base root role v := by
  obtain ⟨steps', ⟨c, hc, hprefix⟩, hlocated⟩ := h
  exact ⟨steps', ⟨c, List.mem_cons_of_mem _ hc, hprefix⟩, hlocated⟩

/-- What lies inside a child is covered by the child. -/
theorem Part.Locates.outside {owner' : Option String} {inner : Nat}
    {children : List (Tree.Step × Tree)}
    (h : (Part.through owner' inner (steps ++ [step]) children).Locates w base root role v) :
    (Part.one owner level steps step t).Locates w base root role v := by
  obtain ⟨steps', ⟨c, -, hprefix⟩, hlocated⟩ := h
  have hstep : steps ++ [step] <+: steps' := (List.prefix_append _ [c.1]).trans hprefix
  exact ⟨steps', ⟨(step, t), List.mem_cons_self, hstep⟩, hlocated⟩

/-- What lies inside a child is below it. -/
theorem Part.Locates.below {owner' : Option String} {inner : Nat}
    {children : List (Tree.Step × Tree)}
    (h : (Part.through owner' inner steps children).Locates w base root role v) :
    Below (base ++ ofSteps steps) v.path := by
  obtain ⟨steps', ⟨c, -, hprefix⟩, hlocated⟩ := h
  rw [hlocated.path]
  exact below_of_isPrefix hprefix

theorem names_of_roleOf? (hrole : roleOf? owner step = some (role, key))
    (howned : ∀ k, owner = some k → ∃ q, steps = q ++ [.key k]) :
    role.Names key (steps ++ [step]) := by
  cases step with
  | key k =>
      obtain ⟨rfl, rfl⟩ : Role.field = role ∧ k = key := by simpa [roleOf?] using hrole
      exact ⟨steps, rfl⟩
  | index i =>
      obtain ⟨k, rfl, hk⟩ := Option.map_eq_some_iff.mp hrole
      obtain ⟨rfl, rfl⟩ : Role.item = role ∧ k = key := by simpa using hk
      obtain ⟨q, rfl⟩ := howned k rfl
      exact ⟨q, i, by simp⟩

/-- Items are dispatched only in a field, under the name of the field. -/
theorem step_eq_of_ownerIn (hrole : roleOf? owner step = some (role, key)) {k : String}
    (hk : ownerIn w role key = some k) : step = .key k := by
  cases step with
  | key k' =>
      obtain ⟨rfl, rfl⟩ : Role.field = role ∧ k' = key := by simpa [roleOf?] using hrole
      have hkey : k' = k := by
        unfold ownerIn at hk
        split at hk <;> simp_all
      rw [hkey]
  | index i =>
      obtain ⟨k', -, hk'⟩ := Option.map_eq_some_iff.mp hrole
      obtain ⟨rfl, -⟩ : Role.item = role ∧ k' = key := by simpa using hk'
      cases hk

/-- The visit of a child is for the child. -/
theorem Part.In.locates_here (w : Walker σ) (base : String) (hroot : root.Keyed)
    (h : (Part.one owner level steps step t).In root)
    (hrole : roleOf? owner step = some (role, key)) :
    (Part.one owner level steps step t).Locates w base root role
      (visitAt w base key t (steps ++ [step]) level) :=
  ⟨steps ++ [step], ⟨(step, t), List.mem_cons_self, List.prefix_refl _⟩,
    ⟨h.at?_here hroot, rfl, rfl, names_of_roleOf? hrole h.owned⟩⟩

/-- What a child does inside, when it is not handled, is in the tree. -/
theorem Part.In.inside_dispatched (hroot : root.Keyed)
    (h : (Part.one owner level steps step t).In root)
    (hrole : roleOf? owner step = some (role, key)) (handled : Bool) (inner : Nat) :
    (Part.through (ownerIn w role key) inner (steps ++ [step])
      (if handled then [] else t.children)).In root := by
  refine h.inside hroot ?_ fun k hk => step_eq_of_ownerIn hrole hk
  cases handled with
  | true => exact List.nil_sublist _
  | false => exact List.Sublist.refl _

end Located

/-! ## The calls for one node -/

section Node

variable {w : Walker σ} {role : Role} {v : Visit} {os zs : List Call} {c : Call} {e : Ending}

theorem of_mem_entered (hc : c ∈ entered role v) :
    c.role = role ∧ c.side = .entering ∧ c.visit = v ∧ c.answer = .ok false := by
  cases role with
  | field =>
      obtain rfl := List.mem_singleton.mp hc
      exact ⟨rfl, rfl, rfl, rfl⟩
  | item => cases hc

theorem Opened.of_mem {r : Except Ending (Bool × Nat)} (h : Opened w role v os r) (hc : c ∈ os) :
    c.role = role ∧ c.side ≠ .closing ∧ c.visit = v := by
  have hentered : ∀ c ∈ entered role v, c.role = role ∧ c.side ≠ .closing ∧ c.visit = v := by
    intro c hc
    obtain ⟨hrole, hside, hvisit, -⟩ := of_mem_entered hc
    exact ⟨hrole, by simp [hside], hvisit⟩
  cases h with
  | nothing | plain | missing => exact hentered c hc
  | called | failed =>
      rcases List.mem_append.mp hc with hc | hc
      · exact hentered c hc
      · obtain rfl := List.mem_singleton.mp hc
        exact ⟨rfl, by simp, rfl⟩

theorem Closed.of_mem (h : Closed w role v zs e) (hc : c ∈ zs) :
    c.role = role ∧ c.side = .closing ∧ c.visit = v := by
  cases h with
  | nothing => cases hc
  | called | failed =>
      obtain rfl := List.mem_singleton.mp hc
      exact ⟨rfl, rfl, rfl⟩

theorem Opened.node?_eq (h : Opened w role v os (.error e)) : e.node? = some v := by
  cases h with
  | missing | failed => rfl

theorem Closed.eq_of_node? (h : Closed w role v zs e) {u : Visit} (hu : e.node? = some u) :
    u = v := by
  cases h with
  | nothing | called => cases hu
  | failed => exact (Option.some.inj hu).symm

theorem Opened.nodup_slots {r : Except Ending (Bool × Nat)} (h : Opened w role v os r) :
    (os.map Call.slot).Nodup := by
  have hentered : ((entered role v).map Call.slot).Nodup := by
    cases role with
    | field => exact List.nodup_singleton _
    | item => exact List.nodup_nil
  cases h with
  | nothing | plain | missing => exact hentered
  | called | failed =>
      rw [List.map_append]
      refine List.nodup_append.mpr ⟨hentered, List.nodup_singleton _, ?_⟩
      refine List.forall_mem_map.mpr fun c hc => List.forall_mem_singleton.mpr fun hslot => ?_
      have hside : c.side = .opening := congrArg (fun s => s.2.1) hslot
      rw [(of_mem_entered hc).2.1] at hside
      cases hside

theorem Closed.nodup_slots (h : Closed w role v zs e) : (zs.map Call.slot).Nodup := by
  cases h with
  | nothing => exact List.nodup_nil
  | called | failed => exact List.nodup_singleton _

end Node

theorem slot_ne_of_below {c d : Call} (h : Below c.visit.path d.visit.path) :
    c.slot ≠ d.slot := by
  intro hslot
  have hpath : d.visit.path = c.visit.path := congrArg (fun s => s.2.2) hslot.symm
  exact h.ne hpath

/-! ## The calls of a part -/

section Part

variable {w : Walker σ} {base : String} {root : Tree} {p : Part} {cs : List Call} {e : Ending}

/-- **Every call is for a node of the part**, and so is the failure. -/
theorem Makes.located (h : Makes w base p cs e) (hroot : root.Keyed) (hp : p.In root) :
    (∀ c ∈ cs, p.Locates w base root c.role c.visit) ∧
      ∀ v, e.node? = some v → ∃ role, p.Locates w base root role v := by
  induction h with
  | nil =>
      refine ⟨fun _ hc => ?_, fun _ hv => ?_⟩
      · cases hc
      · cases hv
  | stop _ _ ih =>
      obtain ⟨hcalls, hfail⟩ := ih hp.head
      refine ⟨fun c hc => (hcalls c hc).of_head, fun v hv => ?_⟩
      obtain ⟨role, hv⟩ := hfail v hv
      exact ⟨role, hv.of_head⟩
  | next _ _ ihchild ihrest =>
      obtain ⟨hchild, -⟩ := ihchild hp.head
      obtain ⟨hrest, hfail⟩ := ihrest hp.tail
      refine ⟨fun c hc => ?_, fun v hv => ?_⟩
      · rcases List.mem_append.mp hc with hc | hc
        · exact (hchild c hc).of_head
        · exact (hrest c hc).of_tail
      · obtain ⟨role, hv⟩ := hfail v hv
        exact ⟨role, hv.of_tail⟩
  | pass _ _ ih =>
      obtain ⟨hcalls, hfail⟩ :=
        ih (hp.inside hroot (List.Sublist.refl _) fun k hk => nomatch hk)
      refine ⟨fun c hc => (hcalls c hc).outside, fun v hv => ?_⟩
      obtain ⟨role, hv⟩ := hfail v hv
      exact ⟨role, hv.outside⟩
  | refused hrole hopen =>
      have hhere := hp.locates_here w base hroot hrole
      refine ⟨fun c hc => ?_, fun v hv => ?_⟩
      · obtain ⟨hrole', -, hvisit⟩ := hopen.of_mem hc
        rw [hrole', hvisit]
        exact hhere
      · rw [hopen.node?_eq] at hv
        exact ⟨_, Option.some.inj hv ▸ hhere⟩
  | broken hrole hopen _ _ ih =>
      have hhere := hp.locates_here w base hroot hrole
      obtain ⟨hcalls, hfail⟩ := ih (hp.inside_dispatched hroot hrole _ _)
      refine ⟨fun c hc => ?_, fun v hv => ?_⟩
      · rcases List.mem_append.mp hc with hc | hc
        · obtain ⟨hrole', -, hvisit⟩ := hopen.of_mem hc
          rw [hrole', hvisit]
          exact hhere
        · exact (hcalls c hc).outside
      · obtain ⟨role, hv⟩ := hfail v hv
        exact ⟨role, hv.outside⟩
  | closed hrole hopen _ hclose ih =>
      have hhere := hp.locates_here w base hroot hrole
      obtain ⟨hcalls, -⟩ := ih (hp.inside_dispatched hroot hrole _ _)
      refine ⟨fun c hc => ?_, fun v hv => ?_⟩
      · rcases List.mem_append.mp hc with hc | hc
        · rcases List.mem_append.mp hc with hc | hc
          · obtain ⟨hrole', -, hvisit⟩ := hopen.of_mem hc
            rw [hrole', hvisit]
            exact hhere
          · exact (hcalls c hc).outside
        · obtain ⟨hrole', -, hvisit⟩ := hclose.of_mem hc
          rw [hrole', hvisit]
          exact hhere
      · rw [hclose.eq_of_node? hv]
        exact ⟨_, hhere⟩

/-- **No hook is called twice with one path.** -/
theorem Makes.nodup_slots (h : Makes w base p cs e) (hroot : root.Keyed) (hp : p.In root) :
    (cs.map Call.slot).Nodup := by
  induction h with
  | nil => exact List.nodup_nil
  | stop _ _ ih => exact ih hp.head
  | @next owner level steps child rest cs cs' e hchild hrest ihchild ihrest =>
      rw [List.map_append]
      refine List.nodup_append.mpr ⟨ihchild hp.head, ihrest hp.tail, ?_⟩
      refine List.forall_mem_map.mpr fun c hc => List.forall_mem_map.mpr fun d hd hslot => ?_
      -- the two calls are for one node, which then lies below two children with one segment
      have hpath : c.visit.path = d.visit.path := congrArg (fun s => s.2.2) hslot
      obtain ⟨p₁, ⟨x, hx, hbelow₁⟩, hlocated₁⟩ := (hchild.located hroot hp.head).1 c hc
      obtain ⟨p₂, ⟨y, hy, hbelow₂⟩, hlocated₂⟩ := (hrest.located hroot hp.tail).1 d hd
      obtain rfl := hlocated₁.steps_eq hroot hlocated₂ hpath
      obtain rfl := List.mem_singleton.mp hx
      have hstep : child.1 = y.1 := eq_of_isPrefix_append_singleton hbelow₁ hbelow₂
      obtain ⟨node, hnode, hsub⟩ := hp.node
      have hkeys : node.DistinctKeys := (hroot.of_at? hnode).here
      have hnodup := (Tree.nodup_segments_children hkeys).sublist (hsub.map _)
      rw [show (Part.through owner level steps (child :: rest)).spots = child :: rest from rfl,
        List.map_cons, List.nodup_cons] at hnodup
      exact hnodup.1 (List.mem_map.mpr ⟨y, hy, by rw [hstep]⟩)
  | pass _ _ ih => exact ih (hp.inside hroot (List.Sublist.refl _) fun k hk => nomatch hk)
  | refused _ hopen => exact hopen.nodup_slots
  | broken hrole hopen hinside _ ih =>
      have hcalls := (hinside.located hroot (hp.inside_dispatched hroot hrole _ _)).1
      rw [List.map_append]
      refine List.nodup_append.mpr
        ⟨hopen.nodup_slots, ih (hp.inside_dispatched hroot hrole _ _), ?_⟩
      refine List.forall_mem_map.mpr fun c hc => List.forall_mem_map.mpr fun d hd => ?_
      obtain ⟨-, -, hvisit⟩ := hopen.of_mem hc
      exact slot_ne_of_below (hvisit ▸ (hcalls d hd).below)
  | closed hrole hopen hinside hclose ih =>
      have hcalls := (hinside.located hroot (hp.inside_dispatched hroot hrole _ _)).1
      rw [List.map_append, List.map_append]
      refine List.nodup_append.mpr ⟨List.nodup_append.mpr
        ⟨hopen.nodup_slots, ih (hp.inside_dispatched hroot hrole _ _), ?_⟩,
        hclose.nodup_slots, ?_⟩
      · refine List.forall_mem_map.mpr fun c hc => List.forall_mem_map.mpr fun d hd => ?_
        obtain ⟨-, -, hvisit⟩ := hopen.of_mem hc
        exact slot_ne_of_below (hvisit ▸ (hcalls d hd).below)
      · rw [← List.map_append]
        refine List.forall_mem_map.mpr fun c hc => List.forall_mem_map.mpr fun d hd => ?_
        obtain ⟨-, hside, hvisit⟩ := hclose.of_mem hd
        rcases List.mem_append.mp hc with hc | hc
        · -- what opens the node is not what closes it
          obtain ⟨-, hside', -⟩ := hopen.of_mem hc
          intro hslot
          have hsides : c.side = d.side := congrArg (fun s => s.2.1) hslot
          exact hside' (hsides.trans hside)
        · exact (slot_ne_of_below (hvisit ▸ (hcalls c hc).below)).symm

end Part

/-! ## Answers -/

/-- The hook has not failed. -/
def Call.Succeeds (c : Call) : Prop :=
  ∃ handled, c.answer = .ok handled

/-- The ending is the one that follows from the calls and their answers: all hooks succeed; or they
do and the walk comes to a field that needs a writer and has none; or the last call fails. -/
def Ending.Follows (w : Walker σ) (cs : List Call) : Ending → Prop
  | .done => ∀ c ∈ cs, c.Succeeds
  | .missing v => (∀ c ∈ cs, c.Succeeds) ∧ (w.registry.writersOf v.key).opening = none ∧
      v.value.isPlain = false
  | .raised v e => ∃ before c, cs = before ++ [c] ∧ (∀ x ∈ before, x.Succeeds) ∧ c.visit = v ∧
      c.answer = .error e

section Answers

variable {w : Walker σ} {base : String} {p : Part} {cs cs' os zs : List Call} {e : Ending}
  {role : Role} {v : Visit}

theorem Ending.Follows.append (hcs : ∀ c ∈ cs, c.Succeeds) (h : e.Follows w cs') :
    e.Follows w (cs ++ cs') := by
  cases e with
  | done => exact List.forall_mem_append.mpr ⟨hcs, h⟩
  | missing v => exact ⟨List.forall_mem_append.mpr ⟨hcs, h.1⟩, h.2⟩
  | raised v e =>
      obtain ⟨before, c, rfl, hbefore, hlast⟩ := h
      exact ⟨cs ++ before, c, (List.append_assoc ..).symm,
        List.forall_mem_append.mpr ⟨hcs, hbefore⟩, hlast⟩

theorem succeeds_entered (role : Role) (v : Visit) : ∀ c ∈ entered role v, c.Succeeds :=
  fun _ hc => ⟨false, (of_mem_entered hc).2.2.2⟩

theorem Opened.succeeds {a : Bool × Nat} (h : Opened w role v os (.ok a)) :
    ∀ c ∈ os, c.Succeeds := by
  cases h with
  | nothing | plain => exact succeeds_entered _ v
  | called _ handled =>
      exact List.forall_mem_append.mpr
        ⟨succeeds_entered role v, List.forall_mem_singleton.mpr ⟨handled, rfl⟩⟩

theorem Opened.follows (h : Opened w role v os (.error e)) : e.Follows w os := by
  cases h with
  | missing hopening hplain => exact ⟨succeeds_entered _ v, hopening, hplain⟩
  | failed _ err => exact ⟨entered role v, _, rfl, succeeds_entered role v, rfl, rfl⟩

theorem Closed.follows (h : Closed w role v zs e) : e.Follows w zs := by
  cases h with
  | nothing => exact List.forall_mem_nil _
  | called => exact List.forall_mem_singleton.mpr ⟨true, rfl⟩
  | failed _ err => exact ⟨[], _, rfl, List.forall_mem_nil _, rfl, rfl⟩

theorem Makes.follows (h : Makes w base p cs e) : e.Follows w cs := by
  induction h with
  | nil => exact List.forall_mem_nil _
  | stop _ _ ih => exact ih
  | next _ _ ihchild ihrest => exact ihrest.append ihchild
  | pass _ _ ih => exact ih
  | refused _ hopen => exact hopen.follows
  | broken _ hopen _ _ ih => exact ih.append hopen.succeeds
  | closed _ hopen _ hclose ih =>
      exact hclose.follows.append (List.forall_mem_append.mpr ⟨hopen.succeeds, ih⟩)

end Answers

/-- What is reported when a hook fails for a node. An error that names the node of a writer is kept;
any other error, also one about a missing writer, is wrapped with the node. -/
inductive ReportedFor (v : Visit) : Error → Error → Prop where
  | kept (path : String) (line : LineRef) (message : String) :
      ReportedFor v (.writerFailed path line message) (.writerFailed path line message)
  | wrapped {e : Error} (h : ∀ path line message, e ≠ .writerFailed path line message) :
      ReportedFor v e (.writerFailed v.path v.line e.message)

theorem reportedFor_located (v : Visit) (e : Error) : ReportedFor v e (located v e) := by
  cases e with
  | writerFailed path line message => exact .kept path line message
  | _ =>
      refine .wrapped fun path line message h => ?_
      cases h

end SiteConf.Writer
