import SiteConf.Proofs.Visits

set_option autoImplicit false

/-! # Hook calls nest like the tree

What a hook has opened is closed again, and between the two calls hooks are called for nodes below
only. A walk that fails leaves open what lies on the way to the node at which it fails, and nothing
else (`walkTree_calls_nest`). -/

namespace SiteConf.Writer

open KeyPath

variable {σ : Type}

/-! ## Nested calls -/

/-- What the call has opened is closed by one of the calls that follow, and only calls for nodes
below come before that. -/
def Call.ClosedIn (c : Call) (after : List Call) : Prop :=
  ∃ inner d rest, after = inner ++ d :: rest ∧ d.Closes c ∧
    ∀ x ∈ inner, Below c.visit.path x.visit.path

/-- What the call has opened is closed in that way, and no other call that follows is one of the
hook that closes it. -/
def Call.ClosedOnceIn (c : Call) (after : List Call) : Prop :=
  ∃ inner d rest, after = inner ++ d :: rest ∧ d.Closes c ∧
    (∀ x ∈ inner, Below c.visit.path x.visit.path) ∧ ∀ x ∈ inner ++ rest, x.slot ≠ d.slot

/-- What the call has opened is still open at the node: all calls that follow are for nodes below,
and the node is the one of the call or lies below it. -/
def Call.OpenAt (c : Call) (after : List Call) (v : Visit) : Prop :=
  (∀ x ∈ after, Below c.visit.path x.visit.path) ∧
    (v.path = c.visit.path ∨ Below c.visit.path v.path)

/-- The calls nest: each node that is opened and has a hook that closes it is closed, or it is
open where the calls end. -/
def Nested (w : Walker σ) (e : Ending) : List Call → Prop
  | [] => True
  | c :: after =>
      (c.side = .opening → w.closes c.role c.visit.key →
        c.ClosedIn after ∨ ∃ v, e.node? = some v ∧ c.OpenAt after v) ∧ Nested w e after

section Nested

variable {w : Walker σ} {base : String} {root : Tree} {p : Part} {cs cs' : List Call}
  {e : Ending} {c : Call}

theorem Call.ClosedIn.append (h : c.ClosedIn cs) (cs' : List Call) : c.ClosedIn (cs ++ cs') := by
  obtain ⟨inner, d, rest, rfl, hcloses, hinner⟩ := h
  exact ⟨inner, d, rest ++ cs', by simp, hcloses, hinner⟩

theorem Call.ClosedIn.once (h : c.ClosedIn cs) (hcs : (cs.map Call.slot).Nodup) :
    c.ClosedOnceIn cs := by
  obtain ⟨inner, d, rest, rfl, hcloses, hinner⟩ := h
  refine ⟨inner, d, rest, rfl, hcloses, hinner, fun x hx hslot => ?_⟩
  -- the other calls, with this one in front
  have hperm : ((d :: (inner ++ rest)).map Call.slot).Nodup :=
    (List.perm_middle.map Call.slot).nodup_iff.mp hcs
  rw [List.map_cons, List.nodup_cons] at hperm
  exact hperm.1 (List.mem_map.mpr ⟨x, hx, hslot⟩)

/-- Calls that go through are followed by others. -/
theorem Nested.append (h : Nested w .done cs) (h' : Nested w e cs') : Nested w e (cs ++ cs') := by
  induction cs with
  | nil => exact h'
  | cons c cs ih =>
      refine ⟨fun hside hcloses => ?_, ih h.2⟩
      rcases h.1 hside hcloses with hclosed | ⟨v, hv, -⟩
      · exact .inl (hclosed.append cs')
      · cases hv

theorem nested_of_forall_ne (hcs : ∀ c ∈ cs, c.side ≠ .opening) : Nested w e cs := by
  induction cs with
  | nil => trivial
  | cons c cs ih =>
      refine ⟨fun hside => ?_, ih fun x hx => hcs x (List.mem_cons_of_mem _ hx)⟩
      exact absurd hside (hcs c List.mem_cons_self)

theorem nested_entered (role : Role) (v : Visit) : Nested w e (entered role v) :=
  nested_of_forall_ne fun c hc => by simp [(of_mem_entered hc).2.1]

/-- Each call finds what follows it. -/
theorem Nested.of_split (h : Nested w e cs) {before after : List Call}
    (hcs : cs = before ++ c :: after) (hside : c.side = .opening)
    (hcloses : w.closes c.role c.visit.key) :
    c.ClosedIn after ∨ ∃ v, e.node? = some v ∧ c.OpenAt after v := by
  subst hcs
  induction before with
  | nil => exact h.1 hside hcloses
  | cons x before ih => exact ih h.2

end Nested

/-! ## One node -/

section Node

variable {w : Walker σ} {role : Role} {v : Visit} {os cs zs : List Call} {e : Ending}

/-- A node that cannot be opened is where the walk fails. -/
theorem Opened.nested (h : Opened w role v os (.error e)) : Nested w e os := by
  cases h with
  | missing => exact nested_entered _ v
  | failed _ err =>
      refine (nested_entered role v).append ⟨fun _ _ => .inr ⟨v, rfl, ?_, .inl rfl⟩, trivial⟩
      exact List.forall_mem_nil _

/-- A node whose inside fails stays open. -/
theorem Opened.nested_broken {a : Bool × Nat} (h : Opened w role v os (.ok a))
    (hbelow : ∀ x ∈ cs, Below v.path x.visit.path) (hfail : ∃ u, e.node? = some u ∧
      Below v.path u.path) (hcs : Nested w e cs) : Nested w e (os ++ cs) := by
  cases h with
  | nothing | plain => exact (nested_entered _ v).append hcs
  | called _ handled =>
      obtain ⟨u, hu, hbelow'⟩ := hfail
      rw [List.append_assoc]
      refine (nested_entered role v).append ?_
      exact ⟨fun _ _ => .inr ⟨u, hu, hbelow, .inr hbelow'⟩, hcs⟩

/-- A node whose inside goes through is closed. -/
theorem Opened.nested_closed {a : Bool × Nat} (h : Opened w role v os (.ok a))
    (hbelow : ∀ x ∈ cs, Below v.path x.visit.path) (hcs : Nested w .done cs)
    (hclose : Closed w role v zs e) : Nested w e (os ++ cs ++ zs) := by
  have hzs : Nested w e (cs ++ zs) :=
    hcs.append (nested_of_forall_ne fun c hc => by simp [(hclose.of_mem hc).2.1])
  rw [List.append_assoc]
  cases h with
  | nothing | plain => exact (nested_entered _ v).append hzs
  | called _ handled =>
      rw [List.append_assoc]
      refine (nested_entered role v).append ⟨fun _ hcloses => .inl ?_, hzs⟩
      cases hclose with
      | nothing hnone => exact absurd hcloses hnone
      | called | failed => exact ⟨cs, _, [], rfl, ⟨rfl, rfl, rfl⟩, hbelow⟩

end Node

/-! ## The whole walk -/

/-- **The calls of a part nest.** -/
theorem Makes.nested {w : Walker σ} {base : String} {root : Tree} {p : Part} {cs : List Call}
    {e : Ending} (h : Makes w base p cs e) (hroot : root.Keyed) (hp : p.In root) :
    Nested w e cs := by
  induction h with
  | nil => trivial
  | stop _ _ ih => exact ih hp.head
  | next _ _ ihchild ihrest => exact (ihchild hp.head).append (ihrest hp.tail)
  | pass _ _ ih => exact ih (hp.inside hroot (List.Sublist.refl _) fun k hk => nomatch hk)
  | refused _ hopen => exact hopen.nested
  | broken hrole hopen hinside he ih =>
      obtain ⟨hcalls, hfail⟩ := hinside.located hroot (hp.inside_dispatched hroot hrole _ _)
      obtain ⟨u, hu⟩ := Ending.exists_node?_of_ne_done he
      obtain ⟨role, hlocates⟩ := hfail u hu
      exact hopen.nested_broken (fun x hx => (hcalls x hx).below) ⟨u, hu, hlocates.below⟩
        (ih (hp.inside_dispatched hroot hrole _ _))
  | closed hrole hopen hinside hclose ih =>
      obtain ⟨hcalls, -⟩ := hinside.located hroot (hp.inside_dispatched hroot hrole _ _)
      exact hopen.nested_closed (fun x hx => (hcalls x hx).below)
        (ih (hp.inside_dispatched hroot hrole _ _)) hclose

/-- The children of the root are in the tree. -/
theorem Part.in_root (t : Tree) (level : Nat) : (Part.through none level [] t.children).In t :=
  ⟨⟨t, Tree.at?_nil t, List.Sublist.refl _⟩, fun _ hk => nomatch hk⟩

/-- **Hook calls nest like the tree.** The calls, among which are the notes taken of fields, are
those of the walk, which watching does not change. In a walk that goes through, every call that
opens a field or an item is followed by one call of the hook that closes it, if there is one, for
the same visit, and the calls between the two are for nodes below. In a walk that fails, this holds
of every node that is not the node of the failure or above it; what is still open there has calls
for nodes below only. -/
theorem walkTree_calls_nest (w : Walker σ) (level : Nat) (base : String) {t : Tree}
    (ht : t.Keyed) (s : σ) :
    Step.run (walkTree w.watched level base t) (s, [])
        = ((Step.run (walkTree w level base t) s).1, (Step.run (walkTree w level base t) s).2,
            calls w level base t s) ∧
      ((Step.run (walkTree w level base t) s).1 = .ok () →
        ∀ before c after, calls w level base t s = before ++ c :: after → c.side = .opening →
          w.closes c.role c.visit.key → c.ClosedOnceIn after) ∧
      ∀ err, (Step.run (walkTree w level base t) s).1 = .error err →
        ∃ (e : Ending) (v : Visit), e.result = .error err ∧ e.node? = some v ∧
          e.Follows w (calls w level base t s) ∧ (∃ role steps, Located w base t role v steps) ∧
          ∀ before c after, calls w level base t s = before ++ c :: after → c.side = .opening →
            w.closes c.role c.visit.key → c.ClosedOnceIn after ∨ c.OpenAt after v := by
  obtain ⟨e, hmakes, hresult, hwatched⟩ := exists_makes w base level t s
  have hin := Part.in_root t level
  have hnested := hmakes.nested ht hin
  have hnodup := hmakes.nodup_slots ht hin
  have honce : ∀ {before c after}, calls w level base t s = before ++ c :: after →
      c.ClosedIn after → c.ClosedOnceIn after := by
    intro before c after hcs hclosed
    rw [hcs, List.map_append, List.map_cons] at hnodup
    exact hclosed.once (List.nodup_cons.mp (List.nodup_append.mp hnodup).2.1).2
  refine ⟨hwatched, fun hok before c after hcs hside hcloses => ?_, fun err herr => ?_⟩
  · rw [← hresult] at hok
    obtain rfl := Ending.eq_done_of_result hok
    rcases hnested.of_split hcs hside hcloses with hclosed | ⟨v, hv, -⟩
    · exact honce hcs hclosed
    · cases hv
  · rw [← hresult] at herr
    obtain ⟨v, hv⟩ := Ending.exists_node?_of_ne_done (Ending.ne_done_of_result herr)
    obtain ⟨role, steps, -, hlocated⟩ := (hmakes.located ht hin).2 v hv
    refine ⟨e, v, herr, hv, hmakes.follows, ⟨role, steps, hlocated⟩, ?_⟩
    intro before c after hcs hside hcloses
    rcases hnested.of_split hcs hside hcloses with hclosed | ⟨u, hu, hopen⟩
    · exact .inl (honce hcs hclosed)
    · rw [hv] at hu
      obtain rfl := Option.some.inj hu
      exact .inr hopen

/-- A walk with writers for the field `server` and its items. -/
def serverWalker : Walker Unit where
  registry := [("server", ⟨some (.call fun _ => pure false), some fun _ => pure false,
    some fun _ => pure (), some fun _ => pure ()⟩)]
  origins := ⟨[]⟩
  note _ s := s

/-- A server with two items; only the second one needs a writer that is missing. -/
def serverTree : Tree :=
  .mapping [("server", .sequence [.mapping [("port", .scalar (.int 80))],
    .mapping [("tls", .scalar (.bool true))]])]

/-- The first item is closed before the walk fails in the second one; the field stays open. -/
theorem walkTree_calls_nest_serverTree :
    serverTree.Keyed ∧
      (calls serverWalker 0 KeyPath.root serverTree ()).map Call.slot
        = [(.field, .entering, ".server"), (.field, .opening, ".server"),
            (.item, .opening, ".server.0"), (.field, .entering, ".server.0.port"),
            (.item, .closing, ".server.0"), (.item, .opening, ".server.1"),
            (.field, .entering, ".server.1.tls")] ∧
      ∃ b c after v, calls serverWalker 0 KeyPath.root serverTree () = b :: c :: after ∧
        (c.ClosedOnceIn after ∨ c.OpenAt after v) := by
  have hkeyed : serverTree.Keyed := by
    simp [serverTree, Tree.DistinctKeys, Ordered.keys, Dotless]
  have herror : (Step.run (walkTree serverWalker 0 KeyPath.root serverTree) ()).1
      = .error (.noWriter ".server.1.tls" none) := by cbv
  obtain ⟨-, -, hfails⟩ := walkTree_calls_nest serverWalker 0 KeyPath.root hkeyed ()
  obtain ⟨-, v, -, -, -, -, hnested⟩ := hfails _ herror
  exact ⟨hkeyed, by cbv, _, _, _, v, rfl, hnested [_] _ _ rfl rfl rfl⟩

end SiteConf.Writer
