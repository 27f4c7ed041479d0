import SiteConf.Literal.Resolve
import SiteConf.Proofs.Meaning
import SiteConf.Proofs.Origins
import SiteConf.Proofs.Step

set_option autoImplicit false

/-! # Runs of the resolver

The resolver visits the nodes of a literal in document order. `Visited` says what its scope knows
after some of them: the table of lines is the list of the nodes with their paths and lines, and
the table of constants has exactly the paths of the scalar nodes. `Walked` says how a part of
the visit ends: either all its nodes were blameless and are now visited, or it fails with the
error of the first offence among them. Walks compose like the computations they are about, so
the statement about a whole literal (`visit_walked`) follows its recursion. -/

namespace SiteConf.Literal

open KeyPath

/-! ## Negations -/

theorem evaluate_negate_of_badOperand? : ∀ (operand : Literal) {line : Nat} {e : Error},
    operand.badOperand? line = some e → evaluate (.negate line operand) = .error e
  | .mapping l entries, line, e, h => by
      cases h
      rfl
  | .sequence l items, line, e, h => by
      cases h
      rfl
  | .constant l value, line, e, h => by
      cases value with
      | int n =>
          rw [badOperand?] at h
          by_cases hn : n = Number.minInt
          · rw [if_pos hn] at h
            cases h
            rw [hn]
            rfl
          · rw [if_neg hn] at h
            cases h
      | str s => cases h; rfl
      | bool b => cases h; rfl
  | .negate l operand, line, e, h => by
      rw [badOperand?] at h
      rw [evaluate, evaluate_negate_of_badOperand? operand h]
  | .reference l segments, line, e, h => by
      cases h
      rfl

/-- Negations stay in range when the integer at the end of the chain is not the smallest one: what
is left of the range is symmetric around zero. -/
theorem evaluate_of_core : ∀ (l : Literal) {line : Nat} {n : Int}, Everywhere Lexical l →
    l.core = .constant line (.int n) → n ≠ Number.minInt →
    ∃ k, l.integer? = some k ∧ evaluate l = .ok (.int k) ∧ -Number.maxInt ≤ k ∧ k ≤ Number.maxInt
  | .mapping l entries, line, n, hl, h, hn => by cases h
  | .sequence l items, line, n, hl, h, hn => by cases h
  | .constant l value, line, n, hl, h, hn => by
      cases h
      rw [Everywhere] at hl
      obtain ⟨hlo, hhi⟩ := Number.fits_iff.mp hl
      refine ⟨n, rfl, rfl, ?_, hhi⟩
      rw [Number.minInt] at hlo hn
      rw [Number.maxInt]
      omega
  | .negate l operand, line, n, hl, h, hn => by
      rw [core] at h
      rw [Everywhere] at hl
      obtain ⟨k, hk, heval, hlo, hhi⟩ := evaluate_of_core operand hl.2 h hn
      have hfits : Number.fits (-k) = true := by
        rw [Number.maxInt] at hlo hhi
        rw [Number.fits_iff, Number.minInt, Number.maxInt]
        omega
      refine ⟨-k, by rw [integer?, hk, Option.map_some], ?_, by omega, by omega⟩
      rw [evaluate, heval]
      simp only [hfits, if_true]
  | .reference l segments, line, n, hl, h, hn => by cases h

/-! ## What the scope knows -/

def Scope.Holds (s : Scope) (path : String) (v : Scalar) : Prop :=
  Ordered.get? path s.constants = some v

/-- All scalars of the first scope are in the second. -/
def Scope.Extends (s s' : Scope) : Prop :=
  ∀ path v, s.Holds path v → s'.Holds path v

theorem Scope.Extends.refl (s : Scope) : s.Extends s :=
  fun _ _ h => h

theorem Scope.Extends.trans {s s' s'' : Scope} (h : s.Extends s') (h' : s'.Extends s'') :
    s.Extends s'' :=
  fun path v hv => h' path v (h path v hv)

/-- The scope has the scalar for a node, and it is what the literal of the node denotes. -/
def Known (s : Scope) (steps : List Tree.Step) (l : Literal) (v : Scalar) : Prop :=
  s.Holds (ofSteps steps) v ∧ Denotes s.Holds l v

theorem Known.mono {s s' : Scope} (h : s.Extends s') {steps : List Tree.Step} {l : Literal}
    {v : Scalar} (hk : Known s steps l v) : Known s' steps l v :=
  ⟨h _ _ hk.1, hk.2.imp h⟩

/-- The nodes are in the table of lines, in their order, and none of them repeats a key. -/
structure Tabled (before : List Placed) (s : Scope) : Prop where
  entries : s.origins.entries = before.map fun n => (n.path, n.line)
  nodup : (before.map Placed.path).Nodup
  first_eq_none : ∀ n ∈ before, n.first = none

section Tabled

variable {before : List Placed} {s : Scope} {n : Placed}

theorem Tabled.lineOf (h : Tabled before s) (hn : n ∈ before) :
    s.origins.lineOf n.path = some n.line := by
  rw [Origins.lineOf, h.entries]
  refine Ordered.get?_of_mem ?_ (List.mem_map.mpr ⟨n, hn, rfl⟩)
  rw [Ordered.keys, List.map_map]
  exact h.nodup

theorem Tabled.path_not_mem (h : Tabled before s) (hn : Announced Placed.path before n)
    (hfirst : n.first = none) : n.path ∉ before.map Placed.path := by
  intro hmem
  obtain ⟨m, hm, hpath⟩ := List.mem_map.mp hmem
  exact hn.fresh hfirst h.first_eq_none m hm hpath

/-- A node with a new path goes to the end of the table of lines. -/
theorem Tabled.append (h : Tabled before s) (hn : Announced Placed.path before n)
    (hfirst : n.first = none) {s' : Scope} (hs' : s'.origins = s.origins.record n.path n.line) :
    Tabled (before ++ [n]) s' where
  entries := by
    have hkeys : Ordered.keys s.origins.entries = before.map Placed.path := by
      rw [h.entries, Ordered.keys, List.map_map]
      rfl
    rw [hs', Origins.record, Ordered.insert_of_not_mem, h.entries, List.map_append]
    · rfl
    · rw [hkeys]
      exact h.path_not_mem hn hfirst
  nodup := by
    rw [List.map_append, List.map_singleton]
    refine List.Nodup.append h.nodup (List.nodup_singleton _) ?_
    intro path hpath hn'
    rw [List.mem_singleton.mp hn'] at hpath
    exact h.path_not_mem hn hfirst hpath
  first_eq_none :=
    List.forall_mem_append.mpr ⟨h.first_eq_none, List.forall_mem_singleton.mpr hfirst⟩

end Tabled

/-- The nodes have been visited, and none of them repeats a key. -/
structure Visited (before : List Placed) (s : Scope) : Prop where
  entries : s.origins.entries = before.map fun n => (n.path, n.line)
  nodup : (before.map Placed.path).Nodup
  first_eq_none : ∀ n ∈ before, n.first = none
  inScope : ∀ path v, s.Holds path v → InScope before path
  leadsTo : ∀ n ∈ before, n.literal.isScalar = true → ∃ v, s.Holds n.path v ∧ LeadsTo before n v

theorem Visited.tabled {before : List Placed} {s : Scope} (h : Visited before s) :
    Tabled before s :=
  ⟨h.entries, h.nodup, h.first_eq_none⟩

theorem visited_nil : Visited [] {} where
  entries := rfl
  nodup := List.nodup_nil
  first_eq_none := fun _ hn => nomatch hn
  inScope := fun _ _ h => nomatch h
  leadsTo := fun _ hn => nomatch hn

theorem Visited.inScope_iff {before : List Placed} {s : Scope} (h : Visited before s)
    {path : String} : InScope before path ↔ ∃ v, s.Holds path v := by
  constructor
  · rintro ⟨m, hm, hscalar, rfl⟩
    obtain ⟨v, hv, -⟩ := h.leadsTo m hm hscalar
    exact ⟨v, hv⟩
  · rintro ⟨v, hv⟩
    exact h.inScope path v hv

/-- The log is no part of what the scope knows. -/
theorem Visited.of_eq {before : List Placed} {s s' : Scope} (h : Visited before s)
    (horigins : s'.origins = s.origins) (hconstants : s'.constants = s.constants) :
    Visited before s' := by
  have hholds : s'.Holds = s.Holds := by
    funext path v
    rw [Scope.Holds, Scope.Holds, hconstants]
  exact ⟨horigins ▸ h.entries, h.nodup, h.first_eq_none, hholds ▸ h.inScope,
    hholds ▸ h.leadsTo⟩

section Enter

variable {before : List Placed} {s : Scope} {n : Placed}

theorem InScope.append_left {path : String} (h : InScope before path) (ns : List Placed) :
    InScope (before ++ ns) path := by
  obtain ⟨m, hm, hscalar, hpath⟩ := h
  exact ⟨m, List.mem_append_left _ hm, hscalar, hpath⟩

/-- A container adds no scalar. -/
theorem Visited.recordLine (h : Visited before s) (hn : Announced Placed.path before n)
    (hfirst : n.first = none) (hscalar : n.literal.isScalar = false) :
    Visited (before ++ [n]) { s with origins := s.origins.record n.path n.line } := by
  have htabled : Tabled (before ++ [n]) { s with origins := s.origins.record n.path n.line } :=
    h.tabled.append hn hfirst rfl
  refine { htabled with
    inScope := fun path v hv => (h.inScope path v hv).append_left [n]
    leadsTo := ?_ }
  intro m hm hm'
  rcases List.mem_append.mp hm with hm | hm
  · obtain ⟨v, hv, hleads⟩ := h.leadsTo m hm hm'
    exact ⟨v, hv, hleads.mono (List.subset_append_left _ _)⟩
  · rw [List.mem_singleton.mp hm, hscalar] at hm'
    cases hm'

/-- The scope after a scalar node. -/
def Scope.define (s : Scope) (n : Placed) (v : Scalar) : Scope :=
  { s with
    origins := s.origins.record n.path n.line
    constants := Ordered.insert n.path v s.constants }

theorem Scope.define_holds (s : Scope) (n : Placed) (v : Scalar) : (s.define n v).Holds n.path v :=
  Ordered.get?_insert_self n.path v s.constants

theorem run_define (hpath : Ordered.get? n.path s.constants = none) (v : Scalar) :
    Step.run (define n.path n.line v) s = (.ok (.scalar v), s.define n v) := by
  rw [define, Step.run_of, Ordered.contains, hpath]
  rfl

/-- A new path takes no scalar away. -/
theorem Scope.extends_define (hpath : Ordered.get? n.path s.constants = none) (v : Scalar) :
    s.Extends (s.define n v) := by
  intro path w hw
  have hne : n.path ≠ path := by
    rintro rfl
    rw [Scope.Holds, hpath] at hw
    cases hw
  rw [Scope.Holds, Scope.define, Ordered.get?_insert_of_ne hne]
  exact hw

theorem Visited.get?_path (h : Visited before s) (hn : Announced Placed.path before n)
    (hfirst : n.first = none) : Ordered.get? n.path s.constants = none := by
  rcases hget : Ordered.get? n.path s.constants with _ | v
  · rfl
  · obtain ⟨m, hm, -, hpath⟩ := h.inScope n.path v hget
    exact absurd hpath (hn.fresh hfirst h.first_eq_none m hm)

/-- A scalar node adds its value, to which a chain of references leads. -/
theorem Visited.define (h : Visited before s) (hn : Announced Placed.path before n)
    (hfirst : n.first = none) (hscalar : n.literal.isScalar = true) {v : Scalar}
    (hv : LeadsTo before n v) : Visited (before ++ [n]) (s.define n v) := by
  have htabled : Tabled (before ++ [n]) (s.define n v) := h.tabled.append hn hfirst rfl
  refine { htabled with inScope := ?_, leadsTo := ?_ }
  · intro path w hw
    by_cases hpath : n.path = path
    · exact ⟨n, by simp, hscalar, hpath⟩
    · rw [Scope.Holds, Scope.define, Ordered.get?_insert_of_ne hpath] at hw
      exact (h.inScope path w hw).append_left [n]
  · intro m hm hm'
    rcases List.mem_append.mp hm with hm | hm
    · obtain ⟨w, hw, hleads⟩ := h.leadsTo m hm hm'
      exact ⟨w, Scope.extends_define (h.get?_path hn hfirst) v _ _ hw,
        hleads.mono (List.subset_append_left _ _)⟩
    · rw [List.mem_singleton.mp hm]
      exact ⟨v, s.define_holds n v, hv.mono (List.subset_append_left _ _)⟩

end Enter

/-! ## Walks -/

/-- How a visit of the nodes `ns`, after the nodes `before` and from the scope `s`, ends. -/
def Walked {α : Type} (before ns : List Placed) (s : Scope) (Q : α → Scope → Prop) :
    Except Error α × Scope → Prop
  | (.ok a, s') =>
      firstOffence before ns = none ∧ Visited (before ++ ns) s' ∧ s.Extends s' ∧ Q a s'
  | (.error e, _) => firstOffence before ns = some e

section Walks

variable {α β : Type} {before ns ns' : List Placed} {s : Scope} {Q : α → Scope → Prop}
  {Q' : β → Scope → Prop}

/-- Two walks one after the other are a walk through the nodes of both. -/
theorem Walked.bind {x : Resolve α} {f : α → Resolve β} (hx : Walked before ns s Q (Step.run x s))
    (hf : ∀ a s₁, Visited (before ++ ns) s₁ → s.Extends s₁ → Q a s₁ →
      Walked (before ++ ns) ns' s₁ Q' (Step.run (f a) s₁)) :
    Walked before (ns ++ ns') s Q' (Step.run (x >>= f) s) := by
  rcases hrun : Step.run x s with ⟨e | a, s₁⟩
  · rw [hrun] at hx
    have hx : firstOffence before ns = some e := hx
    rw [Step.run_bind_of_error hrun]
    show firstOffence before (ns ++ ns') = some e
    rw [firstOffence_append, hx, Option.some_or]
  · rw [hrun] at hx
    obtain ⟨hnone, hvisited, hext, hq⟩ := hx
    have hfa := hf a s₁ hvisited hext hq
    rw [Step.run_bind_of_ok hrun]
    rcases hrun' : Step.run (f a) s₁ with ⟨e | b, s₂⟩
    · rw [hrun'] at hfa
      have hfa : firstOffence (before ++ ns) ns' = some e := hfa
      show firstOffence before (ns ++ ns') = some e
      rw [firstOffence_append, hnone, Option.none_or, hfa]
    · rw [hrun'] at hfa
      obtain ⟨hnone', hvisited', hext', hq'⟩ := hfa
      refine ⟨?_, ?_, hext.trans hext', hq'⟩
      · rw [firstOffence_append, hnone, Option.none_or, hnone']
      · rw [← List.append_assoc]
        exact hvisited'

/-- What is done with the result of a walk visits no more nodes. -/
theorem Walked.map {x : Resolve α} {f : α → β} (hx : Walked before ns s Q (Step.run x s))
    (hf : ∀ a s₁, s.Extends s₁ → Q a s₁ → Q' (f a) s₁) :
    Walked before ns s Q' (Step.run (x >>= fun a => pure (f a)) s) := by
  rcases hrun : Step.run x s with ⟨e | a, s₁⟩
  · rw [hrun] at hx
    rw [Step.run_bind_of_error hrun]
    exact hx
  · rw [hrun] at hx
    obtain ⟨hnone, hvisited, hext, hq⟩ := hx
    rw [Step.run_bind_of_ok hrun, Step.run_pure]
    exact ⟨hnone, hvisited, hext, hf a s₁ hext hq⟩

end Walks

/-! ## Single nodes -/

theorem firstOffence_singleton (before : List Placed) (n : Placed) :
    firstOffence before [n] = offence before n := by
  rw [firstOffence, firstOffence, Option.or_none]

section Nodes

variable {before : List Placed} {s : Scope} {n : Placed}

theorem offence_of_not_isScalar (hfirst : n.first = none) (h : n.literal.isScalar = false) :
    offence before n = none := by
  obtain ⟨steps, line, first, l⟩ := n
  cases hfirst
  cases l with
  | mapping | sequence => rfl
  | constant | negate | reference => cases h

theorem recordLine_walked (h : Visited before s) (hn : Announced Placed.path before n)
    (hfirst : n.first = none) (hscalar : n.literal.isScalar = false) :
    Walked before [n] s (fun _ _ => True) (Step.run (recordLine n.path n.line) s) := by
  refine ⟨?_, h.recordLine hn hfirst hscalar, Scope.Extends.refl s, trivial⟩
  rw [firstOffence_singleton, offence_of_not_isScalar hfirst hscalar]

theorem define_walked (h : Visited before s) (hn : Announced Placed.path before n)
    (hfirst : n.first = none) (hscalar : n.literal.isScalar = true)
    (hoffence : offence before n = none) {v : Scalar} (hleads : LeadsTo before n v)
    (hv : Denotes s.Holds n.literal v) :
    Walked before [n] s (fun t s' => Mirrors (Known s') n.steps n.literal t)
      (Step.run (define n.path n.line v) s) := by
  have hext := Scope.extends_define (h.get?_path hn hfirst) v
  rw [run_define (h.get?_path hn hfirst)]
  refine ⟨?_, h.define hn hfirst hscalar hleads, hext, .scalar hscalar ⟨?_, hv.imp hext⟩⟩
  · rw [firstOffence_singleton, hoffence]
  · exact s.define_holds n v

theorem constant_walked {l : Nat} {v : Scalar} (h : Visited before s)
    (hn : Announced Placed.path before n) (hfirst : n.first = none)
    (hl : n.literal = .constant l v) :
    Walked before [n] s (fun t s' => Mirrors (Known s') n.steps n.literal t)
      (Step.run (visit n.path n.line (.constant l v)) s) := by
  have hrun : Step.run (Step.lift (evaluate (.constant l v)) : Resolve Scalar) s = (.ok v, s) :=
    Step.run_lift _ s
  rw [visit, Step.run_bind_of_ok hrun]
  refine define_walked h hn hfirst (by rw [hl]; rfl) ?_ (.constant hl) (by rw [hl]; constructor)
  rw [offence, hfirst, hl]
  rfl

/-- A negation is carried out, or it is the first offence. -/
theorem negate_walked {l : Nat} {operand : Literal} (hlex : Everywhere Lexical (.negate l operand))
    (h : Visited before s) (hn : Announced Placed.path before n) (hfirst : n.first = none)
    (hl : n.literal = .negate l operand) :
    Walked before [n] s (fun t s' => Mirrors (Known s') n.steps n.literal t)
      (Step.run (visit n.path n.line (.negate l operand)) s) := by
  have hoffence : offence before n = operand.badOperand? l := by
    rw [offence, hfirst, hl]
    rfl
  rw [visit]
  rcases hbad : operand.badOperand? l with _ | e
  · obtain ⟨line, k, hcore, hmin⟩ := (badOperand?_eq_none_iff operand l).mp hbad
    obtain ⟨k', hk', heval, -⟩ := evaluate_of_core (.negate l operand) hlex hcore hmin
    rw [integer?] at hk'
    obtain ⟨k, hk, rfl⟩ := Option.map_eq_some_iff.mp hk'
    have hrun : Step.run (Step.lift (evaluate (.negate l operand)) : Resolve Scalar) s
        = (.ok (.int (-k)), s) := by
      rw [Step.run_lift, heval]
    rw [Step.run_bind_of_ok hrun]
    exact define_walked h hn hfirst (by rw [hl]; rfl) (hoffence.trans hbad) (.negate hl hk)
      (by rw [hl]; exact .negate hk)
  · have hrun : Step.run (Step.lift (evaluate (.negate l operand)) : Resolve Scalar) s
        = (.error e, s) := by
      rw [Step.run_lift, evaluate_negate_of_badOperand? operand hbad]
    rw [Step.run_bind_of_error hrun]
    show firstOffence before [n] = some e
    rw [firstOffence_singleton, hoffence, hbad]

/-- A reference takes the scalar of an earlier node, or it is the first offence. -/
theorem reference_walked {l : Nat} {segments : List String} (h : Visited before s)
    (hn : Announced Placed.path before n) (hfirst : n.first = none)
    (hl : n.literal = .reference l segments) :
    Walked before [n] s (fun t s' => Mirrors (Known s') n.steps n.literal t)
      (Step.run (visit n.path n.line (.reference l segments)) s) := by
  have hoffence : offence before n = if InScope before (ofSegments segments) then none
      else some (.unresolved (String.intercalate "." segments) (some l)) := by
    rw [offence, hfirst, hl]
  rw [visit]
  rcases hget : Ordered.get? (ofSegments segments) s.constants with _ | v
  · have hrun : Step.run (lookup n.path l segments) s
        = (.error (.unresolved (String.intercalate "." segments) (some l)), s) := by
      simp only [lookup, Step.run_of, hget]
    have hscope : ¬ InScope before (ofSegments segments) := by
      rw [h.inScope_iff]
      rintro ⟨v, hv⟩
      rw [Scope.Holds, hget] at hv
      cases hv
    rw [Step.run_bind_of_error hrun]
    show firstOffence before [n] = _
    rw [firstOffence_singleton, hoffence, if_neg hscope]
  · obtain ⟨log, hrun⟩ : ∃ log, Step.run (lookup n.path l segments) s
        = (.ok v, { s with log := log }) := by
      simp only [lookup, Step.run_of, hget]
      exact ⟨_, rfl⟩
    have hnone : offence before n = none := by rw [hoffence, if_pos (h.inScope _ v hget)]
    obtain ⟨m, hm, hscalar, hpath⟩ := h.inScope _ v hget
    obtain ⟨w, hw, hleads⟩ := h.leadsTo m hm hscalar
    -- the table has one scalar for the path of the earlier node
    have hvw : w = v := by
      rw [Scope.Holds, hpath, hget] at hw
      exact (Option.some.inj hw).symm
    rw [Step.run_bind_of_ok hrun]
    exact define_walked (s := { s with log := log }) (h.of_eq rfl rfl) hn hfirst
      (by rw [hl]; rfl) hnone (.reference hl hm hpath (hvw ▸ hleads))
      (by rw [hl]; exact .reference hget)

end Nodes

/-! ## Whole literals -/

theorem run_refuseDuplicate_of_mem {path : String} {seen : List String} {k : Key}
    (h : k.name ∈ seen) (s : Scope) :
    Step.run (refuseDuplicate path seen k) s
      = (.error (.duplicate (child path k.name) (some k.line)
          (s.origins.lineOf (child path k.name))), s) := by
  simp [refuseDuplicate, h]

theorem run_refuseDuplicate_of_not_mem {path : String} {seen : List String} {k : Key}
    (h : k.name ∉ seen) (s : Scope) : Step.run (refuseDuplicate path seen k) s = (.ok (), s) := by
  simp [refuseDuplicate, h]

/-- A node under a repeated key is an offence, whatever comes after it. -/
theorem firstOffence_outline_of_some (before ns : List Placed) (steps : List Tree.Step)
    (line first : Nat) (l : Literal) :
    firstOffence before (outline steps line (some first) l ++ ns)
      = some (.duplicate (ofSteps steps) (some line) (some first)) := by
  cases l with
  | mapping | sequence | constant | negate | reference =>
      rw [outline, List.cons_append, firstOffence, offence, Option.some_or]
      rfl

mutual

/-- **The visit of a literal walks through its nodes** and returns a tree that mirrors it. -/
theorem visit_walked : ∀ (l : Literal) (steps : List Tree.Step) (line : Nat)
    (before : List Placed) (s : Scope), Everywhere Lexical l →
    AllAfter (Announced Placed.path) before (outline steps line none l) → Visited before s →
    Walked before (outline steps line none l) s (fun t s' => Mirrors (Known s') steps l t)
      (Step.run (visit (ofSteps steps) line l) s)
  | .mapping l entries, steps, line, before, s, hlex, hann, hs => by
      rw [Everywhere] at hlex
      rw [outline] at hann ⊢
      have hhead := recordLine_walked hs hann.1 rfl rfl
      rw [visit]
      refine hhead.bind ?_
      intro _ s₁ hs₁ _ _
      refine Walked.map
        (visitEntries_walked entries steps [] [] _ s₁ hlex.2 (by simp) hann.2 hs₁) ?_
      intro fields s₂ _ hfields
      exact .mapping hfields
  | .sequence l items, steps, line, before, s, hlex, hann, hs => by
      rw [Everywhere] at hlex
      rw [outline] at hann ⊢
      have hhead := recordLine_walked hs hann.1 rfl rfl
      rw [visit]
      refine hhead.bind ?_
      intro _ s₁ hs₁ _ _
      refine Walked.map (visitItems_walked items steps 0 _ s₁ hlex.2 hann.2 hs₁) ?_
      intro trees s₂ _ htrees
      exact .sequence htrees
  | .constant l v, steps, line, before, s, hlex, hann, hs => by
      rw [outline] at hann ⊢
      exact constant_walked hs hann.1 rfl rfl
  | .negate l operand, steps, line, before, s, hlex, hann, hs => by
      rw [outline] at hann ⊢
      exact negate_walked hlex hs hann.1 rfl rfl
  | .reference l segments, steps, line, before, s, hlex, hann, hs => by
      rw [outline] at hann ⊢
      exact reference_walked hs hann.1 rfl rfl

theorem visitEntries_walked : ∀ (entries : List (Key × Literal)) (steps : List Tree.Step)
    (seen : List Key) (names : List String) (before : List Placed) (s : Scope),
    EverywhereInEntries Lexical entries → (∀ name, name ∈ names ↔ ∃ k ∈ seen, k.name = name) →
    AllAfter (Announced Placed.path) before (outlineEntries steps seen entries) →
    Visited before s →
    Walked before (outlineEntries steps seen entries) s
      (fun fields s' => MirrorsEntries (Known s') steps entries fields)
      (Step.run (visitEntries (ofSteps steps) names entries) s)
  | [], steps, seen, names, before, s, hlex, hnames, hann, hs => by
      rw [outlineEntries, visitEntries, Step.run_pure]
      exact ⟨rfl, by rw [List.append_nil]; exact hs, Scope.Extends.refl s, .nil⟩
  | (k, v) :: rest, steps, seen, names, before, s, hlex, hnames, hann, hs => by
      rw [EverywhereInEntries] at hlex
      rw [outlineEntries, allAfter_append] at hann
      rw [outlineEntries, visitEntries]
      rcases hfirst : firstLine seen k.name with _ | line
      · have hk : k.name ∉ names := by
          rw [hnames]
          rintro ⟨k', hk', hname⟩
          exact firstLine_eq_none_iff.mp hfirst k' hk' hname
        rw [hfirst] at hann
        rw [Step.run_bind_of_ok (run_refuseDuplicate_of_not_mem hk s), ← ofSteps_append_key]
        refine Walked.bind (visit_walked v _ k.line before s hlex.1 hann.1 hs) ?_
        intro t s₁ hs₁ _ ht
        have hnames' : ∀ name, name ∈ k.name :: names ↔ ∃ k' ∈ seen ++ [k], k'.name = name := by
          intro name
          rw [List.mem_cons, hnames]
          simp [or_comm, or_and_right, exists_or, eq_comm]
        refine Walked.map
          (visitEntries_walked rest steps _ _ _ s₁ hlex.2 hnames' hann.2 hs₁) ?_
        intro fields s₂ hext hfields
        exact .cons (ht.imp fun _ _ _ => Known.mono hext) hfields
      · -- the key was there before: the walk ends at this node
        have hk : k.name ∈ names := by
          rw [hnames]
          by_contra hno
          rw [firstLine_eq_none_iff.mpr fun k' hk' hname => hno ⟨k', hk', hname⟩] at hfirst
          cases hfirst
        have hline : s.origins.lineOf (child (ofSteps steps) k.name) = some line := by
          rw [hfirst] at hann
          obtain ⟨m, hm, hsteps, hline⟩ := hann.1.head.repeated line rfl
          have hpath : m.path = child (ofSteps steps) k.name := by
            rw [Placed.path, hsteps, ofSteps_append_key]
          rw [← hpath, hs.tabled.lineOf hm, hline]
        rw [Step.run_bind_of_error (run_refuseDuplicate_of_mem hk s)]
        show firstOffence before _ = some _
        rw [firstOffence_outline_of_some, hline, ofSteps_append_key]

theorem visitItems_walked : ∀ (items : List Literal) (steps : List Tree.Step) (index : Nat)
    (before : List Placed) (s : Scope), EverywhereInItems Lexical items →
    AllAfter (Announced Placed.path) before (outlineItems steps index items) → Visited before s →
    Walked before (outlineItems steps index items) s
      (fun trees s' => MirrorsItems (Known s') steps index items trees)
      (Step.run (visitItems (ofSteps steps) index items) s)
  | [], steps, index, before, s, hlex, hann, hs => by
      rw [outlineItems, visitItems, Step.run_pure]
      exact ⟨rfl, by rw [List.append_nil]; exact hs, Scope.Extends.refl s, .nil⟩
  | v :: rest, steps, index, before, s, hlex, hann, hs => by
      rw [EverywhereInItems] at hlex
      rw [outlineItems, allAfter_append] at hann
      rw [outlineItems, visitItems, ← ofSteps_append_index]
      refine Walked.bind (visit_walked v _ v.line before s hlex.1 hann.1 hs) ?_
      intro t s₁ hs₁ _ ht
      refine Walked.map (visitItems_walked rest steps _ _ s₁ hlex.2 hann.2 hs₁) ?_
      intro trees s₂ hext htrees
      exact .cons (ht.imp fun _ _ _ => Known.mono hext) htrees

end

end SiteConf.Literal
