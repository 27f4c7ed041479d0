import SiteConf.Literal.Grammar
import SiteConf.Proofs.KeyPath

set_option autoImplicit false

/-! # The nodes of a literal in document order

`Literal.nodes` lists the nodes of a literal that become nodes of its tree, depth first and from
left to right, each with the steps that lead to it and the line that introduces it: the line of
its key in a mapping, its own line in a sequence and at the root. What stands under a minus is
part of the negation and no node of its own.

Under one parent the next steps are either all keys or all indices, and indices are counted up.
So two nodes have the same path only when a key is repeated in a mapping, and the list says where
that happens: `Announced` collects what it means for a node to come after the nodes before it.
-/

namespace SiteConf.Literal

open KeyPath

/-! ## Nodes -/

/-- A node of a literal in its place. In a mapping whose key was there before, `first` is the
line of the first such key. -/
structure Placed where
  steps : List Tree.Step
  line : Nat
  first : LineRef
  literal : Literal

def Placed.path (n : Placed) : String :=
  ofSteps n.steps

def Placed.segments (n : Placed) : List String :=
  KeyPath.segments n.steps

/-- The line of the first of some keys that has the name. -/
def firstLine (seen : List Key) (name : String) : LineRef :=
  (seen.find? fun k => k.name = name).map Key.line

mutual

/-- The nodes of the literal that the steps lead to, itself first. -/
def outline (steps : List Tree.Step) (line : Nat) (first : LineRef) : Literal → List Placed
  | .mapping l entries =>
      ⟨steps, line, first, .mapping l entries⟩ :: outlineEntries steps [] entries
  | .sequence l items => ⟨steps, line, first, .sequence l items⟩ :: outlineItems steps 0 items
  | .constant l value => [⟨steps, line, first, .constant l value⟩]
  | .negate l operand => [⟨steps, line, first, .negate l operand⟩]
  | .reference l segments => [⟨steps, line, first, .reference l segments⟩]

/-- The nodes of the entries of a mapping, after those with the keys `seen`. -/
def outlineEntries (steps : List Tree.Step) (seen : List Key) :
    List (Key × Literal) → List Placed
  | [] => []
  | (k, v) :: rest =>
      outline (steps ++ [.key k.name]) k.line (firstLine seen k.name) v
        ++ outlineEntries steps (seen ++ [k]) rest

/-- The nodes of the items of a sequence from `index` on. -/
def outlineItems (steps : List Tree.Step) (index : Nat) : List Literal → List Placed
  | [] => []
  | v :: rest =>
      outline (steps ++ [.index index]) v.line none v ++ outlineItems steps (index + 1) rest

end

/-- The nodes of a literal in document order. -/
def nodes (l : Literal) : List Placed :=
  outline [] l.line none l

theorem self_mem_outline (steps : List Tree.Step) (line : Nat) (first : LineRef) (l : Literal) :
    ⟨steps, line, first, l⟩ ∈ outline steps line first l := by
  cases l with
  | mapping | sequence | constant | negate | reference => rw [outline]; exact List.mem_cons_self

/-! ## Nodes lie below their parent -/

mutual

theorem segments_prefix_of_mem_outline : ∀ (l : Literal) (steps : List Tree.Step) (line : Nat)
    (first : LineRef), ∀ n ∈ outline steps line first l, KeyPath.segments steps <+: n.segments
  | .mapping l entries, steps, line, first, n, h => by
      rw [outline, List.mem_cons] at h
      rcases h with rfl | h
      · exact List.prefix_rfl
      · obtain ⟨k, -, hk⟩ := segments_prefix_of_mem_outlineEntries entries steps [] n h
        exact isPrefix_of_append_singleton hk
  | .sequence l items, steps, line, first, n, h => by
      rw [outline, List.mem_cons] at h
      rcases h with rfl | h
      · exact List.prefix_rfl
      · obtain ⟨i, -, hi⟩ := segments_prefix_of_mem_outlineItems items steps 0 n h
        exact isPrefix_of_append_singleton hi
  | .constant l value, steps, line, first, n, h => by
      rw [outline, List.mem_singleton] at h
      rw [h]
      exact List.prefix_rfl
  | .negate l operand, steps, line, first, n, h => by
      rw [outline, List.mem_singleton] at h
      rw [h]
      exact List.prefix_rfl
  | .reference l segments, steps, line, first, n, h => by
      rw [outline, List.mem_singleton] at h
      rw [h]
      exact List.prefix_rfl

theorem segments_prefix_of_mem_outlineEntries : ∀ (entries : List (Key × Literal))
    (steps : List Tree.Step) (seen : List Key), ∀ n ∈ outlineEntries steps seen entries,
    ∃ e ∈ entries, KeyPath.segments steps ++ [e.1.name] <+: n.segments
  | [], steps, seen, n, h => by
      rw [outlineEntries] at h
      cases h
  | (k, v) :: rest, steps, seen, n, h => by
      rw [outlineEntries, List.mem_append] at h
      rcases h with h | h
      · have hp := segments_prefix_of_mem_outline v _ _ _ n h
        rw [segments_append] at hp
        exact ⟨(k, v), List.mem_cons_self, hp⟩
      · obtain ⟨e, he, hp⟩ := segments_prefix_of_mem_outlineEntries rest steps _ n h
        exact ⟨e, List.mem_cons_of_mem _ he, hp⟩

theorem segments_prefix_of_mem_outlineItems : ∀ (items : List Literal)
    (steps : List Tree.Step) (index : Nat), ∀ n ∈ outlineItems steps index items,
    ∃ i, index ≤ i ∧ KeyPath.segments steps ++ [Number.showNat i] <+: n.segments
  | [], steps, index, n, h => by
      rw [outlineItems] at h
      cases h
  | v :: rest, steps, index, n, h => by
      rw [outlineItems, List.mem_append] at h
      rcases h with h | h
      · have hp := segments_prefix_of_mem_outline v _ _ _ n h
        rw [segments_append] at hp
        exact ⟨index, Nat.le_refl _, hp⟩
      · obtain ⟨i, hi, hp⟩ := segments_prefix_of_mem_outlineItems rest steps _ n h
        exact ⟨i, Nat.le_of_succ_le hi, hp⟩

end

/-! ## Nodes and the nodes before them -/

/-- Every node of a list stands in the relation to the nodes before it, of which the first are
given. -/
def AllAfter (P : List Placed → Placed → Prop) : List Placed → List Placed → Prop
  | _, [] => True
  | before, n :: ns => P before n ∧ AllAfter P (before ++ [n]) ns

theorem allAfter_append {P : List Placed → Placed → Prop} {before a b : List Placed} :
    AllAfter P before (a ++ b) ↔ AllAfter P before a ∧ AllAfter P (before ++ a) b := by
  induction a generalizing before with
  | nil => simp [AllAfter]
  | cons n a ih =>
      rw [List.cons_append, AllAfter, AllAfter, ih, and_assoc, List.append_assoc]
      rfl

theorem AllAfter.head {P : List Placed → Placed → Prop} {before : List Placed}
    {steps : List Tree.Step} {line : Nat} {first : LineRef} {l : Literal}
    (h : AllAfter P before (outline steps line first l)) : P before ⟨steps, line, first, l⟩ := by
  cases l with
  | mapping | sequence | constant | negate | reference =>
      rw [outline] at h
      exact h.1

theorem AllAfter.imp {P Q : List Placed → Placed → Prop} {D : Placed → Prop}
    (himp : ∀ before n, (∀ m ∈ before, D m) → D n → P before n → Q before n)
    {before ns : List Placed} (hbefore : ∀ m ∈ before, D m) (hns : ∀ m ∈ ns, D m)
    (h : AllAfter P before ns) : AllAfter Q before ns := by
  induction ns generalizing before with
  | nil => trivial
  | cons n ns ih =>
      obtain ⟨hn, hns⟩ := List.forall_mem_cons.mp hns
      refine ⟨himp before n hbefore hn h.1, ih ?_ hns h.2⟩
      intro m hm
      rcases List.mem_append.mp hm with hm | hm
      · exact hbefore m hm
      · rw [List.mem_singleton.mp hm]
        exact hn

/-- A node whose key is new has an address of its own, by segments or by path; one whose key is
repeated has the steps of an earlier node, which the first such key introduces. -/
structure Announced {α : Type} (address : Placed → α) (before : List Placed) (n : Placed) :
    Prop where
  fresh : n.first = none → (∀ m ∈ before, m.first = none) →
    ∀ m ∈ before, address m ≠ address n
  repeated : ∀ line, n.first = some line → ∃ m ∈ before, m.steps = n.steps ∧ m.line = line

theorem firstLine_eq_none_iff {seen : List Key} {name : String} :
    firstLine seen name = none ↔ ∀ k ∈ seen, k.name ≠ name := by
  simp [firstLine]

theorem firstLine_append_singleton (seen : List Key) (k : Key) (name : String) :
    firstLine (seen ++ [k]) name
      = (firstLine seen name).or (if k.name = name then some k.line else none) := by
  rw [firstLine, firstLine, List.find?_append, Option.map_or]
  congr 1
  by_cases hk : k.name = name <;> simp [hk]

/-- Under a key that is new or repeated as `first` says, the node itself is announced. -/
theorem announced_head {steps : List Tree.Step} {line : Nat} {first : LineRef} {l : Literal}
    {before : List Placed}
    (hnew : first = none → (∀ m ∈ before, m.first = none) →
      ∀ m ∈ before, ¬ KeyPath.segments steps <+: m.segments)
    (hold : ∀ line, first = some line → ∃ m ∈ before, m.steps = steps ∧ m.line = line) :
    Announced Placed.segments before ⟨steps, line, first, l⟩ :=
  ⟨fun hfirst hall m hm heq => hnew hfirst hall m hm (heq ▸ List.prefix_rfl), hold⟩

/-- No node so far lies strictly below a container that was just reached. -/
theorem not_append_singleton_prefix_of_mem {steps : List Tree.Step} {line : Nat} {first : LineRef}
    {l : Literal} {before : List Placed}
    (hnew : first = none → (∀ m ∈ before, m.first = none) →
      ∀ m ∈ before, ¬ KeyPath.segments steps <+: m.segments)
    (hall : ∀ m ∈ before ++ [⟨steps, line, first, l⟩], m.first = none) {m : Placed}
    (hm : m ∈ before ++ [⟨steps, line, first, l⟩]) (s : String) :
    ¬ KeyPath.segments steps ++ [s] <+: m.segments := by
  intro hp
  rcases List.mem_append.mp hm with hm | hm
  · have hfirst : first = none := hall ⟨steps, line, first, l⟩ (by simp)
    have hbefore : ∀ m ∈ before, m.first = none := fun m hm => hall m (List.mem_append_left _ hm)
    exact hnew hfirst hbefore m hm (isPrefix_of_append_singleton hp)
  · rw [List.mem_singleton.mp hm] at hp
    have hlen := hp.length_le
    rw [List.length_append, List.length_singleton] at hlen
    exact Nat.not_succ_le_self _ hlen

mutual

/-- **Every node of a literal is announced.** The nodes before it must not lie at or below the
place of the literal, unless its key is repeated. -/
theorem outline_announced : ∀ (l : Literal) (steps : List Tree.Step) (line : Nat)
    (first : LineRef) (before : List Placed),
    (first = none → (∀ m ∈ before, m.first = none) →
      ∀ m ∈ before, ¬ KeyPath.segments steps <+: m.segments) →
    (∀ line, first = some line → ∃ m ∈ before, m.steps = steps ∧ m.line = line) →
    AllAfter (Announced Placed.segments) before (outline steps line first l)
  | .mapping l entries, steps, line, first, before, hnew, hold => by
      rw [outline]
      refine ⟨announced_head hnew hold, outlineEntries_announced entries steps [] _ ?_ ?_⟩
      · intro hall m hm name hp
        exact absurd hp (not_append_singleton_prefix_of_mem hnew hall hm name)
      · intro name line' hline
        cases hline
  | .sequence l items, steps, line, first, before, hnew, hold => by
      rw [outline]
      refine ⟨announced_head hnew hold, outlineItems_announced items steps 0 _ ?_⟩
      intro hall m hm i hp
      exact absurd hp (not_append_singleton_prefix_of_mem hnew hall hm _)
  | .constant l value, steps, line, first, before, hnew, hold => by
      rw [outline]
      exact ⟨announced_head hnew hold, trivial⟩
  | .negate l operand, steps, line, first, before, hnew, hold => by
      rw [outline]
      exact ⟨announced_head hnew hold, trivial⟩
  | .reference l segments, steps, line, first, before, hnew, hold => by
      rw [outline]
      exact ⟨announced_head hnew hold, trivial⟩

/-- The nodes below the mapping that came before are those of the entries `seen`. -/
theorem outlineEntries_announced : ∀ (entries : List (Key × Literal)) (steps : List Tree.Step)
    (seen : List Key) (before : List Placed),
    ((∀ m ∈ before, m.first = none) → ∀ m ∈ before, ∀ name,
      KeyPath.segments steps ++ [name] <+: m.segments → ∃ k ∈ seen, k.name = name) →
    (∀ name line, firstLine seen name = some line →
      ∃ m ∈ before, m.steps = steps ++ [.key name] ∧ m.line = line) →
    AllAfter (Announced Placed.segments) before (outlineEntries steps seen entries)
  | [], steps, seen, before, hnew, hold => by
      rw [outlineEntries]
      trivial
  | (k, v) :: rest, steps, seen, before, hnew, hold => by
      rw [outlineEntries, allAfter_append]
      constructor
      · refine outline_announced v _ _ _ before ?_ (hold k.name)
        intro hfirst hall m hm hp
        rw [segments_append] at hp
        obtain ⟨k', hk', hname⟩ := hnew hall m hm k.name hp
        exact firstLine_eq_none_iff.mp hfirst k' hk' hname
      · refine outlineEntries_announced rest steps (seen ++ [k]) _ ?_ ?_
        · intro hall m hm name hp
          rcases List.mem_append.mp hm with hm | hm
          · obtain ⟨k', hk', hname⟩ :=
              hnew (fun m hm => hall m (List.mem_append_left _ hm)) m hm name hp
            exact ⟨k', List.mem_append_left _ hk', hname⟩
          · have hpk := segments_prefix_of_mem_outline v _ _ _ m hm
            rw [segments_append] at hpk
            exact ⟨k, by simp, eq_of_isPrefix_append_singleton hpk hp⟩
        · intro name line hline
          rw [firstLine_append_singleton] at hline
          rcases hseen : firstLine seen name with _ | line'
          · -- the entry just passed is the first with this name
            rw [hseen, Option.none_or] at hline
            obtain ⟨hname, hk⟩ : k.name = name ∧ k.line = line := by simpa using hline
            exact ⟨_, List.mem_append_right _ (self_mem_outline ..), by rw [hname], hk⟩
          · rw [hseen, Option.some_or] at hline
            obtain ⟨m, hm, hsteps, hline'⟩ := hold name line (hseen.trans hline)
            exact ⟨m, List.mem_append_left _ hm, hsteps, hline'⟩

/-- The nodes below the sequence that came before are those of its items below `index`. -/
theorem outlineItems_announced : ∀ (items : List Literal) (steps : List Tree.Step) (index : Nat)
    (before : List Placed),
    ((∀ m ∈ before, m.first = none) → ∀ m ∈ before, ∀ i,
      KeyPath.segments steps ++ [Number.showNat i] <+: m.segments → i < index) →
    AllAfter (Announced Placed.segments) before (outlineItems steps index items)
  | [], steps, index, before, hnew => by
      rw [outlineItems]
      trivial
  | v :: rest, steps, index, before, hnew => by
      rw [outlineItems, allAfter_append]
      constructor
      · refine outline_announced v _ _ _ before ?_ (fun _ hline => nomatch hline)
        intro _ hall m hm hp
        rw [segments_append] at hp
        exact Nat.lt_irrefl index (hnew hall m hm index hp)
      · refine outlineItems_announced rest steps (index + 1) _ ?_
        intro hall m hm i hp
        rcases List.mem_append.mp hm with hm | hm
        · exact Nat.lt_succ_of_lt (hnew (fun m hm => hall m (List.mem_append_left _ hm)) m hm i hp)
        · have hpi := segments_prefix_of_mem_outline v _ _ _ m hm
          rw [segments_append] at hpi
          have hi := Number.showNat_injective (eq_of_isPrefix_append_singleton hpi hp)
          omega

end

/-! ## Properties of all parts -/

mutual

/-- The property holds of the literal and of all its parts, operands of negations included. -/
def Everywhere (P : Literal → Prop) : Literal → Prop
  | .mapping line entries => P (.mapping line entries) ∧ EverywhereInEntries P entries
  | .sequence line items => P (.sequence line items) ∧ EverywhereInItems P items
  | .constant line value => P (.constant line value)
  | .negate line operand => P (.negate line operand) ∧ Everywhere P operand
  | .reference line segments => P (.reference line segments)

/-- The property holds of all values in the entries of a mapping and of their parts. -/
def EverywhereInEntries (P : Literal → Prop) : List (Key × Literal) → Prop
  | [] => True
  | (_, v) :: rest => Everywhere P v ∧ EverywhereInEntries P rest

/-- The property holds of all items of a sequence and of their parts. -/
def EverywhereInItems (P : Literal → Prop) : List Literal → Prop
  | [] => True
  | v :: rest => Everywhere P v ∧ EverywhereInItems P rest

end

mutual

theorem Everywhere.imp {P Q : Literal → Prop} (himp : ∀ l, P l → Q l) : ∀ {l : Literal},
    Everywhere P l → Everywhere Q l
  | .mapping _ _, h => ⟨himp _ h.1, EverywhereInEntries.imp himp h.2⟩
  | .sequence _ _, h => ⟨himp _ h.1, EverywhereInItems.imp himp h.2⟩
  | .constant _ _, h => himp _ h
  | .negate _ _, h => ⟨himp _ h.1, Everywhere.imp himp h.2⟩
  | .reference _ _, h => himp _ h

theorem EverywhereInEntries.imp {P Q : Literal → Prop} (himp : ∀ l, P l → Q l) :
    ∀ {entries : List (Key × Literal)}, EverywhereInEntries P entries →
      EverywhereInEntries Q entries
  | [], _ => trivial
  | _ :: _, h => ⟨Everywhere.imp himp h.1, EverywhereInEntries.imp himp h.2⟩

theorem EverywhereInItems.imp {P Q : Literal → Prop} (himp : ∀ l, P l → Q l) :
    ∀ {items : List Literal}, EverywhereInItems P items → EverywhereInItems Q items
  | [], _ => trivial
  | _ :: _, h => ⟨Everywhere.imp himp h.1, EverywhereInItems.imp himp h.2⟩

end

theorem everywhereInEntries_of_forall {P : Literal → Prop} {entries : List (Key × Literal)}
    (h : ∀ e ∈ entries, Everywhere P e.2) : EverywhereInEntries P entries := by
  induction entries with
  | nil => trivial
  | cons e entries ih => exact ⟨h e List.mem_cons_self, ih (List.forall_mem_cons.mp h).2⟩

theorem everywhereInItems_of_forall {P : Literal → Prop} {items : List Literal}
    (h : ∀ v ∈ items, Everywhere P v) : EverywhereInItems P items := by
  induction items with
  | nil => trivial
  | cons v items ih => exact ⟨h v List.mem_cons_self, ih (List.forall_mem_cons.mp h).2⟩

mutual

/-- What holds everywhere in a literal holds everywhere in the literals of its nodes. -/
theorem everywhere_of_mem_outline {P : Literal → Prop} : ∀ (l : Literal)
    (steps : List Tree.Step) (line : Nat) (first : LineRef), Everywhere P l →
    ∀ n ∈ outline steps line first l, Everywhere P n.literal
  | .mapping l entries, steps, line, first, hl, n, hn => by
      rw [outline] at hn
      rcases List.mem_cons.mp hn with rfl | hn
      · exact hl
      · exact everywhere_of_mem_outlineEntries entries steps [] hl.2 n hn
  | .sequence l items, steps, line, first, hl, n, hn => by
      rw [outline] at hn
      rcases List.mem_cons.mp hn with rfl | hn
      · exact hl
      · exact everywhere_of_mem_outlineItems items steps 0 hl.2 n hn
  | .constant l v, steps, line, first, hl, n, hn => by
      rw [outline] at hn
      obtain rfl := List.mem_singleton.mp hn
      exact hl
  | .negate l operand, steps, line, first, hl, n, hn => by
      rw [outline] at hn
      obtain rfl := List.mem_singleton.mp hn
      exact hl
  | .reference l segments, steps, line, first, hl, n, hn => by
      rw [outline] at hn
      obtain rfl := List.mem_singleton.mp hn
      exact hl

theorem everywhere_of_mem_outlineEntries {P : Literal → Prop} : ∀ (entries : List (Key × Literal))
    (steps : List Tree.Step) (seen : List Key), EverywhereInEntries P entries →
    ∀ n ∈ outlineEntries steps seen entries, Everywhere P n.literal
  | [], steps, seen, hl, n, hn => by
      rw [outlineEntries] at hn
      cases hn
  | (k, v) :: rest, steps, seen, hl, n, hn => by
      rw [outlineEntries, List.mem_append] at hn
      rcases hn with hn | hn
      · exact everywhere_of_mem_outline v _ _ _ hl.1 n hn
      · exact everywhere_of_mem_outlineEntries rest steps _ hl.2 n hn

theorem everywhere_of_mem_outlineItems {P : Literal → Prop} : ∀ (items : List Literal)
    (steps : List Tree.Step) (index : Nat), EverywhereInItems P items →
    ∀ n ∈ outlineItems steps index items, Everywhere P n.literal
  | [], steps, index, hl, n, hn => by
      rw [outlineItems] at hn
      cases hn
  | v :: rest, steps, index, hl, n, hn => by
      rw [outlineItems, List.mem_append] at hn
      rcases hn with hn | hn
      · exact everywhere_of_mem_outline v _ _ _ hl.1 n hn
      · exact everywhere_of_mem_outlineItems rest steps _ hl.2 n hn

end

/-- What the grammar sees to: keys are segments of a path. -/
def ProperKeys : Literal → Prop
  | .mapping _ entries => ∀ e ∈ entries, isKey e.1.name = true
  | _ => True

/-- What the grammar sees to when `P` holds of the integers of the tokens: keys are segments of a
path, and `P` holds of the integers. -/
def LexicalIn (P : Int → Prop) : Literal → Prop
  | .mapping _ entries => ∀ e ∈ entries, isKey e.1.name = true
  | .constant _ (.int n) => P n
  | _ => True

/-- Keys are segments of a path, and integers have 64 bits. -/
def Lexical : Literal → Prop :=
  LexicalIn fun n => Number.fits n = true

theorem properKeys_of_lexicalIn {P : Int → Prop} (l : Literal) (h : LexicalIn P l) :
    ProperKeys l := by
  cases l with
  | mapping => exact h
  | sequence | constant | negate | reference => trivial

theorem LexicalIn.imp {P Q : Int → Prop} (himp : ∀ n, P n → Q n) :
    ∀ l, LexicalIn P l → LexicalIn Q l := by
  intro l h
  cases l with
  | mapping => exact h
  | constant line v =>
      cases v with
      | int n => exact himp n h
      | str s | bool b => trivial
  | sequence | negate | reference => trivial

theorem dotless_of_isKey {name : String} (h : isKey name = true) : Dotless name := by
  rw [isKey, Bool.and_eq_true] at h
  simpa [Dotless] using h.2

mutual

/-- Where keys are proper, the paths of the nodes have segments without dots. -/
theorem plain_of_mem_outline : ∀ (l : Literal) (steps : List Tree.Step) (line : Nat)
    (first : LineRef), Everywhere ProperKeys l → Plain (KeyPath.segments steps) →
    ∀ n ∈ outline steps line first l, Plain n.segments
  | .mapping l entries, steps, line, first, hl, hsteps, n, hn => by
      rw [outline, List.mem_cons] at hn
      rcases hn with rfl | hn
      · exact hsteps
      · exact plain_of_mem_outlineEntries entries steps [] hl.1 hl.2 hsteps n hn
  | .sequence l items, steps, line, first, hl, hsteps, n, hn => by
      rw [outline, List.mem_cons] at hn
      rcases hn with rfl | hn
      · exact hsteps
      · exact plain_of_mem_outlineItems items steps 0 hl.2 hsteps n hn
  | .constant l value, steps, line, first, hl, hsteps, n, hn => by
      rw [outline, List.mem_singleton] at hn
      rw [hn]
      exact hsteps
  | .negate l operand, steps, line, first, hl, hsteps, n, hn => by
      rw [outline, List.mem_singleton] at hn
      rw [hn]
      exact hsteps
  | .reference l segments, steps, line, first, hl, hsteps, n, hn => by
      rw [outline, List.mem_singleton] at hn
      rw [hn]
      exact hsteps

theorem plain_of_mem_outlineEntries : ∀ (entries : List (Key × Literal))
    (steps : List Tree.Step) (seen : List Key), (∀ e ∈ entries, isKey e.1.name = true) →
    EverywhereInEntries ProperKeys entries → Plain (KeyPath.segments steps) →
    ∀ n ∈ outlineEntries steps seen entries, Plain n.segments
  | [], steps, seen, hkeys, hl, hsteps, n, hn => by
      rw [outlineEntries] at hn
      cases hn
  | (k, v) :: rest, steps, seen, hkeys, hl, hsteps, n, hn => by
      rw [outlineEntries, List.mem_append] at hn
      rcases hn with hn | hn
      · have hkey : Dotless k.name := dotless_of_isKey (hkeys (k, v) List.mem_cons_self)
        refine plain_of_mem_outline v _ _ _ hl.1 ?_ n hn
        rw [segments_append, plain_append]
        exact ⟨hsteps, List.forall_mem_singleton.mpr hkey⟩
      · exact plain_of_mem_outlineEntries rest steps _
          (fun e he => hkeys e (List.mem_cons_of_mem _ he)) hl.2 hsteps n hn

theorem plain_of_mem_outlineItems : ∀ (items : List Literal) (steps : List Tree.Step)
    (index : Nat), EverywhereInItems ProperKeys items → Plain (KeyPath.segments steps) →
    ∀ n ∈ outlineItems steps index items, Plain n.segments
  | [], steps, index, hl, hsteps, n, hn => by
      rw [outlineItems] at hn
      cases hn
  | v :: rest, steps, index, hl, hsteps, n, hn => by
      rw [outlineItems, List.mem_append] at hn
      rcases hn with hn | hn
      · refine plain_of_mem_outline v _ _ _ hl.1 ?_ n hn
        rw [segments_append]
        exact plain_append_showNat hsteps index
      · exact plain_of_mem_outlineItems rest steps _ hl.2 hsteps n hn

end

/-- **The nodes of a literal are announced under their paths.** Without dots in the segments a
path is as good as its segments. -/
theorem nodes_announced {l : Literal} (hl : Everywhere ProperKeys l) :
    AllAfter (Announced Placed.path) [] (nodes l) := by
  have hsegments : AllAfter (Announced Placed.segments) [] (nodes l) :=
    outline_announced l [] l.line none [] (fun _ _ _ hm => nomatch hm)
      (fun _ hline => nomatch hline)
  have hplain : ∀ n ∈ nodes l, Plain n.segments :=
    plain_of_mem_outline l [] l.line none hl (fun _ hs => nomatch hs)
  refine hsegments.imp ?_ (fun _ hm => nomatch hm) hplain
  intro before n hbefore hn h
  refine ⟨fun hfirst hall m hm heq => ?_, h.repeated⟩
  exact h.fresh hfirst hall m hm (ofSegments_injective (hbefore m hm) hn heq)

end SiteConf.Literal
