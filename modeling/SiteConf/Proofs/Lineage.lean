import SiteConf.Document
import SiteConf.Proofs.Origins
import SiteConf.Proofs.Tree

set_option autoImplicit false

/-! # Lineage of nodes

A transformation of a document moves and copies parts of its tree and has to do the same to the
origin table. `Traces` says that it does so for one part of the new tree: every node there comes
from a node of the old document, which a function of its steps names, and it has the line of that
node. A part is copied whole, with all that the table has below it, or it is rebuilt from parts
with a lineage of their own (`Traces.copy`, `Traces.mapping`, `Traces.sequence`).

The transformations go through the items of sequences one by one and change the table as they go.
`walk` is that loop. As long as an item changes the table only in a region of its own, the items
do not disturb each other: `walk_spec` gives each of them a table on which it works as if it
were alone. -/

namespace SiteConf.Document

open KeyPath

/-! ## Addressed documents -/

/-- What parsing sees to: paths are plain, no path is recorded twice, and the recorded paths are
those of the nodes. -/
structure Addressed (doc : Document) : Prop where
  plain : ∀ steps u, doc.tree.at? steps = some u → Plain (segments steps)
  distinct : doc.origins.Distinct
  covered : ∀ steps u, doc.tree.at? steps = some u →
    (doc.origins.lineAt (segments steps)).isSome = true
  exact : ∀ p, Plain p → (doc.origins.lineAt p).isSome = true →
    ∃ steps u, segments steps = p ∧ doc.tree.at? steps = some u

/-- In a tree the segments of a path determine its steps. -/
theorem exists_append_of_segments_eq {t u v : Tree} {p q : List Tree.Step} {r : List String}
    (hp : t.at? p = some u) (hq : t.at? q = some v) (h : segments q = segments p ++ r) :
    ∃ q', q = p ++ q' ∧ segments q' = r ∧ u.at? q' = some v := by
  induction p generalizing t q with
  | nil =>
      rw [Tree.at?_nil] at hp
      cases hp
      exact ⟨q, rfl, h, hq⟩
  | cons step p ih =>
      cases q with
      | nil => cases h
      | cons step' q =>
          obtain ⟨hstep, hrest⟩ : step'.segment = step.segment ∧ segments q = segments p ++ r := by
            simpa using h
          cases t with
          | scalar w => cases step <;> cases hp
          | sequence items =>
              cases step with
              | key k => cases hp
              | index i =>
                  cases step' with
                  | key k => cases hq
                  | index i' =>
                      obtain rfl : i' = i := Number.showNat_injective hstep
                      obtain ⟨t, hi, hp⟩ := Option.bind_eq_some_iff.mp hp
                      obtain ⟨t', hi', hq⟩ := Option.bind_eq_some_iff.mp hq
                      rw [hi] at hi'
                      cases hi'
                      obtain ⟨q', rfl, hr, hv⟩ := ih hp hq hrest
                      exact ⟨q', rfl, hr, hv⟩
          | mapping fields =>
              cases step with
              | index i => cases hp
              | key k =>
                  cases step' with
                  | index i => cases hq
                  | key k' =>
                      obtain rfl : k' = k := hstep
                      obtain ⟨t, hk, hp⟩ := Option.bind_eq_some_iff.mp hp
                      obtain ⟨t', hk', hq⟩ := Option.bind_eq_some_iff.mp hq
                      rw [hk] at hk'
                      cases hk'
                      obtain ⟨q', rfl, hr, hv⟩ := ih hp hq hrest
                      exact ⟨q', rfl, hr, hv⟩

section Vacant

variable {doc : Document} {steps : List Tree.Step}

/-- Nothing is recorded at or below a key that a mapping does not have. -/
theorem Addressed.lineAt_key_eq_none (h : doc.Addressed) {fields : List (String × Tree)}
    (hsteps : doc.tree.at? steps = some (.mapping fields)) {k : String}
    (hk : Ordered.get? k fields = none) {r : List String}
    (hr : Plain (segments steps ++ k :: r)) :
    doc.origins.lineAt (segments steps ++ k :: r) = none := by
  rw [← Option.not_isSome_iff_eq_none]
  intro hsome
  obtain ⟨q, v, hq, hv⟩ := h.exact _ hr hsome
  obtain ⟨q', rfl, hq', hv⟩ := exists_append_of_segments_eq hsteps hv hq
  cases q' with
  | nil => cases hq'
  | cons step q' =>
      cases step with
      | index i => cases hv
      | key k' =>
          obtain rfl : k' = k := (List.cons.inj hq').1
          rw [Tree.at?, hk] at hv
          cases hv

/-- Nothing is recorded at or below an index beyond the end of a sequence. -/
theorem Addressed.lineAt_index_eq_none (h : doc.Addressed) {items : List Tree}
    (hsteps : doc.tree.at? steps = some (.sequence items)) {i : Nat} (hi : items.length ≤ i)
    {r : List String} (hr : Plain (segments steps ++ Number.showNat i :: r)) :
    doc.origins.lineAt (segments steps ++ Number.showNat i :: r) = none := by
  rw [← Option.not_isSome_iff_eq_none]
  intro hsome
  obtain ⟨q, v, hq, hv⟩ := h.exact _ hr hsome
  obtain ⟨q', rfl, hq', hv⟩ := exists_append_of_segments_eq hsteps hv hq
  cases q' with
  | nil => cases hq'
  | cons step q' =>
      cases step with
      | key k => cases hv
      | index i' =>
          obtain rfl : i' = i := Number.showNat_injective (List.cons.inj hq').1
          rw [Tree.at?, List.getElem?_eq_none hi] at hv
          cases hv

end Vacant

/-! ## Lineage -/

/-- The node `u` at `steps` below `base` comes from the node of the document at `src steps`: it
is a copy of it, also in what the table has below it, or it has been rebuilt. -/
structure Traced (doc : Document) (table : Origins) (base : List String)
    (src : List Tree.Step → List Tree.Step) (rebuilt : List Tree.Step → Tree → Tree → Prop)
    (steps : List Tree.Step) (u : Tree) : Prop where
  plain : Plain (segments steps)
  line : table.lineAt (base ++ segments steps) = doc.origins.lineAt (segments (src steps))
  node : ∃ v, doc.tree.at? (src steps) = some v ∧
    ((u = v ∧ ∀ r, Plain r → table.lineAt (base ++ segments steps ++ r)
        = doc.origins.lineAt (segments (src steps) ++ r)) ∨ rebuilt steps u v)

/-- Every node of the tree at `base` comes from a node of the document. -/
def Traces (doc : Document) (table : Origins) (base : List String) (t : Tree)
    (src : List Tree.Step → List Tree.Step) (rebuilt : List Tree.Step → Tree → Tree → Prop) :
    Prop :=
  ∀ steps u, t.at? steps = some u → Traced doc table base src rebuilt steps u

section Traces

variable {doc : Document} {table table' : Origins} {base : List String} {t : Tree}
  {src : List Tree.Step → List Tree.Step} {rebuilt : List Tree.Step → Tree → Tree → Prop}

/-- A part of the document that is moved with all that the table has below it. -/
theorem Traces.copy {p : List Tree.Step}
    (hplain : ∀ steps u, doc.tree.at? steps = some u → Plain (segments steps))
    (hp : doc.tree.at? p = some t)
    (hlines : ∀ r, Plain r → table.lineAt (base ++ r) = doc.origins.lineAt (segments p ++ r))
    (hsrc : ∀ steps u, t.at? steps = some u → src steps = p ++ steps) :
    Traces doc table base t src rebuilt := by
  intro steps u hu
  have hat : doc.tree.at? (p ++ steps) = some u := by
    rw [Tree.at?_append, hp]
    exact hu
  have hsteps : Plain (segments steps) := by
    have h := hplain _ _ hat
    rw [segments_append, plain_append] at h
    exact h.2
  have hbelow : ∀ r, Plain r → table.lineAt (base ++ segments steps ++ r)
      = doc.origins.lineAt (segments (src steps) ++ r) := by
    intro r hr
    rw [hsrc steps u hu, segments_append, List.append_assoc, List.append_assoc]
    exact hlines _ (plain_append.mpr ⟨hsteps, hr⟩)
  refine ⟨hsteps, ?_, u, ?_, .inl ⟨rfl, hbelow⟩⟩
  · simpa using hbelow [] (fun _ hs => nomatch hs)
  · rw [hsrc steps u hu, hat]

/-- A mapping is traced when it is and all its entries are. -/
theorem Traces.mapping {fields : List (String × Tree)}
    (hself : Traced doc table base src rebuilt [] (.mapping fields))
    (hentries : ∀ k u, Ordered.get? k fields = some u → Dotless k ∧
      Traces doc table (base ++ [k]) u (fun s => src (.key k :: s))
        (fun s => rebuilt (.key k :: s))) :
    Traces doc table base (.mapping fields) src rebuilt := by
  intro steps u hu
  cases steps with
  | nil =>
      rw [Tree.at?_nil] at hu
      cases hu
      exact hself
  | cons step steps =>
      cases step with
      | index i => cases hu
      | key k =>
          obtain ⟨t, hk, hu⟩ := Option.bind_eq_some_iff.mp hu
          obtain ⟨hdotless, ht⟩ := hentries k t hk
          obtain ⟨hplain, hline, hnode⟩ := ht steps u hu
          have hassoc : base ++ segments (.key k :: steps) = base ++ [k] ++ segments steps := by
            rw [List.append_assoc]
            rfl
          refine ⟨List.forall_mem_cons.mpr ⟨hdotless, hplain⟩, ?_, ?_⟩
          · rw [hassoc, hline]
          · rw [hassoc]
            exact hnode

/-- A sequence is traced when it is and all its items are. -/
theorem Traces.sequence {items : List Tree}
    (hself : Traced doc table base src rebuilt [] (.sequence items))
    (hitems : ∀ i u, items[i]? = some u →
      Traces doc table (base ++ [Number.showNat i]) u (fun s => src (.index i :: s))
        (fun s => rebuilt (.index i :: s))) :
    Traces doc table base (.sequence items) src rebuilt := by
  intro steps u hu
  cases steps with
  | nil =>
      rw [Tree.at?_nil] at hu
      cases hu
      exact hself
  | cons step steps =>
      cases step with
      | key k => cases hu
      | index i =>
          obtain ⟨t, hi, hu⟩ := Option.bind_eq_some_iff.mp hu
          obtain ⟨hplain, hline, hnode⟩ := hitems i t hi steps u hu
          have hassoc : base ++ segments (.index i :: steps)
              = base ++ [Number.showNat i] ++ segments steps := by
            rw [List.append_assoc]
            rfl
          refine ⟨List.forall_mem_cons.mpr ⟨dotless_showNat i, hplain⟩, ?_, ?_⟩
          · rw [hassoc, hline]
          · rw [hassoc]
            exact hnode

/-- Only what the table has at `base` and below matters. -/
theorem Traces.of_agree (h : Traces doc table base t src rebuilt)
    (hagree : Origins.AgreeBelow base table' table) :
    Traces doc table' base t src rebuilt := by
  intro steps u hu
  obtain ⟨hplain, hline, v, hv, hnode⟩ := h steps u hu
  refine ⟨hplain, by rw [hagree _ hplain, hline], v, hv, ?_⟩
  rcases hnode with ⟨huv, hbelow⟩ | hrebuilt
  · refine .inl ⟨huv, fun r hr => ?_⟩
    rw [List.append_assoc, hagree _ (plain_append.mpr ⟨hplain, hr⟩), ← List.append_assoc]
    exact hbelow r hr
  · exact .inr hrebuilt

/-- A mapping in which one entry is changed and others may be taken out. -/
theorem Traces.update {p : List Tree.Step} {fields fields' : List (String × Tree)}
    {changed : String}
    (hplain : ∀ steps u, doc.tree.at? steps = some u → Plain (segments steps))
    (hp : doc.tree.at? p = some (.mapping fields))
    (hkept : ∀ k u, k ≠ changed → Ordered.get? k fields' = some u →
      Ordered.get? k fields = some u)
    (hframe : ∀ r, Plain r → ¬ [changed] <+: r →
      table.lineAt (segments p ++ r) = doc.origins.lineAt (segments p ++ r))
    (hnil : src p = p)
    (hsrc : ∀ k s, k ≠ changed → src (p ++ .key k :: s) = p ++ .key k :: s)
    (hself : rebuilt p (.mapping fields') (.mapping fields)) (hdotless : Dotless changed)
    (hchanged : ∀ u, Ordered.get? changed fields' = some u →
      Traces doc table (segments p ++ [changed]) u (fun s => src (p ++ .key changed :: s))
        (fun s => rebuilt (p ++ .key changed :: s))) :
    Traces doc table (segments p) (.mapping fields') (fun s => src (p ++ s))
      (fun s => rebuilt (p ++ s)) := by
  have hbelow : ∀ k, k ≠ changed → ∀ r, ¬ [changed] <+: k :: r := fun k hk r h =>
    hk (List.cons_prefix_cons.mp h).1.symm
  refine Traces.mapping ⟨fun _ hs => (nomatch hs), ?_, .mapping fields, ?_, .inr ?_⟩ ?_
  · have hline := hframe [] (fun _ hs => nomatch hs) fun h => absurd h.length_le (by simp)
    rw [List.append_nil] at hline
    rw [segments_nil, List.append_nil, List.append_nil, hnil, hline]
  · rw [List.append_nil, hnil, hp]
  · rw [List.append_nil]
    exact hself
  · intro k u hk
    by_cases hkey : k = changed
    · subst hkey
      exact ⟨hdotless, hchanged u hk⟩
    · have hat : doc.tree.at? (p ++ [.key k]) = some u := by
        rw [Tree.at?_append, hp, Option.bind_some, Tree.at?_key]
        exact hkept k u hkey hk
      have hk : Dotless k := by
        have h := hplain _ _ hat
        rw [segments_append, plain_append] at h
        exact h.2 k List.mem_cons_self
      refine ⟨hk, Traces.copy hplain hat (fun r hr => ?_) fun s u _ => ?_⟩
      · have h := hframe (k :: r) (List.forall_mem_cons.mpr ⟨hk, hr⟩) (hbelow k hkey r)
        rw [segments_append, List.append_assoc, List.append_assoc]
        exact h
      · rw [List.append_assoc]
        exact hsrc k s hkey

/-- The lineage of a document that was transformed twice. -/
theorem Traces.trans {doc' : Document} {src' : List Tree.Step → List Tree.Step}
    {rebuilt' rebuilt'' : List Tree.Step → Tree → Tree → Prop}
    (h : Traces doc doc'.origins [] doc'.tree src rebuilt)
    (h' : Traces doc' table [] t src' rebuilt')
    (hcopied : ∀ steps u w, rebuilt (src' steps) u w → rebuilt'' steps u w)
    (hrebuilt : ∀ steps u v w, rebuilt' steps u v → rebuilt'' steps u w) :
    Traces doc table [] t (fun steps => src (src' steps)) rebuilt'' := by
  intro steps u hu
  obtain ⟨hplain, hline', v, hv, hnode'⟩ := h' steps u hu
  obtain ⟨-, hline, w, hw, hnode⟩ := h (src' steps) v hv
  refine ⟨hplain, hline'.trans hline, w, hw, ?_⟩
  -- a copy of a copy is a copy; anything else has been rebuilt by one of the two
  rcases hnode' with ⟨rfl, hbelow'⟩ | hreb'
  · rcases hnode with ⟨rfl, hbelow⟩ | hreb
    · exact .inl ⟨rfl, fun r hr => (hbelow' r hr).trans (hbelow r hr)⟩
    · exact .inr (hcopied steps u w hreb)
  · exact .inr (hrebuilt steps u v w hreb')

end Traces

/-! ## Walks over the items of a sequence -/

/-- Transforms the items of a sequence from `index` on, one after another. -/
def walk (f : Nat → Tree → Origins → Tree × Origins) (index : Nat) :
    List Tree → Origins → List Tree × Origins
  | [], origins => ([], origins)
  | t :: ts, origins =>
      let here := f index t origins
      let later := walk f (index + 1) ts here.2
      (here.1 :: later.1, later.2)

/-- What every item keeps, of the trees and of the table, the loop keeps. -/
theorem walk_keeps {f : Nat → Tree → Origins → Tree × Origins} {P : Tree → Prop}
    {Q : Origins → Prop}
    (hf : ∀ i t table, P t → Q table → P (f i t table).1 ∧ Q (f i t table).2) (index : Nat)
    {ts : List Tree} {table : Origins} (hts : ∀ t ∈ ts, P t) (htable : Q table) :
    (∀ t ∈ (walk f index ts table).1, P t) ∧ Q (walk f index ts table).2 := by
  induction ts generalizing index table with
  | nil => exact ⟨List.forall_mem_nil _, htable⟩
  | cons t ts ih =>
      obtain ⟨ht, hts⟩ := List.forall_mem_cons.mp hts
      obtain ⟨hhere, htable'⟩ := hf index t table ht htable
      obtain ⟨hlater, hlast⟩ := ih (index + 1) hts htable'
      rw [walk]
      exact ⟨List.forall_mem_cons.mpr ⟨hhere, hlater⟩, hlast⟩

/-- The transformation of an item leaves the table as it is outside the region of the item. -/
def KeepsOutside (f : Nat → Tree → Origins → Tree × Origins) (region : Nat → List String) :
    Prop :=
  ∀ i t table, table.Distinct → (f i t table).2.Distinct ∧
    ∀ p, Plain p → ¬ region i <+: p → (f i t table).2.lineAt p = table.lineAt p

section Walk

variable {f : Nat → Tree → Origins → Tree × Origins} {region : Nat → List String}

theorem walk_frame (hf : KeepsOutside f region) (index : Nat) (ts : List Tree) {table : Origins}
    (hd : table.Distinct) :
    (walk f index ts table).2.Distinct ∧
      ∀ p, Plain p → (∀ k, index ≤ k → ¬ region k <+: p) →
        (walk f index ts table).2.lineAt p = table.lineAt p := by
  induction ts generalizing index table with
  | nil => exact ⟨hd, fun p _ _ => rfl⟩
  | cons t ts ih =>
      obtain ⟨hhere, hkeep⟩ := hf index t table hd
      obtain ⟨hlater, hframe⟩ := ih (index + 1) hhere
      refine ⟨hlater, fun p hp hk => ?_⟩
      exact (hframe p hp fun k hle => hk k (Nat.le_of_succ_le hle)).trans
        (hkeep p hp (hk index (Nat.le_refl index)))

/-- **Each item is transformed as if it were alone**: from a table that is the first one outside
the regions of the other items, and with the result that the last table has there. -/
theorem walk_spec (hf : KeepsOutside f region) {index k : Nat} {ts : List Tree}
    {table : Origins} (hd : table.Distinct) {u : Tree}
    (hu : (walk f index ts table).1[k]? = some u) :
    ∃ t table', ts[k]? = some t ∧ table'.Distinct ∧ u = (f (index + k) t table').1 ∧
      ∀ p, Plain p → (∀ k', k' ≠ index + k → ¬ region k' <+: p) →
        table'.lineAt p = table.lineAt p ∧
          (walk f index ts table).2.lineAt p = (f (index + k) t table').2.lineAt p := by
  induction ts generalizing index k table with
  | nil => cases hu
  | cons t ts ih =>
      obtain ⟨hhere, hkeep⟩ := hf index t table hd
      cases k with
      | zero =>
          obtain rfl : (f index t table).1 = u := Option.some.inj hu
          refine ⟨t, table, rfl, hd, rfl, fun p hp hother => ⟨rfl, ?_⟩⟩
          exact (walk_frame hf (index + 1) ts hhere).2 p hp fun k hle => hother k (by omega)
      | succ k =>
          -- the first item has changed only its own region, which is another one
          obtain ⟨t', table', ht', hd', hu', hagree⟩ := ih hhere hu
          rw [Nat.add_assoc, Nat.add_comm 1 k] at hu' hagree
          refine ⟨t', table', ht', hd', hu', fun p hp hother => ?_⟩
          obtain ⟨hbefore, hafter⟩ := hagree p hp hother
          exact ⟨hbefore.trans (hkeep p hp (hother index (by omega))), hafter⟩

end Walk

/-- A sequence whose items have been transformed one by one is traced when each item is, on a
table that is the first one outside the regions of the other items. -/
theorem Traces.of_walk {doc : Document} {table : Origins} {p : List Tree.Step}
    {src : List Tree.Step → List Tree.Step} {rebuilt : List Tree.Step → Tree → Tree → Prop}
    {f : Nat → Tree → Origins → Tree × Origins} {region : Nat → List String}
    {items : List Tree} (hf : KeepsOutside f region) (hd : table.Distinct)
    (hplain : Plain (segments p)) (hp : doc.tree.at? p = some (.sequence items))
    (hregion : ∀ k, segments p ++ [Number.showNat k] <+: region k)
    (hline : table.lineAt (segments p) = doc.origins.lineAt (segments p)) (hnil : src p = p)
    (hself : rebuilt p (.sequence (walk f 0 items table).1) (.sequence items))
    (hitem : ∀ i t table', doc.tree.at? (p ++ [.index i]) = some t → table'.Distinct →
      (∀ q, Plain q → (∀ k, k ≠ i → ¬ region k <+: q) → table'.lineAt q = table.lineAt q) →
      Traces doc (f i t table').2 (segments p ++ [Number.showNat i]) (f i t table').1
        (fun s => src (p ++ .index i :: s)) (fun s => rebuilt (p ++ .index i :: s))) :
    Traces doc (walk f 0 items table).2 (segments p) (.sequence (walk f 0 items table).1)
      (fun s => src (p ++ s)) (fun s => rebuilt (p ++ s)) := by
  refine Traces.sequence ⟨fun _ hs => (nomatch hs), ?_, .sequence items, ?_, .inr ?_⟩ ?_
  · rw [segments_nil, List.append_nil, List.append_nil, hnil, ← hline]
    refine (walk_frame hf 0 items hd).2 _ hplain fun k _ h => ?_
    -- a region is deeper than the sequence itself
    have hlen := ((hregion k).trans h).length_le
    rw [List.length_append, List.length_singleton] at hlen
    omega
  · rw [List.append_nil, hnil, hp]
  · rw [List.append_nil]
    exact hself
  · intro i u hu
    obtain ⟨t, before, ht, hd', rfl, hbefore⟩ := walk_spec hf hd hu
    rw [Nat.zero_add] at hbefore ⊢
    have hat : doc.tree.at? (p ++ [.index i]) = some t := by
      rw [Tree.at?_append, hp, Tree.bind_at?_index]
      exact ht
    refine Traces.of_agree (hitem i t before hat hd' fun q hq hother => (hbefore q hq hother).1)
      fun r hr => (hbefore _ (plain_append.mpr ⟨plain_append_showNat hplain i, hr⟩) ?_).2
    intro k hk h
    exact not_isPrefix_of_ne (List.prefix_append _ _) hk ((hregion k).trans h)

end SiteConf.Document
