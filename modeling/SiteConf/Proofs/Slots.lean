import SiteConf.Proofs.Headers

set_option autoImplicit false

/-! # The order of recorded headers

When the headers of a location are recorded, all entries at and below their key are taken out of
the table and new ones are put at its end. The new entries are the *block* of a slot: the line of
the key, then header after header the lines of its nodes. `entries_recordHeaders` gives the whole
table, with its order.

A block can be read back. In a table with nothing else below the path of the slot, the line of the
path and the subtrees of the items are those of the slot (`lineOf_of_block`, `headersOf_of_block`).
Recording what has been read back moves the block to the end and changes nothing in it. -/

namespace SiteConf

open KeyPath

/-! ## Paths below a path -/

namespace Origins

/-- The path is the base or a path below it. -/
def Below (base path : String) : Prop :=
  (under? base path).isSome = true

instance (base path : String) : Decidable (Below base path) :=
  inferInstanceAs (Decidable (_ = true))

theorem below_iff {base path : String} :
    Below base path ↔ ∃ rest, path = base ++ rest ∧ Boundary rest.toList := by
  rw [Below, Option.isSome_iff_exists]
  exact exists_congr fun rest => under?_eq_some_iff

theorem under?_eq_none_iff {base path : String} : under? base path = none ↔ ¬ Below base path := by
  rw [Below, Bool.not_eq_true, Option.isSome_eq_false_iff, Option.isNone_iff_eq_none]

theorem not_below_of_mem_removeSubtree {base : String} {table : Origins} {e : String × Nat}
    (h : e ∈ (table.removeSubtree base).entries) : ¬ Below base e.1 := by
  rw [removeSubtree, List.mem_filter, Option.isNone_iff_eq_none] at h
  exact under?_eq_none_iff.mp h.2

theorem below_append (base : String) {rest : String} (h : Boundary rest.toList) :
    Below base (base ++ rest) :=
  below_iff.mpr ⟨rest, rfl, h⟩

theorem below_self (base : String) : Below base base := by
  have h : Below base (base ++ "") := below_append base (.inl rfl)
  rwa [String.append_empty] at h

theorem Below.trans {a b c : String} (hab : Below a b) (hbc : Below b c) : Below a c := by
  obtain ⟨r, rfl, hr⟩ := below_iff.mp hab
  obtain ⟨s, rfl, hs⟩ := below_iff.mp hbc
  rw [String.append_assoc]
  refine below_append a ?_
  rw [String.toList_append]
  rcases hr with hr | ⟨rest, hr⟩
  · rw [hr]
    exact hs
  · rw [hr]
    exact .inr ⟨rest ++ s.toList, rfl⟩

theorem toList_child (path key : String) :
    (child path key).toList = path.toList ++ '.' :: key.toList := by
  rw [child, String.toList_append, String.toList_append, List.append_assoc]
  rfl

theorem below_child (path key : String) : Below path (child path key) := by
  rw [child, String.append_assoc]
  refine below_append path (.inr ⟨key.toList, ?_⟩)
  rw [String.toList_append]
  rfl

theorem below_item (path : String) (index : Nat) : Below path (item path index) :=
  below_child path _

/-- A path is not below its children. -/
theorem not_below_child (path key : String) : ¬ Below (child path key) path := by
  intro h
  obtain ⟨rest, hpath, -⟩ := below_iff.mp h
  have hlen := congrArg (fun s => s.toList.length) hpath
  simp only [String.toList_append, toList_child, List.length_append, List.length_cons] at hlen
  omega

/-- No path is below both. -/
def Apart (p q : String) : Prop :=
  ∀ x, Below p x → ¬ Below q x

theorem Apart.symm {p q : String} (h : Apart p q) : Apart q p :=
  fun x hq hp => h x hp hq

theorem Apart.below {p q p' q' : String} (h : Apart p q) (hp : Below p p') (hq : Below q q') :
    Apart p' q' :=
  fun x hpx hqx => h x (hp.trans hpx) (hq.trans hqx)

/-- Different children of a node are apart. -/
theorem apart_child (path : String) {k k' : String} (hk : Dotless k) (hk' : Dotless k')
    (hne : k ≠ k') : Apart (child path k) (child path k') := by
  intro x h h'
  obtain ⟨r, rfl, hr⟩ := below_iff.mp h
  obtain ⟨s, heq, hs⟩ := below_iff.mp h'
  have hchars := congrArg String.toList heq
  rw [String.toList_append, String.toList_append, toList_child, toList_child,
    List.append_assoc, List.append_assoc, List.append_cancel_left_eq, List.cons_append,
    List.cons_append, List.cons.injEq] at hchars
  obtain ⟨hkeys, -⟩ := eq_of_append_boundary hk hk' hr hs hchars.2
  exact hne (String.toList_injective hkeys)

theorem apart_item (path : String) {i j : Nat} (hne : i ≠ j) :
    Apart (item path i) (item path j) :=
  apart_child path (dotless_showNat i) (dotless_showNat j) fun h =>
    hne (Number.showNat_injective h)

end Origins

namespace Document

open Origins

/-! ## Blocks -/

/-- The headers that are recorded at a path, with the line of their key. -/
structure Slot where
  path : String
  line : LineRef
  headers : List Header

/-- The entries of the headers from item `n` on. -/
def headerEntries (path : String) (n : Nat) (headers : List Header) : List (String × Nat) :=
  (headers.zipIdx n).flatMap fun h => h.1.lines.map fun e => (item path h.2 ++ e.1, e.2)

/-- The entries that are recorded for a slot. -/
def Slot.block (s : Slot) : List (String × Nat) :=
  s.line.toList.map (fun n => (s.path, n)) ++ headerEntries s.path 0 s.headers

/-- The lines of all headers can be grafted. -/
def Slot.Cut (s : Slot) : Prop :=
  ∀ header ∈ s.headers, Origins.Cut header.lines

theorem headerEntries_cons (path : String) (n : Nat) (header : Header) (headers : List Header) :
    headerEntries path n (header :: headers)
      = header.lines.map (fun e => (item path n ++ e.1, e.2))
        ++ headerEntries path (n + 1) headers := by
  rw [headerEntries, List.zipIdx_cons, List.flatMap_cons]
  rfl

/-- The entries of a header are below its item. -/
theorem below_of_mem_lines {path : String} {n : Nat} {lines : List (String × Nat)}
    (hcut : Origins.Cut lines) {e : String × Nat}
    (he : e ∈ lines.map fun e => (item path n ++ e.1, e.2)) : Below (item path n) e.1 := by
  obtain ⟨part, hpart, rfl⟩ := List.mem_map.mp he
  exact below_append _ (hcut.boundary part.1 (List.mem_map_of_mem hpart))

theorem exists_below_of_mem_headerEntries {path : String} {n : Nat} {headers : List Header}
    (hcut : ∀ header ∈ headers, Origins.Cut header.lines) {e : String × Nat}
    (he : e ∈ headerEntries path n headers) : ∃ k, n ≤ k ∧ Below (item path k) e.1 := by
  induction headers generalizing n with
  | nil => cases he
  | cons header headers ih =>
      rw [headerEntries_cons, List.mem_append] at he
      rcases he with he | he
      · exact ⟨n, Nat.le_refl n, below_of_mem_lines (hcut header List.mem_cons_self) he⟩
      · obtain ⟨k, hk, hbelow⟩ :=
          ih (fun header h => hcut header (List.mem_cons_of_mem _ h)) he
        exact ⟨k, by omega, hbelow⟩

/-- A block lies below the path of its slot. -/
theorem Slot.below_of_mem_block {s : Slot} (hcut : s.Cut) {e : String × Nat} (he : e ∈ s.block) :
    Below s.path e.1 := by
  rw [block, List.mem_append] at he
  rcases he with he | he
  · obtain ⟨n, -, rfl⟩ := List.mem_map.mp he
    exact below_self s.path
  · obtain ⟨k, -, hbelow⟩ := exists_below_of_mem_headerEntries hcut he
    exact (below_item s.path k).trans hbelow

/-! ## Recording a block -/

/-- Headers that are grafted to items of which the table has nothing come to its end. -/
theorem entries_foldl_graft {path : String} {n : Nat} {headers : List Header}
    (hcut : ∀ header ∈ headers, Origins.Cut header.lines) {table : Origins}
    (hfresh : ∀ k, n ≤ k → ∀ e ∈ table.entries, ¬ Below (item path k) e.1) :
    ((headers.zipIdx n).foldl (fun o h => o.graft (item path h.2) h.1.lines) table).entries
      = table.entries ++ headerEntries path n headers := by
  induction headers generalizing n table with
  | nil => exact (List.append_nil _).symm
  | cons header headers ih =>
      have hheader : Origins.Cut header.lines := hcut header List.mem_cons_self
      have hgraft : (table.graft (item path n) header.lines).entries
          = table.entries ++ header.lines.map fun e => (item path n ++ e.1, e.2) := by
        rw [entries_graft]
        refine Ordered.insertAll_of_not_mem (nodup_map_append _ hheader.nodup) fun k hk hmem => ?_
        obtain ⟨e, he, rfl⟩ := List.mem_map.mp hk
        obtain ⟨e', he', heq⟩ := List.mem_map.mp hmem
        -- what is grafted is below the item, and the table has nothing there
        refine hfresh n (Nat.le_refl n) e' he' ?_
        rw [heq]
        exact below_of_mem_lines hheader he
      rw [List.zipIdx_cons, List.foldl_cons, ih, hgraft, headerEntries_cons, List.append_assoc]
      · exact fun header h => hcut header (List.mem_cons_of_mem _ h)
      · intro k hk e he
        rw [hgraft, List.mem_append] at he
        rcases he with he | he
        · exact hfresh k (by omega) e he
        · exact apart_item path (by omega) e.1 (below_of_mem_lines hheader he)

/-- Recording headers starts from a table without all that was at or below their path, in which
the path has the line of the key. -/
theorem exists_rekeyed (s : Slot) (table : Origins) :
    ∃ keyed : Origins,
      keyed.entries = (table.removeSubtree s.path).entries
        ++ s.line.toList.map (fun n => (s.path, n)) ∧
      recordHeaders s.path s.line s.headers table
        = s.headers.zipIdx.foldl (fun o h => o.graft (item s.path h.2) h.1.lines) keyed := by
  cases s.line with
  | none => exact ⟨table.removeSubtree s.path, (List.append_nil _).symm, rfl⟩
  | some n =>
      refine ⟨(table.removeSubtree s.path).record s.path n, ?_, rfl⟩
      refine Ordered.insert_of_not_mem n fun hmem => ?_
      obtain ⟨e, he, hpath⟩ := List.mem_map.mp hmem
      have hout := not_below_of_mem_removeSubtree he
      rw [hpath] at hout
      exact hout (below_self s.path)

/-- **What recording headers does to the table:** all at and below their path goes, and the block
comes to the end. -/
theorem entries_recordHeaders {s : Slot} (hcut : s.Cut) (table : Origins) :
    (recordHeaders s.path s.line s.headers table).entries
      = (table.removeSubtree s.path).entries ++ s.block := by
  obtain ⟨keyed, hkeyed, hrun⟩ := exists_rekeyed s table
  rw [hrun, entries_foldl_graft hcut, hkeyed, List.append_assoc]
  · rfl
  · intro k _ e he
    rw [hkeyed, List.mem_append] at he
    rcases he with he | he
    · exact fun hbelow =>
        not_below_of_mem_removeSubtree he ((below_item s.path k).trans hbelow)
    · obtain ⟨n, -, rfl⟩ := List.mem_map.mp he
      exact not_below_child s.path _

/-! ## Reading a block back -/

theorem subtree_append (base : String) (xs ys : List (String × Nat)) :
    subtree base ⟨xs ++ ys⟩ = subtree base ⟨xs⟩ ++ subtree base ⟨ys⟩ :=
  List.filterMap_append

theorem subtree_eq_nil {base : String} {xs : List (String × Nat)}
    (h : ∀ e ∈ xs, ¬ Below base e.1) : subtree base ⟨xs⟩ = [] := by
  refine List.filterMap_eq_nil_iff.mpr fun e he => ?_
  rw [under?_eq_none_iff.mpr (h e he)]
  rfl

theorem subtree_map_append (base : String) {lines : List (String × Nat)}
    (hcut : Origins.Cut lines) :
    subtree base ⟨lines.map fun e => (base ++ e.1, e.2)⟩ = lines := by
  rw [subtree, List.filterMap_map]
  refine (List.filterMap_congr fun e he => ?_).trans List.filterMap_some
  have hunder : under? base (base ++ e.1) = some e.1 :=
    under?_eq_some_iff.mpr ⟨rfl, hcut.boundary e.1 (List.mem_map_of_mem he)⟩
  show (under? base (base ++ e.1)).map (fun rest => (rest, e.2)) = some e
  rw [hunder]
  rfl

/-- The lines of each header are found at its item. -/
theorem subtree_headerEntries (path : String) (n : Nat) {headers : List Header}
    (hcut : ∀ header ∈ headers, Origins.Cut header.lines) {h : Nat} {header : Header}
    (hheader : headers[h]? = some header) :
    subtree (item path (n + h)) ⟨headerEntries path n headers⟩ = header.lines := by
  induction headers generalizing n h with
  | nil => cases hheader
  | cons first headers ih =>
      have hfirst : Origins.Cut first.lines := hcut first List.mem_cons_self
      have hrest : ∀ header ∈ headers, Origins.Cut header.lines :=
        fun header hmem => hcut header (List.mem_cons_of_mem _ hmem)
      rw [headerEntries_cons, subtree_append]
      cases h with
      | zero =>
          obtain rfl : first = header := Option.some.inj hheader
          rw [Nat.add_zero, subtree_map_append _ hfirst, subtree_eq_nil, List.append_nil]
          -- the later headers have later items
          intro e he hbelow
          obtain ⟨k, hk, hbelow'⟩ := exists_below_of_mem_headerEntries hrest he
          exact apart_item path (by omega) e.1 hbelow hbelow'
      | succ h =>
          -- the first header lies at another item
          rw [subtree_eq_nil, List.nil_append, ← Nat.add_assoc, Nat.add_right_comm,
            ih (n + 1) hrest hheader]
          intro e he hbelow
          exact apart_item path (by omega) e.1 hbelow (below_of_mem_lines hfirst he)

section Block

variable {s : Slot} {table : Origins} {before after : List (String × Nat)}

theorem lineOf_of_block (hcut : s.Cut) (htable : table.entries = before ++ s.block ++ after)
    (hbefore : ∀ e ∈ before, ¬ Below s.path e.1) (hafter : ∀ e ∈ after, ¬ Below s.path e.1) :
    table.lineOf s.path = s.line := by
  have hnone : ∀ es : List (String × Nat), (∀ e ∈ es, e.1 ≠ s.path) →
      Ordered.get? s.path es = none := by
    intro es hes
    refine Ordered.get?_eq_none_iff.mpr fun hmem => ?_
    obtain ⟨e, he, hpath⟩ := List.mem_map.mp hmem
    exact hes e he hpath
  have hitems : ∀ e ∈ headerEntries s.path 0 s.headers, e.1 ≠ s.path := by
    intro e he hpath
    obtain ⟨k, -, hbelow⟩ := exists_below_of_mem_headerEntries hcut he
    rw [hpath] at hbelow
    exact not_below_child s.path _ hbelow
  have hout : ∀ es : List (String × Nat), (∀ e ∈ es, ¬ Below s.path e.1) →
      ∀ e ∈ es, e.1 ≠ s.path := by
    intro es hes e he hpath
    exact hes e he (hpath ▸ below_self s.path)
  rw [lineOf, htable, Ordered.get?_append, Ordered.get?_append, hnone before (hout _ hbefore),
    hnone after (hout _ hafter), Slot.block, Ordered.get?_append, hnone _ hitems]
  cases hline : s.line with
  | none => rfl
  | some n =>
      show (((if s.path = s.path then some n else none).or none).or none) = some n
      rw [if_pos rfl]
      rfl

/-- Without what is below the slot, the rest of the table stays. -/
theorem removeSubtree_of_block (hcut : s.Cut)
    (htable : table.entries = before ++ s.block ++ after)
    (hbefore : ∀ e ∈ before, ¬ Below s.path e.1) (hafter : ∀ e ∈ after, ¬ Below s.path e.1) :
    (table.removeSubtree s.path).entries = before ++ after := by
  have hkept : ∀ es : List (String × Nat), (∀ e ∈ es, ¬ Below s.path e.1) →
      es.filter (fun e => (under? s.path e.1).isNone) = es := by
    intro es hes
    refine List.filter_eq_self.mpr fun e he => ?_
    rw [under?_eq_none_iff.mpr (hes e he)]
    rfl
  have hgone : s.block.filter (fun e => (under? s.path e.1).isNone) = [] := by
    refine List.filter_eq_nil_iff.mpr fun e he => ?_
    rw [Option.isNone_iff_eq_none, under?_eq_none_iff, not_not]
    exact s.below_of_mem_block hcut he
  rw [removeSubtree, htable, List.filter_append, List.filter_append, hkept before hbefore,
    hkept after hafter, hgone, List.append_nil]

theorem headersOf_of_block (hcut : s.Cut) (htable : table.entries = before ++ s.block ++ after)
    (hbefore : ∀ e ∈ before, ¬ Below s.path e.1) (hafter : ∀ e ∈ after, ¬ Below s.path e.1)
    {owner : Tree} {path : String} (hpath : child path headersKey = s.path)
    (hitems : Tree.itemsOf (owner.get? headersKey) = s.headers.map (·.value)) :
    headersOf owner path table = s.headers := by
  have hsubtree : ∀ h header, s.headers[h]? = some header →
      table.subtree (item s.path h) = header.lines := by
    intro h header hheader
    have hbelow : ∀ es : List (String × Nat), (∀ e ∈ es, ¬ Below s.path e.1) →
        ∀ e ∈ es, ¬ Below (item s.path h) e.1 :=
      fun es hes e he hitem => hes e he ((below_item s.path h).trans hitem)
    have hline : ∀ e ∈ s.line.toList.map (fun n => (s.path, n)), ¬ Below (item s.path h) e.1 := by
      intro e he
      obtain ⟨n, -, rfl⟩ := List.mem_map.mp he
      exact not_below_child s.path _
    obtain ⟨entries⟩ := table
    obtain rfl : entries = before ++ s.block ++ after := htable
    rw [subtree_append, subtree_append, subtree_eq_nil (hbelow _ hbefore),
      subtree_eq_nil (hbelow _ hafter), Slot.block, subtree_append, subtree_eq_nil hline,
      List.nil_append, List.nil_append, List.append_nil]
    have hread := subtree_headerEntries s.path 0 hcut hheader
    rw [Nat.zero_add] at hread
    exact hread
  rw [headersOf, hpath, hitems]
  refine List.ext_getElem (by simp) fun h h₁ h₂ => ?_
  have hread := hsubtree h s.headers[h] (List.getElem?_eq_getElem h₂)
  simp [hread]

end Block

end Document

end SiteConf
