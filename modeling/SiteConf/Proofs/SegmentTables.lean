import SiteConf.Proofs.Origins

set_option autoImplicit false

/-! # Tables keyed by segments

The origin table is keyed by texts and tells what lies below a path by comparing characters. Here
it is compared with a table whose keys are lists of segments: `Holds` relates the two.

* A subtree is made of the rows that extend a list of segments, and forgetting it leaves the
  others (`Holds.subtree_eq`, `Holds.removeSubtree`).
* A copy reads all entries of its source before it writes the first one, so it does not matter
  whether source and target overlap (`lineOf_copySubtree`, `lineOf_copySubtree_of_forall_ne`).
* A subtree that is forgotten and grafted again has its lines back (`lineOf_graft_removeSubtree`).

`operations_by_segments` puts them together. -/

namespace SiteConf.Origins

open KeyPath

/-! ## Tables with rows -/

/-- The table has the rows, in their order, each under the text of its segments. No list of
segments stands twice, and no segment holds a dot. -/
structure Holds (table : Origins) (rows : List (List String × Nat)) : Prop where
  entries : table.entries = rows.map fun r => (ofSegments r.1, r.2)
  plain : ∀ r ∈ rows, Plain r.1
  nodup : (rows.map Prod.fst).Nodup

section Holds

variable {table : Origins} {rows : List (List String × Nat)} {p s : List String}

theorem Holds.keys_eq (h : table.Holds rows) :
    Ordered.keys table.entries = (rows.map Prod.fst).map ofSegments := by
  rw [h.entries, Ordered.keys, List.map_map, List.map_map]
  rfl

theorem Holds.plain_of_mem (h : table.Holds rows) (hs : s ∈ rows.map Prod.fst) : Plain s := by
  obtain ⟨r, hr, rfl⟩ := List.mem_map.mp hs
  exact h.plain r hr

theorem Holds.distinct (h : table.Holds rows) : table.Distinct := by
  rw [Distinct, h.keys_eq]
  refine h.nodup.map_on fun s hs s' hs' heq => ?_
  exact ofSegments_injective (h.plain_of_mem hs) (h.plain_of_mem hs') heq

theorem Holds.ofSegments_mem_keys (h : table.Holds rows) (hs : Plain s) :
    ofSegments s ∈ Ordered.keys table.entries ↔ s ∈ rows.map Prod.fst := by
  rw [h.keys_eq]
  constructor
  · intro hmem
    obtain ⟨s', hs', heq⟩ := List.mem_map.mp hmem
    rw [← ofSegments_injective (h.plain_of_mem hs') hs heq]
    exact hs'
  · exact fun hmem => List.mem_map_of_mem hmem

/-- A table whose keys are the texts of different lists of segments has rows with these lists. -/
theorem exists_holds {segments : List (List String)}
    (hkeys : Ordered.keys table.entries = segments.map ofSegments)
    (hplain : ∀ s ∈ segments, Plain s) (hnodup : segments.Nodup) :
    ∃ rows, table.Holds rows ∧ rows.map Prod.fst = segments := by
  have hlength : segments.length = (table.entries.map Prod.snd).length := by
    have h := congrArg List.length hkeys
    rw [Ordered.keys, List.length_map, List.length_map] at h
    rw [List.length_map, h]
  have hfst : (segments.zip (table.entries.map Prod.snd)).map Prod.fst = segments :=
    List.map_fst_zip hlength.le
  refine ⟨segments.zip (table.entries.map Prod.snd), ⟨?_, ?_, by rw [hfst]; exact hnodup⟩, hfst⟩
  · calc table.entries
        = (Ordered.keys table.entries).zip (table.entries.map Prod.snd) := by
          rw [Ordered.keys, List.zip_map']
          simp
      _ = (segments.map ofSegments).zip (table.entries.map Prod.snd) := by rw [hkeys]
      _ = (segments.zip (table.entries.map Prod.snd)).map
            fun r => (ofSegments r.1, r.2) := by
          rw [List.zip_map_left]
          rfl
  · intro r hr
    exact hplain _ (List.of_mem_zip hr).1

/-- The line of a path is the line of the row with its segments. -/
theorem Holds.lineOf_eq (h : table.Holds rows) (hs : Plain s) :
    table.lineOf (ofSegments s) = rows.lookup s := by
  have hplain := h.plain
  rw [lineOf, h.entries]
  clear h
  induction rows with
  | nil => rfl
  | cons r rows ih =>
      obtain ⟨hr, hrows⟩ := List.forall_mem_cons.mp hplain
      rw [List.map_cons, Ordered.get?_cons, ih hrows, List.lookup]
      by_cases hrs : s = r.1
      · subst hrs
        simp
      · have hne : ofSegments r.1 ≠ ofSegments s :=
          fun heq => hrs (ofSegments_injective hr hs heq).symm
        rw [if_neg hne, beq_false_of_ne hrs]

/-! ## Subtrees -/

theorem under?_ofSegments_eq (hp : Plain p) (hs : Plain s) :
    under? (ofSegments p) (ofSegments s)
      = if p <+: s then some (ofSegments (s.drop p.length)) else none := by
  by_cases hps : p <+: s
  · obtain ⟨r, rfl⟩ := hps
    rw [if_pos (List.prefix_append p r), List.drop_left]
    exact (under?_ofSegments hp hs).mpr ⟨r, rfl, rfl⟩
  · rw [if_neg hps, Option.eq_none_iff_forall_not_mem]
    intro rest hrest
    obtain ⟨r, hr, -⟩ := (under?_ofSegments hp hs).mp hrest
    exact hps ⟨r, hr.symm⟩

/-- **Below a path are the rows that extend its segments.** -/
theorem Holds.subtree_eq (h : table.Holds rows) (hp : Plain p) :
    table.subtree (ofSegments p)
      = (rows.filter fun r => p <+: r.1).map fun r => (ofSegments (r.1.drop p.length), r.2) := by
  have hplain := h.plain
  rw [subtree, h.entries]
  clear h
  induction rows with
  | nil => rfl
  | cons r rows ih =>
      obtain ⟨hr, hrows⟩ := List.forall_mem_cons.mp hplain
      rw [List.map_cons, List.filterMap_cons, ih hrows, under?_ofSegments_eq hp hr]
      by_cases hpr : p <+: r.1
      · rw [if_pos hpr, List.filter_cons_of_pos (by simpa using hpr)]
        rfl
      · rw [if_neg hpr, List.filter_cons_of_neg (by simpa using hpr)]
        rfl

/-- Forgetting a subtree leaves the other rows, in their order. -/
theorem Holds.removeSubtree (h : table.Holds rows) (hp : Plain p) :
    (table.removeSubtree (ofSegments p)).Holds (rows.filter fun r => ¬ p <+: r.1) where
  entries := by
    have hplain := h.plain
    show table.entries.filter (fun e => (under? (ofSegments p) e.1).isNone) = _
    rw [h.entries]
    clear h
    induction rows with
    | nil => rfl
    | cons r rows ih =>
        obtain ⟨hr, hrows⟩ := List.forall_mem_cons.mp hplain
        have hunder := under?_ofSegments_eq hp hr
        by_cases hpr : p <+: r.1
        · rw [if_pos hpr] at hunder
          rw [List.map_cons, List.filter_cons_of_neg (by simp [hunder]),
            List.filter_cons_of_neg (by simpa using hpr), ih hrows]
        · rw [if_neg hpr] at hunder
          rw [List.map_cons, List.filter_cons_of_pos (by simp [hunder]),
            List.filter_cons_of_pos (by simpa using hpr), ih hrows, List.map_cons]
  plain r hr := h.plain r (List.mem_of_mem_filter hr)
  nodup := h.nodup.sublist (List.filter_sublist.map _)

/-! ## Grafts -/

/-- Recording a line keeps the rows in their places; a new list of segments comes last. -/
theorem Holds.record (h : table.Holds rows) (hs : Plain s) (line : Nat) :
    ∃ rows', (table.record (ofSegments s) line).Holds rows' ∧
      rows.map Prod.fst <+: rows'.map Prod.fst := by
  by_cases hmem : s ∈ rows.map Prod.fst
  · have hkeys : Ordered.keys (table.record (ofSegments s) line).entries
        = (rows.map Prod.fst).map ofSegments := by
      rw [← h.keys_eq]
      exact Ordered.keys_insert_of_mem line ((h.ofSegments_mem_keys hs).mpr hmem)
    obtain ⟨rows', hrows', hfst⟩ := exists_holds hkeys (fun _ => h.plain_of_mem) h.nodup
    exact ⟨rows', hrows', by rw [hfst]⟩
  · refine ⟨rows ++ [(s, line)], ⟨?_, ?_, ?_⟩, by simp⟩
    · have hnew : ofSegments s ∉ Ordered.keys table.entries :=
        fun hkey => hmem ((h.ofSegments_mem_keys hs).mp hkey)
      rw [Origins.record, Ordered.insert_of_not_mem line hnew, h.entries, List.map_append]
      rfl
    · exact List.forall_mem_append.mpr ⟨h.plain, List.forall_mem_singleton.mpr hs⟩
    · rw [List.map_append, List.map_cons, List.map_nil]
      refine List.nodup_append.mpr ⟨h.nodup, List.nodup_singleton s, ?_⟩
      rintro a ha b hb rfl
      obtain rfl : a = s := List.mem_singleton.mp hb
      exact hmem ha

theorem Holds.graft {q : List String} (hq : Plain q) {parts : List (String × Nat)}
    (hparts : ∀ e ∈ parts, ∃ r, Plain r ∧ e.1 = ofSegments r) (h : table.Holds rows) :
    ∃ rows', (table.graft (ofSegments q) parts).Holds rows' ∧
      rows.map Prod.fst <+: rows'.map Prod.fst := by
  induction parts generalizing table rows with
  | nil => exact ⟨rows, h, List.prefix_rfl⟩
  | cons e parts ih =>
      obtain ⟨⟨r, hr, hname⟩, hmore⟩ := List.forall_mem_cons.mp hparts
      obtain ⟨rows₁, hrows₁, hfst₁⟩ := h.record (plain_append.mpr ⟨hq, hr⟩) e.2
      obtain ⟨rows₂, hrows₂, hfst₂⟩ := ih hmore hrows₁
      refine ⟨rows₂, ?_, hfst₁.trans hfst₂⟩
      rw [ofSegments_append, ← hname] at hrows₂
      exact hrows₂

/-- A copy again has rows; those that were there keep their places. -/
theorem Holds.copySubtree (h : table.Holds rows) (hp : Plain p) {q : List String} (hq : Plain q) :
    ∃ rows', (table.copySubtree (ofSegments p) (ofSegments q)).Holds rows' ∧
      rows.map Prod.fst <+: rows'.map Prod.fst := by
  refine h.graft hq fun e he => ?_
  rw [h.subtree_eq hp] at he
  obtain ⟨r, hr, rfl⟩ := List.mem_map.mp he
  have hrow := h.plain r (List.mem_of_mem_filter hr)
  exact ⟨r.1.drop p.length, fun s hs => hrow s (List.mem_of_mem_drop hs), rfl⟩

end Holds

/-! ## Lines after a copy -/

section Copy

variable {table : Origins} (h : table.Distinct)
include h

/-- What is copied has the line of its source, also where the copy has overwritten the source. -/
theorem lineOf_copySubtree (source target : String) {rest : String}
    (hrest : rest ∈ Ordered.keys (table.subtree source)) :
    (table.copySubtree source target).lineOf (target ++ rest) = table.lineOf (source ++ rest) := by
  obtain ⟨hboundary, hkey⟩ := mem_keys_subtree hrest
  obtain ⟨line, hline⟩ : ∃ line, table.lineOf (source ++ rest) = some line := by
    rw [← Option.ne_none_iff_exists', lineOf, ne_eq, Ordered.get?_eq_none_iff, not_not]
    exact hkey
  rw [copySubtree, lineOf_graft_append (nodup_subtree h source), get?_subtree source hboundary,
    hline]
  rfl

/-- Every other path keeps its line, or has none as before. -/
theorem lineOf_copySubtree_of_forall_ne (source target : String) {path : String}
    (hpath : ∀ rest ∈ Ordered.keys (table.subtree source), path ≠ target ++ rest) :
    (table.copySubtree source target).lineOf path = table.lineOf path :=
  lineOf_graft_of_forall_ne (nodup_subtree h source)
    (fun rest hrest heq => hpath rest hrest heq.symm) table

/-- **A subtree that is forgotten and grafted again is there again.** -/
theorem lineOf_graft_removeSubtree (base path : String) :
    ((table.removeSubtree base).graft base (table.subtree base)).lineOf path
      = table.lineOf path := by
  have hnodup := nodup_subtree h base
  by_cases hpath : ∃ rest ∈ Ordered.keys (table.subtree base), base ++ rest = path
  · obtain ⟨rest, hrest, rfl⟩ := hpath
    have hboundary := (mem_keys_subtree hrest).1
    have hforgotten : (table.removeSubtree base).lineOf (base ++ rest) = none := by
      rw [lineOf_removeSubtree, under?_eq_some_iff.mpr ⟨rfl, hboundary⟩]
      rfl
    rw [lineOf_graft_append hnodup, get?_subtree base hboundary, hforgotten, Option.or_none]
  · have hne : ∀ rest ∈ Ordered.keys (table.subtree base), base ++ rest ≠ path :=
      fun rest hrest heq => hpath ⟨rest, hrest, heq⟩
    rw [lineOf_graft_of_forall_ne hnodup hne, lineOf_removeSubtree]
    rcases hunder : under? base path with _ | rest
    · rfl
    · -- the path lies below, so it would be in the subtree if it were recorded
      obtain ⟨rfl, hboundary⟩ := under?_eq_some_iff.mp hunder
      have hnone : table.lineOf (base ++ rest) = none := by
        rw [lineOf, Ordered.get?_eq_none_iff]
        exact fun hkey => hne rest (mem_keys_subtree_iff.mpr ⟨hboundary, hkey⟩) rfl
      rw [hnone]
      rfl

end Copy

/-! ## All operations -/

/-- **The table by texts behaves like the table by segments.** Lines are found by segments. Below
a path are exactly the rows that extend its segments, in their order, each under the rest of its
segments, and forgetting them leaves exactly the others. After a copy what was below the source is
found below the target with its old line, all other paths have the lines they had, or none, and
the rows that were there keep their places; this holds for any source and target, also if one lies
below the other. A subtree that is forgotten and grafted again leaves every path its line. -/
theorem operations_by_segments {table : Origins} {rows : List (List String × Nat)}
    (h : table.Holds rows) {p q : List String} (hp : Plain p) (hq : Plain q) :
    let parts := table.subtree (ofSegments p)
    let copied := table.copySubtree (ofSegments p) (ofSegments q)
    (∀ s, Plain s → table.lineOf (ofSegments s) = rows.lookup s) ∧
      parts = ((rows.filter fun r => p <+: r.1).map
        fun r => (ofSegments (r.1.drop p.length), r.2)) ∧
      (table.removeSubtree (ofSegments p)).Holds (rows.filter fun r => ¬ p <+: r.1) ∧
      (∀ rest ∈ Ordered.keys parts,
        copied.lineOf (ofSegments q ++ rest) = table.lineOf (ofSegments p ++ rest)) ∧
      (∀ path, (∀ rest ∈ Ordered.keys parts, path ≠ ofSegments q ++ rest) →
        copied.lineOf path = table.lineOf path) ∧
      (∃ rows', copied.Holds rows' ∧ rows.map Prod.fst <+: rows'.map Prod.fst) ∧
      ∀ path, ((table.removeSubtree (ofSegments p)).graft (ofSegments p) parts).lineOf path
        = table.lineOf path := by
  intro parts copied
  refine ⟨fun s hs => h.lineOf_eq hs, h.subtree_eq hp, h.removeSubtree hp, fun rest hrest => ?_,
    fun path hpath => ?_, h.copySubtree hp hq, fun path => ?_⟩
  · exact lineOf_copySubtree h.distinct _ _ hrest
  · exact lineOf_copySubtree_of_forall_ne h.distinct _ _ hpath
  · exact lineOf_graft_removeSubtree h.distinct _ path

/-- Rows whose texts share their first characters more often than their segments. -/
def similarRows : List (List String × Nat) :=
  [(["a"], 1), (["a", "1"], 2), (["a", "10"], 3), (["ab"], 4), (["a", "1", "x"], 5)]

def similarTable : Origins :=
  ⟨similarRows.map fun r => (ofSegments r.1, r.2)⟩

/-- What is below `.a` is copied below `.a.1`, which is itself below `.a`: there the copy finds the
line that `.a.1` had before. Below `.a.1` there is neither `.a.10` nor `.ab`. -/
theorem operations_by_segments_similarTable :
    similarTable.Holds similarRows ∧ Plain ["a"] ∧ Plain ["a", "1"] ∧
      similarTable.subtree ".a.1" = [("", 2), (".x", 5)] ∧
      (similarTable.copySubtree ".a" ".a.1").lineOf ".a.1" = some 1 ∧
      (similarTable.copySubtree ".a" ".a.1").lineOf ".a.1.1" = some 2 ∧
      (similarTable.copySubtree ".a" ".a.1").lineOf ".ab" = some 4 ∧
      ((similarTable.removeSubtree ".a").graft ".a" (similarTable.subtree ".a")).lineOf ".a.1.x"
        = some 5 := by
  have hholds : similarTable.Holds similarRows :=
    ⟨rfl, by simp [similarRows, Plain, Dotless], by decide⟩
  have ha : Plain ["a"] := by simp [Plain, Dotless]
  have ha1 : Plain ["a", "1"] := by simp [Plain, Dotless]
  obtain ⟨-, hbelow, -⟩ := operations_by_segments hholds ha1 ha
  obtain ⟨-, -, -, hcopied, hkept, -, hrestored⟩ := operations_by_segments hholds ha ha1
  refine ⟨hholds, ha, ha1, hbelow.trans (by decide), (hcopied "" (by decide)).trans (by decide),
    (hcopied ".1" (by decide)).trans (by decide), (hkept ".ab" (by decide)).trans (by decide),
    (hrestored ".a.1.x").trans (by decide)⟩

end SiteConf.Origins
