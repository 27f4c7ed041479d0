import SiteConf.Proofs.KeyPath
import SiteConf.Proofs.Ordered

set_option autoImplicit false

/-! # The origin table by segments

The operations on origin tables, read as operations on a function from lists of segments to
lines: `lineAt` is that function. A table is distinct when no path is recorded twice; grafting a
subtree reads the entries of a table one after another, so its laws need that. -/

namespace SiteConf.Origins

open KeyPath

/-! ## Distinct tables -/

def Distinct (table : Origins) : Prop :=
  (Ordered.keys table.entries).Nodup

theorem Distinct.record {table : Origins} (h : table.Distinct) (path : String) (line : Nat) :
    (table.record path line).Distinct :=
  Ordered.nodup_insert path line h

theorem Distinct.removeSubtree {table : Origins} (h : table.Distinct) (base : String) :
    (table.removeSubtree base).Distinct :=
  Ordered.nodup_filter _ h

theorem Distinct.graft {table : Origins} (h : table.Distinct) (base : String)
    (parts : List (String × Nat)) : (table.graft base parts).Distinct := by
  induction parts generalizing table with
  | nil => exact h
  | cons e parts ih => exact ih (h.record _ _)

/-! ## Lines by path -/

theorem lineOf_record (path q : String) (line : Nat) (table : Origins) :
    (table.record path line).lineOf q = if path = q then some line else table.lineOf q :=
  Ordered.get?_insert q path line table.entries

theorem contains_eq_isSome (path : String) (table : Origins) :
    table.contains path = (table.lineOf path).isSome := rfl

theorem lineOf_removeSubtree (base q : String) (table : Origins) :
    (table.removeSubtree base).lineOf q
      = if (under? base q).isSome then none else table.lineOf q := by
  obtain ⟨entries⟩ := table
  show Ordered.get? q (entries.filter fun e => (under? base e.1).isNone)
    = if (under? base q).isSome then none else Ordered.get? q entries
  induction entries with
  | nil => simp
  | cons e entries ih =>
      obtain ⟨name, line⟩ := e
      rcases hu : under? base name with _ | rest
      · rw [List.filter_cons_of_pos (by simp [hu]), Ordered.get?_cons, Ordered.get?_cons, ih]
        by_cases hq : name = q
        · subst hq
          rw [if_pos rfl, hu, if_pos rfl]
          rfl
        · rw [if_neg hq, if_neg hq]
      · rw [List.filter_cons_of_neg (by simp [hu]), Ordered.get?_cons, ih]
        by_cases hq : name = q
        · subst hq
          rw [hu]
          rfl
        · rw [if_neg hq]

/-! ## Subtrees -/

theorem mem_keys_subtree {base rest : String} {table : Origins}
    (h : rest ∈ Ordered.keys (table.subtree base)) :
    Boundary rest.toList ∧ base ++ rest ∈ Ordered.keys table.entries := by
  obtain ⟨e, he, rfl⟩ := List.mem_map.mp h
  obtain ⟨entry, hentry, hunder⟩ := List.mem_filterMap.mp he
  obtain ⟨rest, hrest, rfl⟩ := Option.map_eq_some_iff.mp hunder
  obtain ⟨hpath, hb⟩ := under?_eq_some_iff.mp hrest
  exact ⟨hb, by rw [← hpath]; exact List.mem_map_of_mem hentry⟩

/-- The rests of the paths in a subtree are those that continue its path to a recorded one. -/
theorem mem_keys_subtree_iff {base rest : String} {table : Origins} :
    rest ∈ Ordered.keys (table.subtree base) ↔
      Boundary rest.toList ∧ base ++ rest ∈ Ordered.keys table.entries := by
  constructor
  · exact mem_keys_subtree
  · rintro ⟨hrest, hpath⟩
    obtain ⟨e, he, hname⟩ := List.mem_map.mp hpath
    have hunder : under? base e.1 = some rest := under?_eq_some_iff.mpr ⟨hname, hrest⟩
    have hentry : (rest, e.2) ∈ table.subtree base :=
      List.mem_filterMap.mpr ⟨e, he, by rw [hunder]; rfl⟩
    exact List.mem_map.mpr ⟨_, hentry, rfl⟩

theorem nodup_subtree {table : Origins} (h : table.Distinct) (base : String) :
    (Ordered.keys (table.subtree base)).Nodup := by
  obtain ⟨entries⟩ := table
  induction entries with
  | nil => exact List.nodup_nil
  | cons e entries ih =>
      obtain ⟨hname, hrest⟩ := List.nodup_cons.mp h
      have ih := ih hrest
      rcases hu : under? base e.1 with _ | rest
      · have hs : subtree base ⟨e :: entries⟩ = subtree base ⟨entries⟩ := by
          simp [subtree, hu]
        rw [hs]
        exact ih
      · have hs : subtree base ⟨e :: entries⟩ = (rest, e.2) :: subtree base ⟨entries⟩ := by
          simp [subtree, hu]
        rw [hs]
        refine List.nodup_cons.mpr ⟨?_, ih⟩
        -- the rest of the first path comes back only if the path itself does
        intro hmem
        apply hname
        show e.1 ∈ Ordered.keys entries
        rw [(under?_eq_some_iff.mp hu).1]
        exact (mem_keys_subtree hmem).2

/-- Entries that can be grafted: no rest of a path stands twice, and each is empty or starts with
a dot. -/
structure Cut (parts : List (String × Nat)) : Prop where
  nodup : (Ordered.keys parts).Nodup
  boundary : ∀ rest ∈ Ordered.keys parts, Boundary rest.toList

theorem cut_subtree {table : Origins} (h : table.Distinct) (base : String) :
    Cut (table.subtree base) :=
  ⟨nodup_subtree h base, fun _ hrest => (mem_keys_subtree hrest).1⟩

/-- A subtree has the lines of the table, under the rests of the paths. -/
theorem get?_subtree (base : String) {rest : String} (hrest : Boundary rest.toList)
    (table : Origins) :
    Ordered.get? rest (table.subtree base) = table.lineOf (base ++ rest) := by
  obtain ⟨entries⟩ := table
  show _ = Ordered.get? (base ++ rest) entries
  induction entries with
  | nil => rfl
  | cons e entries ih =>
      obtain ⟨name, line⟩ := e
      rcases hu : under? base name with _ | rest'
      · have hs : subtree base ⟨(name, line) :: entries⟩ = subtree base ⟨entries⟩ := by
          simp [subtree, hu]
        have hne : name ≠ base ++ rest := by
          rintro rfl
          rw [under?_eq_some_iff.mpr ⟨rfl, hrest⟩] at hu
          cases hu
        rw [hs, ih, Ordered.get?_cons, if_neg hne]
      · have hs : subtree base ⟨(name, line) :: entries⟩
            = (rest', line) :: subtree base ⟨entries⟩ := by
          simp [subtree, hu]
        have hiff : rest' = rest ↔ name = base ++ rest := by
          rw [(under?_eq_some_iff.mp hu).1, String.append_right_inj]
        rw [hs, Ordered.get?_cons, Ordered.get?_cons, ih]
        exact if_congr hiff rfl rfl

/-! ## Grafts -/

theorem entries_graft (base : String) (parts : List (String × Nat)) (table : Origins) :
    (table.graft base parts).entries
      = Ordered.insertAll (parts.map fun e => (base ++ e.1, e.2)) table.entries := by
  induction parts generalizing table with
  | nil => rfl
  | cons e parts ih => exact ih (table.record (base ++ e.1) e.2)

theorem get?_map_append (base rest : String) (parts : List (String × Nat)) :
    Ordered.get? (base ++ rest) (parts.map fun e => (base ++ e.1, e.2))
      = Ordered.get? rest parts := by
  induction parts with
  | nil => rfl
  | cons e parts ih =>
      rw [List.map_cons, Ordered.get?_cons, ih]
      exact if_congr (String.append_right_inj base) rfl rfl

theorem nodup_map_append {parts : List (String × Nat)} (base : String)
    (h : (Ordered.keys parts).Nodup) :
    (Ordered.keys (parts.map fun e => (base ++ e.1, e.2))).Nodup := by
  have hkeys : Ordered.keys (parts.map fun e => (base ++ e.1, e.2))
      = (Ordered.keys parts).map (base ++ ·) := by
    simp [Ordered.keys, Function.comp_def]
  rw [hkeys]
  exact h.map fun a b hab => (String.append_right_inj base).mp hab

theorem lineOf_graft_append {parts : List (String × Nat)} (h : (Ordered.keys parts).Nodup)
    (base rest : String) (table : Origins) :
    (table.graft base parts).lineOf (base ++ rest)
      = (Ordered.get? rest parts).or (table.lineOf (base ++ rest)) := by
  rw [lineOf, entries_graft, Ordered.get?_insertAll (nodup_map_append base h), get?_map_append]
  rfl

theorem lineOf_graft_of_forall_ne {parts : List (String × Nat)}
    (h : (Ordered.keys parts).Nodup) {base q : String}
    (hq : ∀ rest ∈ Ordered.keys parts, base ++ rest ≠ q) (table : Origins) :
    (table.graft base parts).lineOf q = table.lineOf q := by
  rw [lineOf, entries_graft, Ordered.get?_insertAll (nodup_map_append base h)]
  have hnone : Ordered.get? q (parts.map fun e => (base ++ e.1, e.2)) = none := by
    rw [Ordered.get?_eq_none_iff]
    intro hmem
    obtain ⟨moved, hmoved, rfl⟩ := List.mem_map.mp hmem
    obtain ⟨e, he, rfl⟩ := List.mem_map.mp hmoved
    exact hq e.1 (List.mem_map.mpr ⟨e, he, rfl⟩) rfl
  rw [hnone]
  rfl

/-! ## Lines by segments -/

def lineAt (p : List String) (table : Origins) : LineRef :=
  table.lineOf (ofSegments p)

/-- Two tables have the same lines at `q` and below it. -/
def AgreeBelow (q : List String) (table table' : Origins) : Prop :=
  ∀ r, Plain r → table.lineAt (q ++ r) = table'.lineAt (q ++ r)

section

variable {p q s : List String} {table table' : Origins}

theorem AgreeBelow.append (h : AgreeBelow q table table') (hs : Plain s) :
    AgreeBelow (q ++ s) table table' := by
  intro r hr
  rw [List.append_assoc]
  exact h (s ++ r) (plain_append.mpr ⟨hs, hr⟩)

theorem lineAt_record_self (p : List String) (line : Nat) (table : Origins) :
    (table.record (ofSegments p) line).lineAt p = some line := by
  rw [lineAt, lineOf_record, if_pos rfl]

theorem lineAt_record_of_ne (hp : Plain p) (hq : Plain q) (h : p ≠ q)
    (line : Nat) (table : Origins) :
    (table.record (ofSegments p) line).lineAt q = table.lineAt q := by
  rw [lineAt, lineOf_record, if_neg fun he => h (ofSegments_injective hp hq he)]
  rfl

theorem lineAt_removeSubtree_of_isPrefix (h : p <+: q) (table : Origins) :
    (table.removeSubtree (ofSegments p)).lineAt q = none := by
  obtain ⟨r, rfl⟩ := h
  rw [lineAt, lineOf_removeSubtree, ofSegments_append, under?_append]
  rfl

theorem lineAt_removeSubtree_of_not_isPrefix (hp : Plain p) (hq : Plain q)
    (h : ¬ p <+: q) (table : Origins) :
    (table.removeSubtree (ofSegments p)).lineAt q = table.lineAt q := by
  rw [lineAt, lineOf_removeSubtree]
  rcases hu : under? (ofSegments p) (ofSegments q) with _ | rest
  · rfl
  · obtain ⟨r, hr, -⟩ := (under?_ofSegments hp hq).mp hu
    exact absurd ⟨r, hr.symm⟩ h

/-- Grafted entries are found below the node they were grafted to. -/
theorem lineAt_graft {parts : List (String × Nat)} (hcut : Cut parts) (q r : List String)
    (table : Origins) :
    (table.graft (ofSegments q) parts).lineAt (q ++ r)
      = (Ordered.get? (ofSegments r) parts).or (table.lineAt (q ++ r)) := by
  rw [lineAt, lineAt, ofSegments_append, lineOf_graft_append hcut.nodup]

theorem lineAt_graft_of_not_isPrefix {parts : List (String × Nat)} (hcut : Cut parts)
    (hq : Plain q) (hs : Plain s) (h : ¬ q <+: s) (table : Origins) :
    (table.graft (ofSegments q) parts).lineAt s = table.lineAt s := by
  rw [lineAt, lineOf_graft_of_forall_ne hcut.nodup]
  · rfl
  · intro rest hrest heq
    have hu : under? (ofSegments q) (ofSegments s) = some rest :=
      under?_eq_some_iff.mpr ⟨heq.symm, hcut.boundary rest hrest⟩
    obtain ⟨r, hr, -⟩ := (under?_ofSegments hq hs).mp hu
    exact h ⟨r, hr.symm⟩

theorem get?_subtree_ofSegments (p r : List String) (table : Origins) :
    Ordered.get? (ofSegments r) (table.subtree (ofSegments p)) = table.lineAt (p ++ r) := by
  have hr : Boundary (ofSegments r).toList := by
    rw [toList_ofSegments]
    exact boundary_chars r
  rw [get?_subtree _ hr, lineAt, ofSegments_append]

end

end SiteConf.Origins
