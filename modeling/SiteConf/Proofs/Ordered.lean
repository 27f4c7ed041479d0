import SiteConf.Ordered
import Mathlib

set_option autoImplicit false

/-! # Laws of tables in insertion order

What `get?` finds after each operation, and what each operation does to the order of the names.
A table is *distinct* when no name occurs twice; all operations keep tables distinct, and in a
distinct table every entry is the one that is found under its name. -/

namespace SiteConf.Ordered

variable {α : Type}

/-! ## Finding values -/

@[simp] theorem get?_nil (k : String) : get? k ([] : Ordered α) = none := rfl

theorem get?_cons (k key : String) (v : α) (t : Ordered α) :
    get? k ((key, v) :: t) = if key = k then some v else get? k t := rfl

theorem get?_insert (k key : String) (v : α) (t : Ordered α) :
    get? k (insert key v t) = if key = k then some v else get? k t := by
  induction t with
  | nil => rfl
  | cons e t ih =>
      obtain ⟨name, w⟩ := e
      by_cases hname : name = key
      · subst hname
        rw [insert, if_pos rfl, get?_cons, get?_cons]
        split <;> rfl
      · rw [insert, if_neg hname, get?_cons, get?_cons, ih]
        by_cases hk : name = k
        · subst hk
          rw [if_pos rfl, if_neg (Ne.symm hname), if_pos rfl]
        · rw [if_neg hk, if_neg hk]

@[simp] theorem get?_insert_self (key : String) (v : α) (t : Ordered α) :
    get? key (insert key v t) = some v := by
  rw [get?_insert, if_pos rfl]

theorem get?_insert_of_ne {k key : String} (h : key ≠ k) (v : α) (t : Ordered α) :
    get? k (insert key v t) = get? k t := by
  rw [get?_insert, if_neg h]

theorem get?_erase (k key : String) (t : Ordered α) :
    get? k (erase key t) = if key = k then none else get? k t := by
  induction t with
  | nil => simp [erase]
  | cons e t ih =>
      obtain ⟨name, w⟩ := e
      by_cases hname : name = key
      · subst hname
        have he : erase name ((name, w) :: t) = erase name t := by simp [erase]
        rw [he, ih, get?_cons]
        split <;> rfl
      · have he : erase key ((name, w) :: t) = (name, w) :: erase key t := by
          simp [erase, hname]
        rw [he, get?_cons, get?_cons, ih]
        by_cases hk : name = k
        · subst hk
          rw [if_pos rfl, if_neg (Ne.symm hname), if_pos rfl]
        · rw [if_neg hk, if_neg hk]

theorem get?_erase_of_ne {k key : String} (h : key ≠ k) (t : Ordered α) :
    get? k (erase key t) = get? k t := by
  rw [get?_erase, if_neg h]

/-- Of two tables one after the other, the first is asked first. -/
theorem get?_append (k : String) (t u : Ordered α) :
    get? k (t ++ u) = (get? k t).or (get? k u) := by
  induction t with
  | nil => rfl
  | cons e t ih =>
      obtain ⟨name, w⟩ := e
      rw [List.cons_append, get?_cons, get?_cons, ih]
      split <;> rfl

/-! ## Names -/

theorem keys_append (t u : Ordered α) : keys (t ++ u) = keys t ++ keys u :=
  List.map_append

theorem not_mem_keys_of_nodup {e : String × α} {t u : Ordered α}
    (h : (keys (t ++ e :: u)).Nodup) : e.1 ∉ keys t := by
  rw [keys_append] at h
  exact fun hmem => (List.nodup_append.mp h).2.2 _ hmem _ List.mem_cons_self rfl

theorem get?_eq_none_iff {k : String} {t : Ordered α} : get? k t = none ↔ k ∉ keys t := by
  induction t with
  | nil => simp [keys]
  | cons e t ih =>
      obtain ⟨name, w⟩ := e
      rw [get?_cons]
      by_cases hk : name = k
      · subst hk
        simp [keys]
      · rw [if_neg hk, ih]
        simp [keys, Ne.symm hk]

theorem mem_keys_of_get? {k : String} {v : α} {t : Ordered α} (h : get? k t = some v) :
    k ∈ keys t := by
  by_contra hk
  rw [get?_eq_none_iff.mpr hk] at h
  cases h

theorem mem_of_get? {k : String} {v : α} {t : Ordered α} (h : get? k t = some v) :
    (k, v) ∈ t := by
  induction t with
  | nil => cases h
  | cons e t ih =>
      obtain ⟨name, w⟩ := e
      rw [get?_cons] at h
      by_cases hk : name = k
      · rw [if_pos hk] at h
        cases h
        rw [hk]
        exact List.mem_cons_self
      · rw [if_neg hk] at h
        exact List.mem_cons_of_mem _ (ih h)

theorem get?_of_mem {k : String} {v : α} {t : Ordered α} (hd : (keys t).Nodup)
    (h : (k, v) ∈ t) : get? k t = some v := by
  induction t with
  | nil => cases h
  | cons e t ih =>
      obtain ⟨name, w⟩ := e
      have hname : name ∉ keys t := (List.nodup_cons.mp hd).1
      rw [get?_cons]
      rcases List.mem_cons.mp h with he | ht
      · cases he
        rw [if_pos rfl]
      · have hk : name ≠ k := by
          rintro rfl
          exact hname (List.mem_map.mpr ⟨_, ht, rfl⟩)
        rw [if_neg hk]
        exact ih (List.nodup_cons.mp hd).2 ht

/-- A new name is put at the end. -/
theorem insert_of_not_mem {key : String} {t : Ordered α} (v : α) (h : key ∉ keys t) :
    insert key v t = t ++ [(key, v)] := by
  induction t with
  | nil => rfl
  | cons e t ih =>
      obtain ⟨name, w⟩ := e
      have hname : name ≠ key := by
        rintro rfl
        exact h (by simp [keys])
      have ht : key ∉ keys t := fun hk => h (List.mem_cons_of_mem _ hk)
      rw [insert, if_neg hname, ih ht, List.cons_append]

theorem keys_insert_of_mem {key : String} {t : Ordered α} (v : α) (h : key ∈ keys t) :
    keys (insert key v t) = keys t := by
  induction t with
  | nil => cases h
  | cons e t ih =>
      obtain ⟨name, w⟩ := e
      by_cases hname : name = key
      · rw [insert, if_pos hname, hname]
        rfl
      · rw [insert, if_neg hname]
        have ht : key ∈ keys t := by
          rcases List.mem_cons.mp h with hk | hk
          · exact absurd hk.symm hname
          · exact hk
        show name :: keys (insert key v t) = name :: keys t
        rw [ih ht]

theorem eq_or_mem_of_mem_insert {key : String} {v : α} {t : Ordered α} {e : String × α}
    (h : e ∈ insert key v t) : e = (key, v) ∨ e ∈ t := by
  induction t with
  | nil => exact .inl (List.mem_singleton.mp h)
  | cons e' t ih =>
      obtain ⟨name, w⟩ := e'
      by_cases hname : name = key
      · rw [insert, if_pos hname] at h
        rcases List.mem_cons.mp h with he | he
        · exact .inl he
        · exact .inr (List.mem_cons_of_mem _ he)
      · rw [insert, if_neg hname] at h
        rcases List.mem_cons.mp h with he | he
        · exact .inr (he ▸ List.mem_cons_self)
        · exact (ih he).imp_right (List.mem_cons_of_mem _)

theorem nodup_insert {t : Ordered α} (key : String) (v : α) (h : (keys t).Nodup) :
    (keys (insert key v t)).Nodup := by
  by_cases hk : key ∈ keys t
  · rw [keys_insert_of_mem v hk]
    exact h
  · rw [insert_of_not_mem v hk, keys_append]
    refine List.Nodup.append h (List.nodup_singleton key) ?_
    intro x hx hkey
    obtain rfl : x = key := List.mem_singleton.mp hkey
    exact hk hx

theorem nodup_filter {t : Ordered α} (p : String × α → Bool) (h : (keys t).Nodup) :
    (keys (t.filter p)).Nodup :=
  h.sublist (List.filter_sublist.map _)

/-- Inserting the value that is there changes nothing. -/
theorem insert_of_get? {key : String} {v : α} {t : Ordered α} (h : get? key t = some v) :
    insert key v t = t := by
  induction t with
  | nil => cases h
  | cons e t ih =>
      obtain ⟨name, w⟩ := e
      rw [get?_cons] at h
      by_cases hname : name = key
      · rw [if_pos hname] at h
        rw [insert, if_pos hname, Option.some.inj h, hname]
      · rw [if_neg hname] at h
        rw [insert, if_neg hname, ih h]

/-- Taking out a name that is not there changes nothing. -/
theorem erase_of_get?_none {key : String} {t : Ordered α} (h : get? key t = none) :
    erase key t = t := by
  rw [erase, List.filter_eq_self]
  intro e he
  have hne : e.1 ≠ key := by
    rintro rfl
    exact get?_eq_none_iff.mp h (List.mem_map_of_mem he)
  simpa using hne

/-! ## Many entries at once -/

/-- New names are put at the end, one after another. -/
theorem insertAll_of_not_mem {es : List (String × α)} {t : Ordered α} (hd : (keys es).Nodup)
    (hnew : ∀ k ∈ keys es, k ∉ keys t) : insertAll es t = t ++ es := by
  induction es generalizing t with
  | nil => exact (List.append_nil t).symm
  | cons e es ih =>
      obtain ⟨name, w⟩ := e
      have hname : name ∉ keys es := (List.nodup_cons.mp hd).1
      have hnew' : ∀ k ∈ keys es, k ∉ keys (t ++ [(name, w)]) := by
        intro k hk hmem
        rw [keys_append, List.mem_append] at hmem
        rcases hmem with hmem | hmem
        · exact hnew k (List.mem_cons_of_mem _ hk) hmem
        · obtain rfl : k = name := List.mem_singleton.mp hmem
          exact hname hk
      calc insertAll ((name, w) :: es) t
          = insertAll es (insert name w t) := rfl
        _ = insertAll es (t ++ [(name, w)]) := by
            rw [insert_of_not_mem w (hnew name List.mem_cons_self)]
        _ = t ++ [(name, w)] ++ es := ih (List.nodup_cons.mp hd).2 hnew'
        _ = t ++ (name, w) :: es := (List.append_cons t (name, w) es).symm

/-- What is inserted is found, and all else is as before. -/
theorem get?_insertAll {es : List (String × α)} (hd : (keys es).Nodup) (k : String)
    (t : Ordered α) : get? k (insertAll es t) = (get? k es).or (get? k t) := by
  induction es generalizing t with
  | nil => rfl
  | cons e es ih =>
      obtain ⟨name, w⟩ := e
      obtain ⟨hname, hes⟩ := List.nodup_cons.mp hd
      show get? k (insertAll es (insert name w t)) = _
      rw [ih hes, get?_insert, get?_cons]
      by_cases hk : name = k
      · subst hk
        rw [if_pos rfl, if_pos rfl, get?_eq_none_iff.mpr hname]
        rfl
      · rw [if_neg hk, if_neg hk]

theorem insertAll_concat (es : List (String × α)) (e : String × α) (t : Ordered α) :
    insertAll (es ++ [e]) t = insert e.1 e.2 (insertAll es t) :=
  List.foldl_append

/-- The last of the entries with a name is found, and all else is as before. -/
theorem get?_insertAll_reverse (es : List (String × α)) (k : String) (t : Ordered α) :
    get? k (insertAll es t) = (get? k es.reverse).or (get? k t) := by
  induction es using List.reverseRecOn with
  | nil => rfl
  | append_singleton es e ih =>
      rw [insertAll_concat, get?_insert, ih, List.reverse_append, List.reverse_singleton,
        List.singleton_append, get?_cons]
      split <;> rfl

theorem nodup_insertAll (es : List (String × α)) {t : Ordered α} (h : (keys t).Nodup) :
    (keys (insertAll es t)).Nodup := by
  induction es generalizing t with
  | nil => exact h
  | cons e es ih => exact ih (nodup_insert e.1 e.2 h)

/-- Inserting entries puts the names that are new behind those that are there, in the order in
which they come first. -/
theorem exists_keys_insertAll (es : List (String × α)) (t : Ordered α) :
    ∃ new, keys (insertAll es t) = keys t ++ new ∧
      (∀ k, k ∈ new ↔ k ∈ keys es ∧ k ∉ keys t) ∧
      new.Pairwise fun a b => (keys es).idxOf a < (keys es).idxOf b := by
  induction es using List.reverseRecOn with
  | nil => exact ⟨[], (List.append_nil _).symm, by simp [keys], .nil⟩
  | append_singleton es e ih =>
      obtain ⟨name, v⟩ := e
      obtain ⟨new, hkeys, hmem, hsorted⟩ := ih
      have hnames : keys (es ++ [(name, v)]) = keys es ++ [name] := keys_append es _
      have hnew {k : String} (hk : k ∈ new) : k ∈ keys es := ((hmem k).mp hk).1
      -- An entry more at the end does not change which name comes first.
      have hsorted' : new.Pairwise fun a b =>
          (keys es ++ [name]).idxOf a < (keys es ++ [name]).idxOf b := by
        refine hsorted.imp_of_mem fun ha hb hlt => ?_
        rwa [List.idxOf_append_of_mem (hnew ha), List.idxOf_append_of_mem (hnew hb)]
      rw [insertAll_concat, hnames]
      by_cases hname : name ∈ keys (insertAll es t)
      · refine ⟨new, ?_, fun k => ?_, hsorted'⟩
        · rw [keys_insert_of_mem v hname, hkeys]
        · rw [hkeys, List.mem_append] at hname
          rw [hmem, List.mem_append, List.mem_singleton]
          constructor
          · exact fun h => ⟨.inl h.1, h.2⟩
          · rintro ⟨hk | rfl, hkt⟩
            · exact ⟨hk, hkt⟩
            · exact (hmem k).mp (hname.resolve_left hkt)
      · have hfresh : name ∉ keys t ∧ name ∉ new := by
          rwa [hkeys, List.mem_append, not_or] at hname
        have hlast : name ∉ keys es := fun h => hfresh.2 ((hmem name).mpr ⟨h, hfresh.1⟩)
        refine ⟨new ++ [name], ?_, fun k => ?_, ?_⟩
        · rw [insert_of_not_mem v hname, keys_append, hkeys, List.append_assoc]
          rfl
        · rw [List.mem_append, hmem, List.mem_append, List.mem_singleton]
          constructor
          · rintro (⟨hk, hkt⟩ | rfl)
            · exact ⟨.inl hk, hkt⟩
            · exact ⟨.inr rfl, hfresh.1⟩
          · rintro ⟨hk | rfl, hkt⟩
            · exact .inl ⟨hk, hkt⟩
            · exact .inr rfl
        · refine List.pairwise_append.mpr ⟨hsorted', List.pairwise_singleton _ _, ?_⟩
          intro a ha b hb
          obtain rfl : b = name := List.mem_singleton.mp hb
          rw [List.idxOf_append_of_mem (hnew ha), List.idxOf_append_of_notMem hlast]
          exact Nat.lt_add_right _ (List.idxOf_lt_length_of_mem (hnew ha))

/-! ## Changing all values -/

theorem get?_map {β : Type} (f : α → β) (k : String) (t : Ordered α) :
    get? k (t.map fun e => (e.1, f e.2)) = (get? k t).map f := by
  induction t with
  | nil => rfl
  | cons e t ih =>
      rw [List.map_cons, get?_cons, get?_cons, ih]
      split <;> rfl

theorem insert_map {β : Type} (f : α → β) (key : String) (v : α) (t : Ordered α) :
    insert key (f v) (t.map fun e => (e.1, f e.2))
      = (insert key v t).map fun e => (e.1, f e.2) := by
  induction t with
  | nil => rfl
  | cons e t ih =>
      rw [List.map_cons, insert, insert]
      split
      · rfl
      · rw [List.map_cons, ih]

end SiteConf.Ordered

/-! ## Sets in insertion order -/

namespace SiteConf

/-- What the loop of `distinct` does to the names that it has seen. -/
theorem foldl_distinct (names seen : List String) (hseen : seen.Nodup) :
    (names.foldl (fun seen n => if seen.contains n then seen else seen ++ [n]) seen).Nodup ∧
      ∀ x, x ∈ names.foldl (fun seen n => if seen.contains n then seen else seen ++ [n]) seen ↔
        x ∈ seen ∨ x ∈ names := by
  induction names generalizing seen with
  | nil => simp [hseen]
  | cons n names ih =>
      rw [List.foldl_cons]
      by_cases hn : n ∈ seen
      · rw [if_pos (by simpa using hn)]
        refine ⟨(ih seen hseen).1, fun x => ?_⟩
        rw [(ih seen hseen).2 x, List.mem_cons]
        constructor
        · exact Or.imp_right Or.inr
        · rintro (hx | rfl | hx)
          · exact .inl hx
          · exact .inl hn
          · exact .inr hx
      · rw [if_neg (by simpa using hn)]
        have hnodup : (seen ++ [n]).Nodup := by
          refine List.Nodup.append hseen (List.nodup_singleton n) ?_
          intro x hx hxn
          obtain rfl : x = n := List.mem_singleton.mp hxn
          exact hn hx
        refine ⟨(ih _ hnodup).1, fun x => ?_⟩
        rw [(ih _ hnodup).2 x, List.mem_append, List.mem_singleton, List.mem_cons, or_assoc]

theorem nodup_distinct (names : List String) : (distinct names).Nodup :=
  (foldl_distinct names [] List.nodup_nil).1

theorem mem_distinct {x : String} {names : List String} : x ∈ distinct names ↔ x ∈ names := by
  rw [distinct, (foldl_distinct names [] List.nodup_nil).2 x]
  simp

end SiteConf
