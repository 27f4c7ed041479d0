import SiteConf.Proofs.Lockstep
import SiteConf.Template.Render

set_option autoImplicit false

/-! # Registries that lead to the same walk

A walk asks a registry for the writers of the names that occur in the tree, and for nothing else
(`walkTree_eq_of_writersOf`). Hence a registry may be restricted to these names, and bundles
without a hook may be left out: a field that is not registered has no hooks either. The registry
that a template builds does both, and walks as the registry of all its macros would.

The names under which a template is asked for the hooks are different for different fields and
moments: no ending of a moment is the end of another one (`Moment.eq_of_suffix`). -/

namespace SiteConf.Writer

variable {σ : Type}

/-! ## The writers that a walk asks for -/

theorem Visit.Alike.eq {v v' : Visit} (h : v.Alike Eq v') : v = v' := by
  obtain ⟨key, value, path, level, line⟩ := v
  obtain ⟨key', value', path', level', line'⟩ := v'
  obtain ⟨rfl, rfl, rfl, rfl, rfl⟩ := h
  rfl

theorem ResultAlike.eq {α : Type} {r r' : Except Error α} (h : ResultAlike Eq r r') : r = r' := by
  cases h with
  | ok a => rfl
  | error h =>
      cases h with
      | same e => rfl
      | noWriter path h => rw [h]
      | writerFailed path message h => rw [h]

theorem Call.Alike.eq {c c' : Call} (h : c.Alike Eq c') : c = c' := by
  obtain ⟨role, side, visit, answer⟩ := c
  obtain ⟨role', side', visit', answer'⟩ := c'
  obtain ⟨rfl, rfl, hvisit, rfl⟩ := h
  obtain rfl : visit = visit' := hvisit.eq
  rfl

/-- Any hook does the same for the same visit and state. -/
theorem HookAlike.refl {α : Type} (hook : Visit → Step σ Error α) : HookAlike Eq Eq hook hook := by
  rintro v v' s _ hv rfl
  rw [hv.eq]
  exact ⟨rfl, rfl⟩

theorem rel_refl {γ : Type} {R : γ → γ → Prop} (hR : ∀ a, R a a) (o : Option γ) :
    Option.Rel R o o := by
  cases o with
  | none => exact .none
  | some a => exact .some (hR a)

theorem FieldWriters.Alike.refl (f : FieldWriters σ) : f.Alike Eq Eq f where
  opening := by
    refine rel_refl ?_ f.opening
    rintro (_ | hook)
    · exact .nothing
    · exact .call (HookAlike.refl hook)
  openItem := rel_refl HookAlike.refl f.openItem
  closeItem := rel_refl HookAlike.refl f.closeItem
  closing := rel_refl HookAlike.refl f.closing

/-- Both registries lead to the same walk of the tree, from every state, level and path: the walks
make the same calls, and end with the same result in the same state. -/
def Registry.SameWalks (origins : Origins) (note : Visit → σ → σ) (t : Tree)
    (r r' : Registry σ) : Prop :=
  ∀ (level : Nat) (path : String) (s : σ),
    calls ⟨r, origins, note⟩ level path t s = calls ⟨r', origins, note⟩ level path t s ∧
      Step.run (walkTree ⟨r, origins, note⟩ level path t) s
        = Step.run (walkTree ⟨r', origins, note⟩ level path t) s

/-- A walk depends on the writers of the names in the tree alone. -/
theorem sameWalks_of_writersOf {r r' : Registry σ} {t : Tree}
    (h : ∀ name ∈ t.fieldNames, r.writersOf name = r'.writersOf name) (origins : Origins)
    (note : Visit → σ → σ) : r.SameWalks origins note t r' := by
  intro level path s
  have halike : Walker.Alike Eq Eq t.fieldNames ⟨r, origins, note⟩ ⟨r', origins, note⟩ := by
    refine ⟨fun name hname => ?_, fun _ => rfl, ?_⟩
    · show (r.writersOf name).Alike Eq Eq (r'.writersOf name)
      rw [h name hname]
      exact .refl _
    · rintro v v' s _ hv rfl
      rw [hv.eq]
  have hwalks := walkTree_alike halike level path (rfl : s = s)
  refine ⟨?_, Prod.ext hwalks.result.eq hwalks.state⟩
  exact List.forall₂_eq_eq_eq ▸ hwalks.calls.imp fun _ _ hc => hc.eq

/-- A page that is written with one registry is written alike with the other. -/
theorem Registry.SameWalks.write_eq {r r' : Registry Page} {origins : Origins} {t : Tree}
    (h : r.SameWalks origins Page.note t r') : write r origins t = write r' origins t := by
  rw [write, write, walk, walk, (h 0 KeyPath.root {}).2]

/-! ## Restriction -/

namespace Registry

/-- The registry with the bundles of the given names alone. -/
def restrict (names : List String) (r : Registry σ) : Registry σ :=
  r.filter fun bundle => bundle.1 ∈ names

theorem writersOf_restrict {name : String} {names : List String} (h : name ∈ names)
    (r : Registry σ) : (r.restrict names).writersOf name = r.writersOf name := by
  have hget : Ordered.get? name (r.restrict names) = Ordered.get? name r := by
    induction r with
    | nil => rfl
    | cons bundle r ih =>
        obtain ⟨key, f⟩ := bundle
        rw [restrict, List.filter_cons]
        by_cases hkey : key ∈ names
        · rw [if_pos (by simpa using hkey), Ordered.get?_cons, Ordered.get?_cons]
          exact congrArg (fun rest => if key = name then some f else rest) ih
        · have hne : key ≠ name := fun hk => hkey (hk ▸ h)
          rw [if_neg (by simpa using hkey), Ordered.get?_cons, if_neg hne]
          exact ih
  rw [writersOf, writersOf, hget]

/-! ## Leaving out bundles without a hook -/

theorem eq_empty_of_isEmpty {f : FieldWriters σ} (h : f.isEmpty = true) : f = {} := by
  obtain ⟨opening, openItem, closeItem, closing⟩ := f
  simp only [FieldWriters.isEmpty, Bool.and_eq_true, Option.isNone_iff_eq_none] at h
  obtain ⟨⟨⟨rfl, rfl⟩, rfl⟩, rfl⟩ := h
  rfl

/-- Registers bundles one after another. -/
def ofBundles (bundles : List (String × FieldWriters σ)) : Registry σ :=
  bundles.foldl (fun r bundle => insert bundle.1 bundle.2 r) []

theorem writersOf_cons (name key : String) (f : FieldWriters σ) (r : Registry σ) :
    writersOf name ((key, f) :: r) = if key = name then f else r.writersOf name := by
  rw [writersOf, writersOf, Ordered.get?_cons]
  split <;> rfl

/-- Under a new name it makes no difference whether a bundle without a hook is left out. -/
theorem writersOf_insert {key : String} {r : Registry σ} (h : key ∉ Ordered.keys r)
    (f : FieldWriters σ) (name : String) :
    (insert key f r).writersOf name = if key = name then f else r.writersOf name := by
  by_cases hempty : f.isEmpty = true
  · rw [insert, if_pos hempty]
    by_cases hname : key = name
    · subst hname
      rw [if_pos rfl, writersOf, Ordered.get?_eq_none_iff.mpr h, eq_empty_of_isEmpty hempty]
      rfl
    · rw [if_neg hname]
  · rw [insert, if_neg hempty, writersOf, writersOf, Ordered.get?_insert]
    split <;> rfl

theorem mem_keys_insert {key name : String} {f : FieldWriters σ} {r : Registry σ}
    (h : name ∈ Ordered.keys (insert key f r)) : name = key ∨ name ∈ Ordered.keys r := by
  rw [insert] at h
  split at h
  · exact .inr h
  · obtain ⟨bundle, hbundle, rfl⟩ := List.mem_map.mp h
    rcases Ordered.eq_or_mem_of_mem_insert hbundle with rfl | hmem
    · exact .inl rfl
    · exact .inr (List.mem_map.mpr ⟨bundle, hmem, rfl⟩)

/-- What the loop of `ofBundles` has registered: the bundles it went through, and what was there
before. -/
theorem writersOf_foldl_insert {bundles : List (String × FieldWriters σ)}
    (hd : (Ordered.keys bundles).Nodup) {r : Registry σ}
    (hr : ∀ name ∈ Ordered.keys bundles, name ∉ Ordered.keys r) (name : String) :
    (bundles.foldl (fun r bundle => insert bundle.1 bundle.2 r) r).writersOf name
      = if name ∈ Ordered.keys bundles then writersOf name bundles else r.writersOf name := by
  induction bundles generalizing r with
  | nil => rfl
  | cons bundle bundles ih =>
      -- the first bundle is in the registry, or left out, when the loop goes on
      obtain ⟨key, f⟩ := bundle
      have hkey : key ∉ Ordered.keys bundles := (List.nodup_cons.mp hd).1
      have hd₁ : (Ordered.keys bundles).Nodup := (List.nodup_cons.mp hd).2
      have hkeyr : key ∉ Ordered.keys r := hr key List.mem_cons_self
      have hr₁ : ∀ name ∈ Ordered.keys bundles, name ∉ Ordered.keys (insert key f r) := by
        intro name hname hmem
        rcases mem_keys_insert hmem with rfl | hmem
        · exact hkey hname
        · exact hr name (List.mem_cons_of_mem _ hname) hmem
      rw [List.foldl_cons, ih hd₁ hr₁, writersOf_cons, writersOf_insert hkeyr]
      by_cases hname : key = name
      · -- no later bundle has the name of the first
        subst hname
        have hmem : key ∈ Ordered.keys ((key, f) :: bundles) := List.mem_cons_self
        rw [if_neg hkey, if_pos rfl, if_pos rfl, if_pos hmem]
      · have hmem : name ∈ Ordered.keys ((key, f) :: bundles) ↔ name ∈ Ordered.keys bundles := by
          show name ∈ key :: Ordered.keys bundles ↔ _
          rw [List.mem_cons]
          exact or_iff_right (Ne.symm hname)
        rw [if_neg hname, if_neg hname, if_congr hmem rfl rfl]

/-- The bundles of different names are found as if all of them had been registered. -/
theorem writersOf_ofBundles {bundles : List (String × FieldWriters σ)}
    (hd : (Ordered.keys bundles).Nodup) (name : String) :
    (ofBundles bundles).writersOf name = writersOf name bundles := by
  rw [ofBundles, writersOf_foldl_insert hd (fun _ _ => List.not_mem_nil) name]
  split
  · rfl
  · next hname =>
      rw [writersOf, writersOf, Ordered.get?_eq_none_iff.mpr hname]
      rfl

/-- Of bundles that are made for names, the one that is found is made for the name. -/
theorem writersOf_map {name : String} {names : List String} (h : name ∈ names)
    (f : String → FieldWriters σ) : writersOf name (names.map fun n => (n, f n)) = f name := by
  induction names with
  | nil => cases h
  | cons n names ih =>
      rw [List.map_cons, writersOf_cons]
      by_cases hn : n = name
      · rw [if_pos hn, hn]
      · rw [if_neg hn]
        exact ih (List.mem_of_ne_of_mem (Ne.symm hn) h)

end Registry

end SiteConf.Writer

namespace SiteConf.Template

open SiteConf.Writer

/-! ## The registry of a template -/

section Registries

variable {V σ : Type} (H : Host V σ) (call : Calling V σ) (m : σ)

theorem registryOf_eq_ofBundles (fields : List String) :
    H.registryOf call m fields
      = Registry.ofBundles (fields.map fun field => (field, H.writersOf call m field)) := by
  rw [Host.registryOf, Registry.ofBundles, List.foldl_map]

theorem keys_map_writersOf (fields : List String) :
    Ordered.keys (fields.map fun field => (field, H.writersOf call m field)) = fields := by
  rw [Ordered.keys, List.map_map]
  exact List.map_id _

theorem nodup_keys_map_writersOf (t : Tree) :
    (Ordered.keys ((distinct t.fieldNames).map fun field =>
      (field, H.writersOf call m field))).Nodup := by
  rw [keys_map_writersOf]
  exact nodup_distinct t.fieldNames

/-- The registry that a template builds for a tree has the macros of every field in the tree. -/
theorem writersOf_registryOf {t : Tree} {name : String} (h : name ∈ t.fieldNames) :
    (H.registryOf call m (distinct t.fieldNames)).writersOf name = H.writersOf call m name := by
  rw [registryOf_eq_ofBundles, Registry.writersOf_ofBundles (nodup_keys_map_writersOf H call m t),
    Registry.writersOf_map (mem_distinct.mpr h)]

/-- It has nothing for fields that the tree does not have. -/
theorem writersOf_registryOf_of_not_mem {t : Tree} {name : String} (h : name ∉ t.fieldNames) :
    (H.registryOf call m (distinct t.fieldNames)).writersOf name = {} := by
  have hnone : name ∉ Ordered.keys ((distinct t.fieldNames).map fun field =>
      (field, H.writersOf call m field)) := by
    rw [keys_map_writersOf, mem_distinct]
    exact h
  rw [registryOf_eq_ofBundles, Registry.writersOf_ofBundles (nodup_keys_map_writersOf H call m t),
    Registry.writersOf, Ordered.get?_eq_none_iff.mpr hnone]
  rfl

end Registries

/-! ## The names of writers -/

theorem Moment.eq_of_suffix {m m' : Moment} (h : m.ending.toList <:+ m'.ending.toList) :
    m = m' := by
  revert h
  cases m <;> cases m' <;> decide

/-- Different fields or moments have writers of different names. -/
theorem writerName_injective2 : Function.Injective2 writerName := by
  intro field field' moment moment' h
  have hchars : field.toList ++ moment.ending.toList
      = field'.toList ++ moment'.ending.toList := by
    rw [← String.toList_append, ← String.toList_append]
    exact congrArg String.toList h
  -- of two ends of one name the shorter is an end of the longer
  have hend : moment.ending.toList <:+ field'.toList ++ moment'.ending.toList :=
    ⟨field.toList, hchars⟩
  have hend' : moment'.ending.toList <:+ field'.toList ++ moment'.ending.toList :=
    ⟨field'.toList, rfl⟩
  have hmoment : moment = moment' := by
    rcases le_total moment.ending.toList.length moment'.ending.toList.length with hle | hle
    · exact Moment.eq_of_suffix (List.suffix_of_suffix_length_le hend hend' hle)
    · exact (Moment.eq_of_suffix (List.suffix_of_suffix_length_le hend' hend hle)).symm
  subst hmoment
  exact ⟨String.toList_injective (List.append_cancel_right hchars), rfl⟩

/-! ## Walking with a restricted registry -/

/-- **The registry of a template is as good as an unrestricted one.** Registries with the same
writers for the names in a tree lead to the same walk of it, whatever the table of lines: the same
calls, the same text and the same result. So a registry may be restricted to these names, bundles
without a hook may be left out, and with any engine the registry that a template builds for the
tree walks like one that holds the macros of all names, for any collection of names that has those
of the tree.
Different fields and moments never share the name of a macro. -/
theorem registry_restriction (tree : Tree) (origins : Origins) :
    (∀ {σ : Type} (note : Visit → σ → σ) (r r' : Registry σ),
      (∀ name ∈ tree.fieldNames, r.writersOf name = r'.writersOf name) →
        r.SameWalks origins note tree r') ∧
    (∀ r r' : Registry Page,
      (∀ name ∈ tree.fieldNames, r.writersOf name = r'.writersOf name) →
        write r origins tree = write r' origins tree) ∧
    (∀ {σ : Type} (note : Visit → σ → σ) (r : Registry σ),
      (r.restrict tree.fieldNames).SameWalks origins note tree r) ∧
    (∀ {σ : Type} (note : Visit → σ → σ) (r : Registry σ), (Ordered.keys r).Nodup →
      (Registry.ofBundles r).SameWalks origins note tree r) ∧
    (∀ {V σ : Type} (H : Host V σ) (call : Calling V σ) (m : σ) (names : List String),
      tree.fieldNames ⊆ names →
        (H.registryOf call m (distinct tree.fieldNames)).SameWalks origins H.enterField tree
          (names.map fun name => (name, H.writersOf call m name))) ∧
    Function.Injective2 writerName := by
  refine ⟨fun note r r' h => sameWalks_of_writersOf h origins note, fun r r' h => ?_,
    fun note r => ?_, fun note r hd => ?_, fun H call m names hsub => ?_,
    writerName_injective2⟩
  · exact (sameWalks_of_writersOf h origins Page.note).write_eq
  · exact sameWalks_of_writersOf (fun _ hname => Registry.writersOf_restrict hname r) origins note
  · exact sameWalks_of_writersOf (fun name _ => Registry.writersOf_ofBundles hd name) origins note
  · refine sameWalks_of_writersOf (fun name hname => ?_) origins H.enterField
    rw [writersOf_registryOf H call m hname, Registry.writersOf_map (hsub hname)]

/-- A field inside another one. -/
def portTree : Tree :=
  .mapping [("listen", .mapping [("port", .scalar (.int 80))])]

/-- Writers of both fields, of a field that does not occur, and a bundle without a hook. -/
def portRegistry : Registry Page :=
  [("headers", {}), ("listen", ⟨some .nothing, none, none, none⟩),
    ("port", ⟨none, none, none, some fun v => Step.of fun page =>
      (.ok (), { page with emitter := page.emitter.line v.level v.key })⟩),
    ("root", ⟨some .nothing, none, none, none⟩)]

/-- A template with the no-op writer for a field of the tree and for another one. -/
def portMachine : Machine where
  document := ⟨portTree, ⟨[]⟩⟩
  context := [("listen_open", .noop), ("root_open", .noop)]
  frames := [{ layer := .context }]

/-- Two of the four bundles write the page, and one of the two macros is registered. -/
theorem registry_restriction_portTree :
    (Ordered.keys portRegistry).Nodup ∧
      Ordered.keys (Registry.restrict portTree.fieldNames portRegistry) = ["listen", "port"] ∧
      Ordered.keys (Registry.ofBundles portRegistry) = ["listen", "port", "root"] ∧
      write (Registry.restrict portTree.fieldNames portRegistry) ⟨[]⟩ portTree
        = write portRegistry ⟨[]⟩ portTree ∧
      (Registry.ofBundles portRegistry).SameWalks ⟨[]⟩ Page.note portTree portRegistry ∧
      Ordered.keys (engine.registryOf (engine.invoke 1) portMachine (distinct portTree.fieldNames))
        = ["listen"] ∧
      (engine.registryOf (engine.invoke 1) portMachine (distinct portTree.fieldNames)).SameWalks
        ⟨[]⟩ engine.enterField portTree (["root", "port", "listen"].map fun name =>
          (name, engine.writersOf (engine.invoke 1) portMachine name)) ∧
      (write portRegistry ⟨[]⟩ portTree).1 = .ok "port\n" := by
  obtain ⟨-, hwrite, -, hbundles, htemplate, -⟩ := registry_restriction portTree ⟨[]⟩
  have hd : (Ordered.keys portRegistry).Nodup := by decide
  refine ⟨hd, by decide, by decide, hwrite _ _ fun name hname => ?_, hbundles Page.note _ hd,
    by decide +kernel, htemplate engine.toHost (engine.invoke 1) portMachine _ (by decide),
    by decide⟩
  exact Registry.writersOf_restrict hname portRegistry

end SiteConf.Template
