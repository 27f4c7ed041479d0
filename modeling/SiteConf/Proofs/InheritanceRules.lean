import SiteConf.Proofs.Children
import SiteConf.Proofs.SettledTree

set_option autoImplicit false

/-! # The rules of inheritance

What sharing locations and inheriting headers make of a tree, said without the way in which it is
done. A mapping is seen through the order of its keys and the value under each of them: a rule says
which keys there are afterwards, in which order, and what is under each of them (`Leaves`, `Puts`).
From the root down to the locations the rules make up `Shares` and `Inherits`.

Both passes follow their rules on every tree. Where the keys of each mapping are different, as they
are in every configuration that is read, a rule allows one tree only, so that it says all that the
pass does (`shareLocations_shares`, `inheritHeaders_inherits`). -/

namespace SiteConf

/-! ## Mappings by their keys and values -/

namespace Ordered

variable {α : Type}

theorem keys_erase (key : String) (t : Ordered α) :
    keys (erase key t) = (keys t).filter (· ≠ key) := by
  rw [keys, keys, erase, List.filter_map]
  rfl

/-- Tables with the same different keys in the same order, and the same value under each of them,
are the same. -/
theorem ext_of_get? {t u : Ordered α} (hkeys : keys t = keys u) (hd : (keys t).Nodup)
    (hget : ∀ k, get? k t = get? k u) : t = u := by
  induction t generalizing u with
  | nil =>
      have hu : u.map (·.1) = [] := hkeys.symm
      exact (List.map_eq_nil_iff.mp hu).symm
  | cons e t ih =>
      obtain ⟨k, v⟩ := e
      cases u with
      | nil => cases hkeys
      | cons e' u =>
          obtain ⟨k', v'⟩ := e'
          obtain ⟨rfl, htail⟩ : k = k' ∧ keys t = keys u := by simpa [keys] using hkeys
          obtain ⟨hk, hd⟩ := List.nodup_cons.mp hd
          have hv : v = v' := by simpa [get?_cons] using hget k
          have hrest : ∀ key, get? key t = get? key u := by
            intro key
            by_cases hkey : k = key
            · -- the key is that of the first entry and does not come again
              subst hkey
              have hku : k ∉ keys u := htail ▸ hk
              rw [get?_eq_none_iff.mpr hk, get?_eq_none_iff.mpr hku]
            · have hkeyed := hget key
              rwa [get?_cons, get?_cons, if_neg hkey, if_neg hkey] at hkeyed
          rw [hv, ih htail hd hrest]

end Ordered

namespace Tree

/-- The keys of the node, if it is a mapping, are different. -/
def UniqueKeys : Tree → Prop
  | mapping fields => (Ordered.keys fields).Nodup
  | _ => True

theorem Everywhere.of_mem_itemsOf {P : Tree → Prop} {fields : List (String × Tree)} {k : String}
    {t : Tree} (h : Everywhere P (mapping fields)) (hk : Ordered.get? k fields = some t) :
    ∀ u ∈ itemsOf (some t), Everywhere P u := by
  have ht : Everywhere P t :=
    ((everywhere_mapping fields).mp h).2 (k, t) (Ordered.mem_of_get? hk)
  cases t with
  | scalar v => exact List.forall_mem_nil _
  | sequence items => exact ((everywhere_sequence items).mp ht).2
  | mapping fields => exact List.forall_mem_nil _

end Tree

namespace Document

/-! ## Rules for mappings and sequences -/

/-- A mapping before and after a pass: the key `gone` is taken out, what is under `key` becomes
something that `R` relates to it, and the other entries stay; the order is kept. -/
structure Leaves (gone key : String) (R : Tree → Tree → Prop)
    (before after : List (String × Tree)) : Prop where
  keys : Ordered.keys after = (Ordered.keys before).filter (· ≠ gone)
  value : Option.Rel R (Ordered.get? key before) (Ordered.get? key after)
  others : ∀ k, k ≠ gone → k ≠ key → Ordered.get? k after = Ordered.get? k before

/-- A mapping before and after something is put under `key`: in the place that the key has, or
else at the end. -/
structure Puts (key : String) (value : Tree) (before after : List (String × Tree)) : Prop where
  keys : Ordered.keys after
    = if key ∈ Ordered.keys before then Ordered.keys before else Ordered.keys before ++ [key]
  value : Ordered.get? key after = some value
  others : ∀ k, k ≠ key → Ordered.get? k after = Ordered.get? k before

/-- Every item of a sequence becomes something that `R` relates to it; what is no sequence
stays. -/
inductive ItemByItem (R : Tree → Tree → Prop) : Tree → Tree → Prop where
  | sequence {items items' : List Tree} (h : List.Forall₂ R items items') :
      ItemByItem R (.sequence items) (.sequence items')
  | other {t : Tree} (h : ∀ items, t ≠ .sequence items) : ItemByItem R t t

/-- A site before and after a pass: if it has servers, what the root has under `gone` leaves it,
and its items go to the servers as `R` says. -/
inductive Passes (gone : String) (R : List Tree → Tree → Tree → Prop) : Tree → Tree → Prop where
  | alone {t : Tree} (h : t.get? serversKey = none) : Passes gone R t t
  | site {root root' : List (String × Tree)} {servers : Tree}
      (h : Ordered.get? serversKey root = some servers)
      (hleaves : Leaves gone serversKey (R (Tree.itemsOf (Ordered.get? gone root))) root root') :
      Passes gone R (.mapping root) (.mapping root')

/-! ## The rules of sharing -/

/-- A server before and after it takes in the shared locations: it gets them behind its own, unless
it is no mapping or has something else than a sequence for its locations. -/
inductive TakesIn (shared : List Tree) : Tree → Tree → Prop where
  | other {t : Tree} (h : ∀ fields, t ≠ .mapping fields) : TakesIn shared t t
  | refused {fields : List (String × Tree)} {value : Tree}
      (h : Ordered.get? locationsKey fields = some value)
      (hvalue : ∀ items, value ≠ .sequence items) :
      TakesIn shared (.mapping fields) (.mapping fields)
  | taken {fields fields' : List (String × Tree)}
      (h : Ordered.get? locationsKey fields = none ∨
        ∃ own, Ordered.get? locationsKey fields = some (.sequence own))
      (hput : Puts locationsKey
        (.sequence (Tree.itemsOf (Ordered.get? locationsKey fields) ++ shared)) fields fields') :
      TakesIn shared (.mapping fields) (.mapping fields')

/-- The servers before and after sharing: without shared locations nothing happens to them. -/
inductive SharesAmong (shared : List Tree) : Tree → Tree → Prop where
  | nothing {t : Tree} (h : shared = []) : SharesAmong shared t t
  | servers {t t' : Tree} (h : shared ≠ []) (heach : ItemByItem (TakesIn shared) t t') :
      SharesAmong shared t t'

/-- A site before and after its locations are shared among the servers. -/
abbrev Shares : Tree → Tree → Prop :=
  Passes locationsKey SharesAmong

/-! ## The rules of inheriting -/

/-- A location before and after it inherits headers: it gets them in front of its own, unless it is
no mapping or there are none at all. -/
inductive InheritsFrom (above : List Tree) : Tree → Tree → Prop where
  | other {t : Tree} (h : ∀ fields, t ≠ .mapping fields) : InheritsFrom above t t
  | nothing {fields : List (String × Tree)}
      (h : above ++ Tree.itemsOf (Ordered.get? headersKey fields) = []) :
      InheritsFrom above (.mapping fields) (.mapping fields)
  | merged {fields fields' : List (String × Tree)}
      (h : above ++ Tree.itemsOf (Ordered.get? headersKey fields) ≠ [])
      (hput : Puts headersKey
        (.sequence (above ++ Tree.itemsOf (Ordered.get? headersKey fields))) fields fields') :
      InheritsFrom above (.mapping fields) (.mapping fields')

/-- A server before and after its headers, behind those of the site, go to its locations. -/
inductive HandsDown (site : List Tree) : Tree → Tree → Prop where
  | other {t : Tree} (h : ∀ fields, t ≠ .mapping fields) : HandsDown site t t
  | server {fields fields' : List (String × Tree)}
      (hleaves : Leaves headersKey locationsKey
        (ItemByItem (InheritsFrom (site ++ Tree.itemsOf (Ordered.get? headersKey fields))))
        fields fields') :
      HandsDown site (.mapping fields) (.mapping fields')

/-- A site before and after its headers go to the locations of the servers. -/
abbrev Inherits : Tree → Tree → Prop :=
  Passes headersKey fun headers => ItemByItem (HandsDown headers)

/-! ## The passes follow the rules -/

section Follow

variable {gone key : String} {R : Tree → Tree → Prop} {fields : List (String × Tree)}

theorem leaves_erase_insert (hne : gone ≠ key) {t t' : Tree}
    (h : Ordered.get? key fields = some t) (hR : R t t') :
    Leaves gone key R fields (Ordered.erase gone (Ordered.insert key t' fields)) where
  keys := by
    rw [Ordered.keys_erase, Ordered.keys_insert_of_mem t' (Ordered.mem_keys_of_get? h)]
  value := by
    rw [h, Ordered.get?_erase_of_ne hne, Ordered.get?_insert_self]
    exact .some hR
  others k hgone hkey := by
    rw [Ordered.get?_erase_of_ne hgone.symm, Ordered.get?_insert_of_ne hkey.symm]

theorem leaves_erase (hne : gone ≠ key) (h : Ordered.get? key fields = none) :
    Leaves gone key R fields (Ordered.erase gone fields) where
  keys := Ordered.keys_erase gone fields
  value := by
    rw [Ordered.get?_erase_of_ne hne, h]
    exact .none
  others k hgone _ := Ordered.get?_erase_of_ne hgone.symm fields

theorem puts_insert (key : String) (value : Tree) (fields : List (String × Tree)) :
    Puts key value fields (Ordered.insert key value fields) where
  keys := by
    by_cases hkey : key ∈ Ordered.keys fields
    · rw [if_pos hkey, Ordered.keys_insert_of_mem value hkey]
    · rw [if_neg hkey, Ordered.insert_of_not_mem value hkey, Ordered.keys_append]
      rfl
  value := Ordered.get?_insert_self key value fields
  others k hk := Ordered.get?_insert_of_ne hk.symm value fields

theorem itemByItem_mapItems {g : Tree → Tree} (h : ∀ t, R t (g t)) (t : Tree) :
    ItemByItem R t (mapItems g t) := by
  cases t with
  | scalar v => exact .other (by rintro _ ⟨⟩)
  | mapping fields => exact .other (by rintro _ ⟨⟩)
  | sequence items =>
      rw [mapItems]
      exact .sequence (List.forall₂_map_right_iff.mpr (List.forall₂_same.mpr fun t _ => h t))

theorem passes_overServers {S : List Tree → Tree → Tree → Prop} {g : Tree → Tree} {t : Tree}
    (hne : gone ≠ serversKey)
    (hg : ∀ servers, S (Tree.itemsOf (t.get? gone)) servers (mapItems g servers)) :
    Passes gone S t (overServers gone g t) := by
  rcases hservers : t.get? serversKey with _ | servers
  · rw [overServers_of_none hservers]
    exact .alone hservers
  · cases t with
    | scalar v => cases hservers
    | sequence items => cases hservers
    | mapping root =>
        rw [overServers_of_some hservers]
        exact .site hservers (leaves_erase_insert hne hservers (hg servers))

theorem takesIn_addShared (shared : List Tree) (server : Tree) :
    TakesIn shared server (addShared shared server) := by
  cases server with
  | scalar v => exact .other (by rintro _ ⟨⟩)
  | sequence items => exact .other (by rintro _ ⟨⟩)
  | mapping fields =>
      rcases hget : Ordered.get? locationsKey fields with _ | (v | own | fields')
      · simp only [addShared, hget]
        refine .taken (.inl hget) ?_
        rw [hget]
        exact puts_insert _ _ _
      · simp only [addShared, hget]
        exact .refused hget (by rintro _ ⟨⟩)
      · simp only [addShared, hget]
        refine .taken (.inr ⟨own, hget⟩) ?_
        rw [hget]
        exact puts_insert _ _ _
      · simp only [addShared, hget]
        exact .refused hget (by rintro _ ⟨⟩)

theorem shares_sharedTree (t : Tree) : Shares t (sharedTree t) := by
  rw [sharedTree]
  refine passes_overServers (by decide) fun servers => ?_
  by_cases hshared : Tree.itemsOf (t.get? locationsKey) = []
  · have hid : mapItems id servers = servers := mapItems_eq_self fun _ _ => rfl
    rw [hshared, List.isEmpty_nil, if_pos rfl, hid]
    exact .nothing rfl
  · have hempty : (Tree.itemsOf (t.get? locationsKey)).isEmpty = false := by
      simpa using hshared
    rw [hempty, if_neg Bool.false_ne_true]
    exact .servers hshared (itemByItem_mapItems (takesIn_addShared _) servers)

theorem inheritsFrom_addHeaders (above : List Tree) (location : Tree) :
    InheritsFrom above location (addHeaders above location) := by
  cases location with
  | scalar v => exact .other (by rintro _ ⟨⟩)
  | sequence items => exact .other (by rintro _ ⟨⟩)
  | mapping fields =>
      rw [addHeaders]
      split
      · rename_i hempty
        exact .nothing (List.isEmpty_iff.mp hempty)
      · rename_i hempty
        exact .merged (fun h => hempty (List.isEmpty_iff.mpr h)) (puts_insert _ _ _)

theorem handsDown_handDown (site : List Tree) (server : Tree) :
    HandsDown site server (handDown site server) := by
  have hne : headersKey ≠ locationsKey := by decide
  cases server with
  | scalar v => exact .other (by rintro _ ⟨⟩)
  | sequence items => exact .other (by rintro _ ⟨⟩)
  | mapping fields =>
      rw [handDown]
      split
      · rename_i hget
        exact .server (leaves_erase hne hget)
      · rename_i locations hget
        exact .server (leaves_erase_insert hne hget
          (itemByItem_mapItems (inheritsFrom_addHeaders _) locations))

theorem inherits_inheritedTree (t : Tree) : Inherits t (inheritedTree t) := by
  rw [inheritedTree]
  exact passes_overServers (by decide) (itemByItem_mapItems (handsDown_handDown _))

end Follow

/-! ## The rules allow one tree

Of each rule it is shown that it allows one outcome, when the rules it is made of do; at the bottom
are mappings, which are determined by their keys and values. -/

/-- The rule allows at most one outcome for `t`. -/
def AtMostOne (R : Tree → Tree → Prop) (t : Tree) : Prop :=
  ∀ u v, R t u → R t v → u = v

section Unique

variable {gone key : String} {R : Tree → Tree → Prop} {before after after' : List (String × Tree)}

theorem rel_unique {o p q : Option Tree} (hR : ∀ t, o = some t → AtMostOne R t)
    (h : Option.Rel R o p) (h' : Option.Rel R o q) : p = q := by
  cases h with
  | none =>
      cases h' with
      | none => rfl
  | some h =>
      cases h' with
      | some h' => rw [hR _ rfl _ _ h h']

theorem forall₂_unique {items us vs : List Tree} (hR : ∀ t ∈ items, AtMostOne R t)
    (h : List.Forall₂ R items us) (h' : List.Forall₂ R items vs) : us = vs := by
  induction h generalizing vs with
  | nil =>
      cases h' with
      | nil => rfl
  | cons hu _ ih =>
      obtain ⟨ht, hitems⟩ := List.forall_mem_cons.mp hR
      cases h' with
      | cons hv hvs => rw [ht _ _ hu hv, ih hitems hvs]

theorem Leaves.unique (hd : (Ordered.keys before).Nodup)
    (hR : ∀ t, Ordered.get? key before = some t → AtMostOne R t)
    (h : Leaves gone key R before after) (h' : Leaves gone key R before after') :
    after = after' := by
  have hkeys : Ordered.keys after = Ordered.keys after' := h.keys.trans h'.keys.symm
  have hnodup : (Ordered.keys after).Nodup := h.keys ▸ hd.filter _
  refine Ordered.ext_of_get? hkeys hnodup fun k => ?_
  by_cases hgone : k = gone
  · subst hgone
    have hafter : k ∉ Ordered.keys after := by
      rw [h.keys]
      simp
    rw [Ordered.get?_eq_none_iff.mpr hafter, Ordered.get?_eq_none_iff.mpr (hkeys ▸ hafter)]
  · by_cases hkey : k = key
    · subst hkey
      exact rel_unique hR h.value h'.value
    · rw [h.others k hgone hkey, h'.others k hgone hkey]

theorem Puts.unique {value : Tree} (hd : (Ordered.keys before).Nodup)
    (h : Puts key value before after) (h' : Puts key value before after') : after = after' := by
  have hnodup : (Ordered.keys after).Nodup := by
    have hinsert := Ordered.nodup_insert key value hd
    rwa [(puts_insert key value before).keys, ← h.keys] at hinsert
  refine Ordered.ext_of_get? (h.keys.trans h'.keys.symm) hnodup fun k => ?_
  by_cases hkey : k = key
  · rw [hkey, h.value, h'.value]
  · rw [h.others k hkey, h'.others k hkey]

theorem atMostOne_itemByItem {t : Tree} (hR : ∀ u ∈ Tree.itemsOf (some t), AtMostOne R u) :
    AtMostOne (ItemByItem R) t := by
  intro u v hu hv
  cases hu with
  | sequence hus =>
      cases hv with
      | sequence hvs => rw [forall₂_unique hR hus hvs]
      | other hne => exact absurd rfl (hne _)
  | other hne =>
      cases hv with
      | sequence => exact absurd rfl (hne _)
      | other => rfl

theorem atMostOne_passes {S : List Tree → Tree → Tree → Prop} {t : Tree} (ht : t.UniqueKeys)
    (hS : ∀ servers items, t.get? serversKey = some servers → AtMostOne (S items) servers) :
    AtMostOne (Passes gone S) t := by
  intro u v hu hv
  cases hu with
  | alone hnone =>
      cases hv with
      | alone => rfl
      | site hsome =>
          rw [Tree.get?, hsome] at hnone
          cases hnone
  | site hsome hleaves =>
      cases hv with
      | alone hnone =>
          rw [Tree.get?, hsome] at hnone
          cases hnone
      | site _ hleaves' =>
          have hroot := hleaves.unique ht (fun servers hget => hS servers _ hget) hleaves'
          rw [hroot]

theorem exists_own_of_taken {found : Option Tree} {value : Tree}
    (h : found = none ∨ ∃ own, found = some (.sequence own)) (hvalue : found = some value) :
    ∃ own, value = .sequence own := by
  rcases h with rfl | ⟨own, rfl⟩
  · cases hvalue
  · exact ⟨own, (Option.some.inj hvalue).symm⟩

theorem atMostOne_takesIn (shared : List Tree) {t : Tree} (ht : t.UniqueKeys) :
    AtMostOne (TakesIn shared) t := by
  intro u v hu hv
  cases hu with
  | other hne =>
      cases hv with
      | other => rfl
      | refused | taken => exact absurd rfl (hne _)
  | refused hget hvalue =>
      cases hv with
      | other | refused => rfl
      | taken hown =>
          obtain ⟨own, rfl⟩ := exists_own_of_taken hown hget
          exact absurd rfl (hvalue own)
  | taken hown hput =>
      cases hv with
      | other hne => exact absurd rfl (hne _)
      | refused hget hvalue =>
          obtain ⟨own, rfl⟩ := exists_own_of_taken hown hget
          exact absurd rfl (hvalue own)
      | taken _ hput' => rw [hput.unique ht hput']

theorem atMostOne_sharesAmong (shared : List Tree) {t : Tree}
    (ht : ∀ u ∈ Tree.itemsOf (some t), Tree.UniqueKeys u) : AtMostOne (SharesAmong shared) t := by
  intro u v hu hv
  cases hu with
  | nothing hnil =>
      cases hv with
      | nothing => rfl
      | servers hne => exact absurd hnil hne
  | servers hne heach =>
      cases hv with
      | nothing hnil => exact absurd hnil hne
      | servers _ heach' =>
          have hservers := atMostOne_itemByItem fun u hu => atMostOne_takesIn shared (ht u hu)
          exact hservers _ _ heach heach'

theorem atMostOne_inheritsFrom (above : List Tree) {t : Tree} (ht : t.UniqueKeys) :
    AtMostOne (InheritsFrom above) t := by
  intro u v hu hv
  cases hu with
  | other hne =>
      cases hv with
      | other => rfl
      | nothing | merged => exact absurd rfl (hne _)
  | nothing hnil =>
      cases hv with
      | other | nothing => rfl
      | merged hne => exact absurd hnil hne
  | merged hne hput =>
      cases hv with
      | other hother => exact absurd rfl (hother _)
      | nothing hnil => exact absurd hnil hne
      | merged _ hput' => rw [hput.unique ht hput']

theorem atMostOne_handsDown (site : List Tree) {t : Tree} (ht : t.Everywhere Tree.UniqueKeys) :
    AtMostOne (HandsDown site) t := by
  intro u v hu hv
  cases hu with
  | other hne =>
      cases hv with
      | other => rfl
      | server => exact absurd rfl (hne _)
  | server hleaves =>
      cases hv with
      | other hne => exact absurd rfl (hne _)
      | server hleaves' =>
          have hfields := hleaves.unique ht.here (fun locations hget => ?_) hleaves'
          · rw [hfields]
          · exact atMostOne_itemByItem fun location hlocation =>
              atMostOne_inheritsFrom _ (ht.of_mem_itemsOf hget location hlocation).here

/-- The servers of a tree whose mappings have different keys have different keys everywhere. -/
theorem uniqueKeys_servers {t servers : Tree} (ht : t.Everywhere Tree.UniqueKeys)
    (h : t.get? serversKey = some servers) :
    ∀ u ∈ Tree.itemsOf (some servers), u.Everywhere Tree.UniqueKeys := by
  cases t with
  | scalar v => cases h
  | sequence items => cases h
  | mapping root => exact ht.of_mem_itemsOf h

end Unique

/-! ## Both passes -/

/-- **Sharing is what its rules say.** On every tree, the root's locations leave it, when there are
servers, and each server that can take them gets them behind its own; all else stays as it is and
where it is. When the keys of each mapping are different, no other tree comes from the first by
these rules. Without servers, the whole document stays as it is. -/
theorem shareLocations_shares (doc : Document) :
    Shares doc.tree doc.shareLocations.tree ∧
      (doc.tree.Everywhere Tree.UniqueKeys →
        ∀ t, Shares doc.tree t ↔ t = doc.shareLocations.tree) ∧
      (doc.tree.get? serversKey = none → doc.shareLocations = doc) := by
  have hshares : Shares doc.tree doc.shareLocations.tree := by
    rw [tree_shareLocations]
    exact shares_sharedTree doc.tree
  have hone (hkeys : doc.tree.Everywhere Tree.UniqueKeys) : AtMostOne Shares doc.tree :=
    atMostOne_passes hkeys.here fun servers shared hget =>
      atMostOne_sharesAmong shared fun u hu => (uniqueKeys_servers hkeys hget u hu).here
  refine ⟨hshares, fun hkeys t => ⟨fun ht => ?_, fun ht => ?_⟩, shareLocations_of_no_servers⟩
  · exact hone hkeys t _ ht hshares
  · rw [ht]
    exact hshares

/-- A server without locations, one with locations of its own, one that is text and one whose
locations are a number. -/
def sharingSite : Document :=
  ⟨.mapping [("locations", .sequence [.scalar (.str "/a")]),
      ("servers", .sequence [.mapping [("name", .scalar (.str "s"))],
        .mapping [("locations", .sequence [.scalar (.str "/b")]), ("port", .scalar (.int 80))],
        .scalar (.str "odd"), .mapping [("locations", .scalar (.int 5))]]),
      ("user", .scalar (.str "www"))], ⟨[]⟩⟩

theorem shareLocations_shares_sharingSite :
    sharingSite.tree.Everywhere Tree.UniqueKeys ∧
      (∀ t, Shares sharingSite.tree t ↔ t = .mapping
        [("servers", .sequence
          [.mapping [("name", .scalar (.str "s")), ("locations", .sequence [.scalar (.str "/a")])],
            .mapping [("locations", .sequence [.scalar (.str "/b"), .scalar (.str "/a")]),
              ("port", .scalar (.int 80))],
            .scalar (.str "odd"), .mapping [("locations", .scalar (.int 5))]]),
          ("user", .scalar (.str "www"))]) ∧
      shareLocations ⟨.sequence [.scalar (.int 1)], ⟨[("", 1)]⟩⟩
        = ⟨.sequence [.scalar (.int 1)], ⟨[("", 1)]⟩⟩ := by
  have hkeys : sharingSite.tree.Everywhere Tree.UniqueKeys := by
    simp [sharingSite, Tree.UniqueKeys, Ordered.keys]
  exact ⟨hkeys, (shareLocations_shares sharingSite).2.1 hkeys,
    (shareLocations_shares ⟨.sequence [.scalar (.int 1)], ⟨[("", 1)]⟩⟩).2.2 rfl⟩

/-- **Inheriting is what its rules say.** On every tree, the root's headers leave it, when there are
servers, and those of the servers leave these; each location of a server gets the headers of the
root and of the server in front of its own; all else stays as it is and where it is. When the keys
of each mapping are different, no other tree comes from the first by these rules. Without servers,
the whole document stays as it is. -/
theorem inheritHeaders_inherits (doc : Document) :
    Inherits doc.tree doc.inheritHeaders.tree ∧
      (doc.tree.Everywhere Tree.UniqueKeys →
        ∀ t, Inherits doc.tree t ↔ t = doc.inheritHeaders.tree) ∧
      (doc.tree.get? serversKey = none → doc.inheritHeaders = doc) := by
  have hinherits : Inherits doc.tree doc.inheritHeaders.tree := by
    rw [tree_inheritHeaders]
    exact inherits_inheritedTree doc.tree
  have hone (hkeys : doc.tree.Everywhere Tree.UniqueKeys) : AtMostOne Inherits doc.tree :=
    atMostOne_passes hkeys.here fun servers headers hget =>
      atMostOne_itemByItem fun u hu =>
        atMostOne_handsDown headers (uniqueKeys_servers hkeys hget u hu)
  refine ⟨hinherits, fun hkeys t => ⟨fun ht => ?_, fun ht => ?_⟩, inheritHeaders_of_no_servers⟩
  · exact hone hkeys t _ ht hinherits
  · rw [ht]
    exact hinherits

/-- Headers on all levels, a location that is text and a server whose headers are a number. -/
def inheritingSite : Document :=
  ⟨.mapping [("headers", .sequence [.scalar (.int 1)]),
      ("servers", .sequence
        [.mapping [("headers", .sequence [.scalar (.int 2)]),
          ("locations", .sequence
            [.mapping [("headers", .sequence [.scalar (.int 3)]), ("path", .scalar (.str "/a"))],
              .scalar (.str "odd"), .mapping [("path", .scalar (.str "/b"))]])],
        .mapping [("locations", .sequence [.mapping []]), ("headers", .scalar (.int 5))]])],
    ⟨[]⟩⟩

theorem inheritHeaders_inherits_inheritingSite :
    inheritingSite.tree.Everywhere Tree.UniqueKeys ∧
      (∀ t, Inherits inheritingSite.tree t ↔ t = .mapping
        [("servers", .sequence
          [.mapping [("locations", .sequence
            [.mapping [("headers", .sequence
                [.scalar (.int 1), .scalar (.int 2), .scalar (.int 3)]),
                ("path", .scalar (.str "/a"))],
              .scalar (.str "odd"),
              .mapping [("path", .scalar (.str "/b")),
                ("headers", .sequence [.scalar (.int 1), .scalar (.int 2)])]])],
          .mapping [("locations", .sequence
            [.mapping [("headers", .sequence [.scalar (.int 1)])]])]])]) ∧
      inheritHeaders ⟨.sequence [.scalar (.int 1)], ⟨[("", 1)]⟩⟩
        = ⟨.sequence [.scalar (.int 1)], ⟨[("", 1)]⟩⟩ := by
  have hkeys : inheritingSite.tree.Everywhere Tree.UniqueKeys := by
    simp [inheritingSite, Tree.UniqueKeys, Ordered.keys]
  exact ⟨hkeys, (inheritHeaders_inherits inheritingSite).2.1 hkeys,
    (inheritHeaders_inherits ⟨.sequence [.scalar (.int 1)], ⟨[("", 1)]⟩⟩).2.2 rfl⟩

end Document

end SiteConf
