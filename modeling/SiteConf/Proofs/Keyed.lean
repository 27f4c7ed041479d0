import SiteConf.Proofs.Children
import SiteConf.Proofs.Provenance

set_option autoImplicit false

/-! # Documents have keyed trees

The tree of a parsed document is keyed, since its literal is lexical and admissible
(`keyed_of_resolve`). Sharing locations and inheriting headers put nodes under the keys of
mappings and take keys out, and that keeps a tree keyed (`keyed_settle`). -/

namespace SiteConf

open KeyPath

/-! ## Changing mappings -/

namespace Tree.Keyed

variable {fields : List (String × Tree)} {k : String} {t v : Tree}

theorem insert (h : (mapping fields).Keyed) (hk : Dotless k) (hv : v.Keyed) :
    (mapping (Ordered.insert k v fields)).Keyed := by
  obtain ⟨⟨hnodup, hdotless⟩, hfields⟩ := (everywhere_mapping fields).mp h
  refine (everywhere_mapping _).mpr ⟨⟨Ordered.nodup_insert k v hnodup, ?_⟩, ?_⟩
  · intro name hname
    obtain ⟨e, he, rfl⟩ := List.mem_map.mp hname
    rcases Ordered.eq_or_mem_of_mem_insert he with rfl | he
    · exact hk
    · exact hdotless _ (List.mem_map_of_mem he)
  · intro e he
    rcases Ordered.eq_or_mem_of_mem_insert he with rfl | he
    · exact hv
    · exact hfields e he

theorem erase (h : (mapping fields).Keyed) (k : String) :
    (mapping (Ordered.erase k fields)).Keyed := by
  obtain ⟨⟨hnodup, hdotless⟩, hfields⟩ := (everywhere_mapping fields).mp h
  have hsub : Ordered.erase k fields ⊆ fields := List.filter_subset_self _
  refine (everywhere_mapping _).mpr ⟨⟨Ordered.nodup_filter _ hnodup, ?_⟩, ?_⟩
  · intro name hname
    exact hdotless name (List.map_subset _ hsub hname)
  · exact fun e he => hfields e (hsub he)

theorem of_get? (h : t.Keyed) (hv : t.get? k = some v) : v.Keyed := by
  rw [← at?_key] at hv
  exact h.of_at? hv

theorem sequence {items : List Tree} (h : ∀ t ∈ items, t.Keyed) : (Tree.sequence items).Keyed :=
  (everywhere_sequence items).mpr ⟨trivial, h⟩

theorem of_mem {items : List Tree} (h : (Tree.sequence items).Keyed) : ∀ t ∈ items, t.Keyed :=
  ((everywhere_sequence items).mp h).2

/-- The items under a key of a keyed tree are keyed. -/
theorem of_mem_itemsOf (h : t.Keyed) : ∀ u ∈ itemsOf (t.get? k), u.Keyed := by
  intro u hu
  rcases hget : t.get? k with _ | (v | items | fields)
  · rw [hget] at hu
    cases hu
  · rw [hget] at hu
    cases hu
  · rw [hget] at hu
    exact (h.of_get? hget).of_mem u hu
  · rw [hget] at hu
    cases hu

end Tree.Keyed

/-! ## Parsed documents -/

namespace Literal

variable {holds : List Tree.Step → Literal → Scalar → Prop}

mutual

theorem Mirrors.keyed : ∀ {steps : List Tree.Step} {l : Literal} {t : Tree},
    Mirrors holds steps l t → Everywhere Lexical l → Everywhere Admissible l → t.Keyed
  | _, _, .mapping fields, .mapping h, hlex, hadm => by
      rw [Everywhere] at hlex hadm
      refine (Tree.everywhere_mapping fields).mpr ⟨⟨?_, ?_⟩, ?_⟩
      · rw [h.keys_eq]
        exact hadm.1
      · intro name hname
        rw [h.keys_eq] at hname
        obtain ⟨e, he, rfl⟩ := List.mem_map.mp hname
        exact dotless_of_isKey (hlex.1 e he)
      · exact MirrorsEntries.keyed h hlex.2 hadm.2
  | _, _, _, .sequence h, hlex, hadm => by
      rw [Everywhere] at hlex hadm
      exact Tree.Keyed.sequence (MirrorsItems.keyed h hlex.2 hadm.2)
  | _, _, _, .scalar _ _, _, _ => (Tree.everywhere_scalar _).mpr trivial

theorem MirrorsEntries.keyed : ∀ {steps : List Tree.Step} {entries : List (Key × Literal)}
    {fields : List (String × Tree)}, MirrorsEntries holds steps entries fields →
    EverywhereInEntries Lexical entries → EverywhereInEntries Admissible entries →
    ∀ e ∈ fields, e.2.Keyed
  | _, _, _, .nil, _, _ => List.forall_mem_nil _
  | _, _, _, .cons hv hrest, hlex, hadm => by
      rw [EverywhereInEntries] at hlex hadm
      exact List.forall_mem_cons.mpr
        ⟨Mirrors.keyed hv hlex.1 hadm.1, MirrorsEntries.keyed hrest hlex.2 hadm.2⟩

theorem MirrorsItems.keyed : ∀ {steps : List Tree.Step} {index : Nat} {items : List Literal}
    {trees : List Tree}, MirrorsItems holds steps index items trees →
    EverywhereInItems Lexical items → EverywhereInItems Admissible items →
    ∀ t ∈ trees, t.Keyed
  | _, _, _, _, .nil, _, _ => List.forall_mem_nil _
  | _, _, _, _, .cons hv hrest, hlex, hadm => by
      rw [EverywhereInItems] at hlex hadm
      exact List.forall_mem_cons.mpr
        ⟨Mirrors.keyed hv hlex.1 hadm.1, MirrorsItems.keyed hrest hlex.2 hadm.2⟩

end

theorem keyed_of_resolve {l : Literal} {doc : Document} (hl : Everywhere Lexical l)
    (h : resolve l = .ok doc) : doc.tree.Keyed := by
  obtain ⟨s, hnone, -, -, hmirrors⟩ := resolve_eq_ok hl h
  exact hmirrors.keyed hl ((firstOffence_nodes_eq_none_iff l).mp hnone).admissible

end Literal

/-! ## Settled documents -/

namespace Document

theorem keyed_shareInto {shared : List Tree} (hshared : ∀ t ∈ shared, t.Keyed) (i : Nat)
    {server : Tree} (h : server.Keyed) (table : Origins) :
    (shareInto shared i server table).1.Keyed := by
  rcases shareInto_cases shared i server table with
    ⟨-, hinto⟩ | ⟨-, -, -, -, hinto⟩ | ⟨fields, own, rfl, hown, hinto⟩
  · rw [hinto]
    exact h
  · rw [hinto]
    exact h
  · have hitems : ∀ t ∈ own, t.Keyed := by
      rcases hown with ⟨-, rfl⟩ | hget
      · exact List.forall_mem_nil _
      · have hsequence : (Tree.sequence own).Keyed := h.of_get? hget
        exact hsequence.of_mem
    rw [hinto]
    refine h.insert dotless_locationsKey (Tree.Keyed.sequence ?_)
    exact List.forall_mem_append.mpr ⟨hitems, hshared⟩

theorem keyed_shareLocations {doc : Document} (h : doc.tree.Keyed) :
    doc.shareLocations.tree.Keyed := by
  rcases shareLocations_cases doc with
    ⟨-, hshare⟩ | ⟨root, servers, servers', table, htree, hget, hshare, hservers'⟩
  · rw [hshare]
    exact h
  · rw [htree] at h
    have hservers : servers.Keyed := h.of_get? hget
    rw [hshare]
    refine (h.insert dotless_serversKey ?_).erase locationsKey
    rcases hservers' with ⟨rfl, -⟩ | ⟨list, shared, rfl, hshared, rfl, -⟩
    · exact hservers
    · have hsequence : (Tree.sequence shared).Keyed := h.of_get? hshared
      refine Tree.Keyed.sequence (walk_keeps (Q := fun _ => True) ?_ 0 hservers.of_mem trivial).1
      exact fun i t table ht _ => ⟨keyed_shareInto hsequence.of_mem i ht table, trivial⟩

theorem keyed_headersOf {owner : Tree} (h : owner.Keyed) (path : String) (table : Origins) :
    ∀ header ∈ headersOf owner path table, header.value.Keyed := by
  intro header hheader
  obtain ⟨item, hitem, rfl⟩ := List.mem_map.mp hheader
  exact h.of_mem_itemsOf _ (List.fst_mem_of_mem_zipIdx hitem)

theorem keyed_inheritInto {above : Inheritance}
    (habove : ∀ header ∈ above.headers, header.value.Keyed) (path : String) {location : Tree}
    (h : location.Keyed) (table : Origins) :
    (inheritInto above path location table).1.Keyed := by
  rcases inheritInto_cases above path location table with ⟨-, hinto⟩ | ⟨fields, rfl, -, hinto⟩
  · rw [hinto]
    exact h
  · rw [hinto]
    refine h.insert dotless_headersKey (Tree.Keyed.sequence (List.forall_mem_map.mpr ?_))
    exact List.forall_mem_append.mpr ⟨habove, keyed_headersOf h path table⟩

theorem keyed_inheritServer {site : Inheritance}
    (hsite : ∀ header ∈ site.headers, header.value.Keyed) (i : Nat) {server : Tree}
    (h : server.Keyed) (table : Origins) : (inheritServer site i server table).1.Keyed := by
  rcases inheritServer_cases site i server table with
    ⟨-, hserver⟩ | ⟨fields, rfl, -, hserver⟩ | ⟨fields, locations, rfl, hget, hserver⟩
  · rw [hserver]
    exact h
  · rw [hserver]
    exact h.erase headersKey
  · have hlocations : (Tree.sequence locations).Keyed := h.of_get? hget
    have habove : ∀ header ∈ (serverAbove site i (.mapping fields) table).headers,
        header.value.Keyed :=
      List.forall_mem_append.mpr ⟨hsite, keyed_headersOf h _ table⟩
    rw [hserver]
    refine (h.insert dotless_locationsKey (Tree.Keyed.sequence ?_)).erase headersKey
    refine (walk_keeps (Q := fun _ => True) ?_ 0 hlocations.of_mem trivial).1
    exact fun j t table ht _ => ⟨keyed_inheritInto habove _ ht table, trivial⟩

theorem keyed_inheritHeaders {doc : Document} (h : doc.tree.Keyed) :
    doc.inheritHeaders.tree.Keyed := by
  rcases inheritHeaders_cases doc with
    ⟨-, hinherit⟩ | ⟨root, servers, servers', table, htree, hget, hinherit, hservers'⟩
  · rw [hinherit]
    exact h
  · have hsite : ∀ header ∈ doc.siteAbove.headers, header.value.Keyed :=
      keyed_headersOf h KeyPath.root doc.origins
    rw [htree] at h
    have hservers : servers.Keyed := h.of_get? hget
    rw [hinherit]
    refine (h.insert dotless_serversKey ?_).erase headersKey
    rcases hservers' with ⟨-, rfl, -⟩ | ⟨list, rfl, rfl, -⟩
    · exact hservers
    · refine Tree.Keyed.sequence (walk_keeps (Q := fun _ => True) ?_ 0 hservers.of_mem trivial).1
      exact fun i t table ht _ => ⟨keyed_inheritServer hsite i ht table, trivial⟩

/-- **Settling a document keeps its tree keyed.** -/
theorem keyed_settle {doc : Document} (h : doc.tree.Keyed) : doc.settle.tree.Keyed :=
  keyed_inheritHeaders (keyed_shareLocations h)

end Document

end SiteConf
