import SiteConf.Proofs.Addresses
import SiteConf.Proofs.Parts
import SiteConf.Proofs.SettledTree

set_option autoImplicit false

/-! # The height of trees

The parser bounds how deep values nest, and with it the height of the tree (`height_le_of_parse`).
Settling makes a tree higher, because headers and locations sink to where they are used:
`height_settledTree_le` says how far each of them sinks. -/

namespace SiteConf

namespace Tree

mutual

/-- How many nodes lie on the longest way down. -/
def height : Tree → Nat
  | scalar _ => 1
  | sequence items => 1 + heightOfItems items
  | mapping fields => 1 + heightOfFields fields

def heightOfItems : List Tree → Nat
  | [] => 0
  | t :: ts => max t.height (heightOfItems ts)

def heightOfFields : List (String × Tree) → Nat
  | [] => 0
  | (_, t) :: rest => max t.height (heightOfFields rest)

end

section Height

variable {n : Nat}

theorem heightOfItems_le_iff {items : List Tree} :
    heightOfItems items ≤ n ↔ ∀ t ∈ items, t.height ≤ n := by
  induction items with
  | nil => simp [heightOfItems]
  | cons t items ih => rw [heightOfItems, Nat.max_le, ih, List.forall_mem_cons]

theorem heightOfFields_le_iff {fields : List (String × Tree)} :
    heightOfFields fields ≤ n ↔ ∀ e ∈ fields, e.2.height ≤ n := by
  induction fields with
  | nil => simp [heightOfFields]
  | cons e fields ih => rw [heightOfFields, Nat.max_le, ih, List.forall_mem_cons]

theorem height_sequence_le_iff {items : List Tree} :
    (sequence items).height ≤ n + 1 ↔ ∀ t ∈ items, t.height ≤ n := by
  rw [height, Nat.add_comm, Nat.add_le_add_iff_right, heightOfItems_le_iff]

theorem height_mapping_le_iff {fields : List (String × Tree)} :
    (mapping fields).height ≤ n + 1 ↔ ∀ e ∈ fields, e.2.height ≤ n := by
  rw [height, Nat.add_comm, Nat.add_le_add_iff_right, heightOfFields_le_iff]

theorem height_pos (t : Tree) : 0 < t.height := by
  cases t <;> rw [height] <;> omega

/-- A tree is one node higher than its highest child. -/
theorem height_le_iff {t : Tree} : t.height ≤ n + 1 ↔ ∀ c ∈ t.children, c.2.height ≤ n := by
  cases t with
  | scalar v =>
      rw [height]
      constructor
      · intro _ c hc
        cases hc
      · intro _
        omega
  | sequence items =>
      rw [height_sequence_le_iff]
      constructor
      · intro h c hc
        obtain ⟨i, -, hi⟩ := mem_itemSteps.mp hc
        exact h _ (List.mem_of_getElem? hi)
      · intro h t ht
        obtain ⟨i, hi⟩ := List.mem_iff_getElem?.mp ht
        exact h (.index i, t) (mem_itemSteps.mpr ⟨i, by rw [Nat.zero_add], hi⟩)
  | mapping fields =>
      rw [height_mapping_le_iff]
      constructor
      · intro h c hc
        obtain ⟨k, -, hmem⟩ := mem_fieldSteps.mp hc
        exact h _ hmem
      · intro h e he
        exact h (.key e.1, e.2) (mem_fieldSteps.mpr ⟨e.1, rfl, he⟩)

theorem height_lt_of_mem_children {t : Tree} {c : Step × Tree} (hc : c ∈ t.children) :
    c.2.height < t.height := by
  obtain ⟨n, hn⟩ := Nat.exists_eq_add_one_of_ne_zero (Nat.ne_of_gt t.height_pos)
  have hle := height_le_iff.mp hn.le c hc
  omega

/-- The items under a key lie two nodes further down. -/
theorem height_of_mem_itemsOf {t u : Tree} {key : String} (h : t.height ≤ n + 2)
    (hu : u ∈ itemsOf (t.get? key)) : u.height ≤ n := by
  cases t with
  | scalar v => cases hu
  | sequence items => cases hu
  | mapping fields =>
      rw [get?] at hu
      rcases hget : Ordered.get? key fields with _ | value
      · rw [hget] at hu
        cases hu
      · rw [hget] at hu
        have hvalue := height_mapping_le_iff.mp h _ (Ordered.mem_of_get? hget)
        cases value with
        | scalar v => cases hu
        | mapping entries => cases hu
        | sequence items => exact height_sequence_le_iff.mp hvalue u hu

end Height

end Tree

/-! ## The height of a parsed tree -/

namespace Literal

/-- A value in a list of entries has a derivation of its own. -/
theorem MoreEntries.exists_of_mem : ∀ (m : MoreEntries) {v : Literal},
    v ∈ m.entryList.map Prod.snd → ∃ d : Derivation, d.literal = v ∧ d.depth ≤ m.depth
  | .stop, v, h => by cases h
  | .comma line, v, h => by cases h
  | .entry line key colon value more, v, h => by
      rw [MoreEntries.entryList, List.map_cons] at h
      rw [MoreEntries.depth]
      rcases List.mem_cons.mp h with rfl | h
      · exact ⟨value, rfl, le_max_left _ _⟩
      · obtain ⟨d, hd, hdepth⟩ := more.exists_of_mem h
        exact ⟨d, hd, le_max_of_le_right hdepth⟩

/-- An item in a list of items has a derivation of its own. -/
theorem MoreItems.exists_of_mem : ∀ (m : MoreItems) {v : Literal}, v ∈ m.itemList →
    ∃ d : Derivation, d.literal = v ∧ d.depth ≤ m.depth
  | .stop, v, h => by cases h
  | .comma line, v, h => by cases h
  | .item line value more, v, h => by
      rw [MoreItems.itemList] at h
      rw [MoreItems.depth]
      rcases List.mem_cons.mp h with rfl | h
      · exact ⟨value, rfl, le_max_left _ _⟩
      · obtain ⟨d, hd, hdepth⟩ := more.exists_of_mem h
        exact ⟨d, hd, le_max_of_le_right hdepth⟩

/-- **The parts of a literal are derived with less depth.** -/
theorem Derivation.exists_of_mem_parts (d : Derivation) {v : Literal} (h : v ∈ d.literal.parts) :
    ∃ d' : Derivation, d'.literal = v ∧ d'.depth < d.depth := by
  cases d with
  | mapping left body right =>
      cases body with
      | empty => cases h
      | entries key colon value more =>
          rw [Derivation.depth, MappingBody.depth]
          rcases List.mem_cons.mp h with rfl | h
          · exact ⟨value, rfl, by omega⟩
          · obtain ⟨d, hd, hdepth⟩ := more.exists_of_mem h
            exact ⟨d, hd, by omega⟩
  | sequence left body right =>
      cases body with
      | empty => cases h
      | items value more =>
          rw [Derivation.depth, SequenceBody.depth]
          rcases List.mem_cons.mp h with rfl | h
          · exact ⟨value, rfl, by omega⟩
          · obtain ⟨d, hd, hdepth⟩ := more.exists_of_mem h
            exact ⟨d, hd, by omega⟩
  | constant line value => cases h
  | negation minus operand => cases h
  | reference line first more => cases h

theorem Derivation.depth_pos (d : Derivation) : 0 < d.depth := by
  cases d <;> rw [Derivation.depth] <;> omega

/-- **A tree is no higher than the literal it mirrors is deep.** Minuses count for the depth
only. -/
theorem Mirrors.height_le {holds : List Tree.Step → Literal → Scalar → Prop}
    {steps : List Tree.Step} {t : Tree} {d : Derivation} (h : Mirrors holds steps d.literal t) :
    t.height ≤ d.depth := by
  induction t using Tree.children_induction generalizing steps d with
  | h t ih =>
      obtain ⟨n, hn⟩ := Nat.exists_eq_add_one_of_ne_zero (Nat.ne_of_gt d.depth_pos)
      rw [hn]
      refine Tree.height_le_iff.mpr fun c hc => ?_
      obtain ⟨v, hv, hm⟩ := h.exists_part hc
      obtain ⟨d', rfl, hdepth⟩ := d.exists_of_mem_parts hv
      have hchild := ih c hc hm
      omega

end Literal

namespace Document

open Literal

/-- The tree of a text is no higher than values may nest. -/
theorem height_le_of_parse {text : String} {doc : Document} (h : (parse text).result = .ok doc) :
    doc.tree.height ≤ maxDepth := by
  obtain ⟨tokens, l, htokens, hl, hdoc⟩ := result_parse_eq_ok_iff.mp h
  obtain ⟨-, -, -, -, -, hlex⟩ := exists_lexical_derivation htokens hl
  obtain ⟨ts, last, rfl, hlast, hts⟩ := Token.tokenize_eq_ok htokens
  obtain ⟨d, -, hdepth, rfl⟩ := exists_derivation_of_ofTokens hlast (fun t ht => (hts t ht).1) hl
  obtain ⟨s, -, -, -, hmirrors⟩ := resolve_eq_ok hlex hdoc
  exact hmirrors.height_le.trans hdepth

/-! ## The height of a settled tree -/

section Settled

variable {n : Nat}

/-- A new entry has to be as low as the others. -/
theorem height_insert_le {fields : List (String × Tree)} (h : (Tree.mapping fields).height ≤ n + 1)
    (key : String) {value : Tree} (hvalue : value.height ≤ n) :
    (Tree.mapping (Ordered.insert key value fields)).height ≤ n + 1 := by
  rw [Tree.height_mapping_le_iff] at h ⊢
  intro e he
  rcases Ordered.eq_or_mem_of_mem_insert he with rfl | he
  · exact hvalue
  · exact h e he

theorem height_erase_le {fields : List (String × Tree)} (h : (Tree.mapping fields).height ≤ n + 1)
    (key : String) : (Tree.mapping (Ordered.erase key fields)).height ≤ n + 1 := by
  rw [Tree.height_mapping_le_iff] at h ⊢
  exact fun e he => h e (List.mem_of_mem_filter he)

theorem height_mapItems_le {g : Tree → Tree} {t : Tree} (ht : t.height ≤ n + 1)
    (hg : ∀ u ∈ Tree.itemsOf (some t), (g u).height ≤ n) : (mapItems g t).height ≤ n + 1 := by
  cases t with
  | scalar v => exact ht
  | mapping fields => exact ht
  | sequence items => exact Tree.height_sequence_le_iff.mpr (List.forall_mem_map.mpr hg)

theorem height_overServers_le {gone : String} {g : Tree → Tree} {t : Tree}
    (ht : t.height ≤ n + 2) (hg : ∀ u ∈ Tree.itemsOf (t.get? serversKey), (g u).height ≤ n) :
    (overServers gone g t).height ≤ n + 2 := by
  rcases hservers : t.get? serversKey with _ | servers
  · rw [overServers_of_none hservers]
    exact ht
  · cases t with
    | scalar v => cases hservers
    | sequence items => cases hservers
    | mapping root =>
        have hget : Ordered.get? serversKey root = some servers := hservers
        rw [hservers] at hg
        have hheight := Tree.height_mapping_le_iff.mp ht _ (Ordered.mem_of_get? hget)
        rw [overServers_of_some hget]
        exact height_erase_le (height_insert_le ht _ (height_mapItems_le hheight hg)) _

theorem itemsOf_servers_overServers {gone : String} (hgone : gone ≠ serversKey) (g : Tree → Tree)
    (t : Tree) : Tree.itemsOf ((overServers gone g t).get? serversKey)
      = (Tree.itemsOf (t.get? serversKey)).map g := by
  rcases hservers : t.get? serversKey with _ | servers
  · rw [overServers_of_none hservers, hservers]
    rfl
  · rw [get?_overServers hservers, if_neg hgone, if_pos rfl]
    cases servers <;> rfl

theorem get?_overServers_of_ne {gone key : String} (hgone : gone ≠ key) (hkey : serversKey ≠ key)
    (g : Tree → Tree) (t : Tree) : (overServers gone g t).get? key = t.get? key := by
  rcases hservers : t.get? serversKey with _ | servers
  · rw [overServers_of_none hservers]
  · rw [get?_overServers hservers, if_neg hgone, if_neg hkey]

theorem height_addShared_le {shared : List Tree} {server : Tree} (h : server.height ≤ n + 2)
    (hshared : ∀ u ∈ shared, u.height ≤ n) : (addShared shared server).height ≤ n + 2 := by
  cases server with
  | scalar v => exact h
  | sequence items => exact h
  | mapping fields =>
      rcases hget : Ordered.get? locationsKey fields with _ | (v | own | entries)
      · simp only [addShared, hget]
        exact height_insert_le h _ (Tree.height_sequence_le_iff.mpr hshared)
      · simp only [addShared, hget]
        exact h
      · simp only [addShared, hget]
        have hown := Tree.height_mapping_le_iff.mp h _ (Ordered.mem_of_get? hget)
        refine height_insert_le h _ (Tree.height_sequence_le_iff.mpr ?_)
        exact List.forall_mem_append.mpr ⟨Tree.height_sequence_le_iff.mp hown, hshared⟩
      · simp only [addShared, hget]
        exact h

theorem get?_headers_addShared (shared : List Tree) (server : Tree) :
    (addShared shared server).get? headersKey = server.get? headersKey := by
  have hne : locationsKey ≠ headersKey := by decide
  cases server with
  | scalar v => rfl
  | sequence items => rfl
  | mapping fields =>
      rcases hget : Ordered.get? locationsKey fields with _ | (v | own | entries)
      · simp only [addShared, hget, Tree.get?, Ordered.get?_insert_of_ne hne]
      · simp only [addShared, hget]
      · simp only [addShared, hget, Tree.get?, Ordered.get?_insert_of_ne hne]
      · simp only [addShared, hget]

theorem height_addHeaders_le {above : List Tree} {location : Tree} (h : location.height ≤ n + 2)
    (habove : ∀ u ∈ above, u.height ≤ n) : (addHeaders above location).height ≤ n + 2 := by
  have hmerged : ∀ u ∈ above ++ Tree.itemsOf (location.get? headersKey), u.height ≤ n :=
    List.forall_mem_append.mpr ⟨habove, fun u hu => Tree.height_of_mem_itemsOf h hu⟩
  cases location with
  | scalar v => exact h
  | sequence items => exact h
  | mapping fields =>
      rw [addHeaders]
      split
      · exact h
      · exact height_insert_le h _ (Tree.height_sequence_le_iff.mpr hmerged)

theorem height_handDown_le {site : List Tree} {server : Tree} (h : server.height ≤ n + 4)
    (hsite : ∀ u ∈ site, u.height ≤ n)
    (hheaders : ∀ u ∈ Tree.itemsOf (server.get? headersKey), u.height ≤ n) :
    (handDown site server).height ≤ n + 4 := by
  cases server with
  | scalar v => exact h
  | sequence items => exact h
  | mapping fields =>
      have habove : ∀ u ∈ site ++ Tree.itemsOf (Ordered.get? headersKey fields), u.height ≤ n :=
        List.forall_mem_append.mpr ⟨hsite, hheaders⟩
      rw [handDown]
      split
      · exact height_erase_le h _
      · rename_i locations hget
        have hlocations := Tree.height_mapping_le_iff.mp h _ (Ordered.mem_of_get? hget)
        refine height_erase_le (height_insert_le h _ (height_mapItems_le hlocations ?_)) _
        intro location hlocation
        refine height_addHeaders_le ?_ habove
        refine @Tree.height_of_mem_itemsOf (n + 2) (.mapping fields) _ locationsKey h ?_
        rw [Tree.get?, hget]
        exact hlocation

/-- **How far things sink.** The headers of the root and of the servers come to lie six nodes down,
the locations of the root four nodes; nothing else makes the tree higher. -/
theorem height_settledTree_le {t : Tree} (ht : t.height ≤ n + 6)
    (hheaders : ∀ u ∈ Tree.itemsOf (t.get? headersKey), u.height ≤ n)
    (hlocations : ∀ u ∈ Tree.itemsOf (t.get? locationsKey), u.height ≤ n + 2)
    (hserver : ∀ s ∈ Tree.itemsOf (t.get? serversKey),
      ∀ u ∈ Tree.itemsOf (s.get? headersKey), u.height ≤ n) :
    (settledTree t).height ≤ n + 6 := by
  -- a server takes in the shared locations, for which it has room, and keeps its headers
  obtain ⟨g, hg, hshared⟩ : ∃ g : Tree → Tree,
      (∀ s, s.height ≤ n + 4 →
        (g s).height ≤ n + 4 ∧ (g s).get? headersKey = s.get? headersKey) ∧
      sharedTree t = overServers locationsKey g t := by
    refine ⟨_, fun s hs => ?_, rfl⟩
    split
    · exact ⟨hs, rfl⟩
    · exact ⟨height_addShared_le hs hlocations, get?_headers_addShared _ s⟩
  have hservers : ∀ s ∈ Tree.itemsOf (t.get? serversKey), s.height ≤ n + 4 :=
    fun s hs => Tree.height_of_mem_itemsOf ht hs
  have hheight : (sharedTree t).height ≤ n + 6 := by
    rw [hshared]
    exact height_overServers_le ht fun s hs => (hg s (hservers s hs)).1
  rw [settledTree, inheritedTree]
  refine height_overServers_le hheight fun s' hs' => ?_
  rw [hshared, itemsOf_servers_overServers (by decide)] at hs'
  obtain ⟨s, hs, rfl⟩ := List.mem_map.mp hs'
  obtain ⟨hroom, hkept⟩ := hg s (hservers s hs)
  refine height_handDown_le hroom ?_ ?_
  · rw [hshared, get?_overServers_of_ne (by decide) (by decide)]
    exact hheaders
  · rw [hkept]
    exact hserver s hs

/-- Settling makes a tree at most four nodes higher. -/
theorem height_settledTree (t : Tree) : (settledTree t).height ≤ t.height + 4 := by
  rcases hservers : t.get? serversKey with _ | servers
  · have hsame : settledTree t = t := by
      rw [settledTree, sharedTree, overServers_of_none hservers, inheritedTree,
        overServers_of_none hservers]
    rw [hsame]
    omega
  · cases t with
    | scalar v => cases hservers
    | sequence items => cases hservers
    | mapping root =>
        -- the servers and the root are two nodes
        obtain ⟨n, hn⟩ : ∃ n, (Tree.mapping root).height = n + 2 := by
          have hget : Ordered.get? serversKey root = some servers := hservers
          have hchild : (.key serversKey, servers) ∈ (Tree.mapping root).children :=
            Tree.mem_fieldSteps.mpr ⟨serversKey, rfl, Ordered.mem_of_get? hget⟩
          have hlt : servers.height < _ := Tree.height_lt_of_mem_children hchild
          have hpos := servers.height_pos
          exact ⟨(Tree.mapping root).height - 2, by omega⟩
        rw [hn]
        refine height_settledTree_le (by omega) ?_ ?_ ?_
        · exact fun u hu => Tree.height_of_mem_itemsOf hn.le hu
        · intro u hu
          have hle := Tree.height_of_mem_itemsOf hn.le hu
          omega
        · intro s hs u hu
          have hle := Tree.height_of_mem_itemsOf hn.le hs
          exact Tree.height_of_mem_itemsOf (hle.trans (by omega)) hu

end Settled

end Document

end SiteConf
