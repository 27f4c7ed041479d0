import SiteConf.Proofs.Provenance
import SiteConf.Proofs.Rearrangement

set_option autoImplicit false

/-! # Settling twice

A settled tree with servers has no locations and no headers at its root, and no headers in its
servers: nothing is left to be handed down, and both passes keep it (`sharedTree_of_settled`,
`inheritedTree_of_settled`). The table is another matter. A second run takes the headers of every
location out of it and records them again, while the entries of keys that are gone from the tree
are still there. What has been shown about the order of the table says that this ends where it
began, provided that the key of the headers has a line of its own: else the line of a key that is
gone would be used instead. In documents that have been parsed every node has a line, also after
settling. -/

namespace SiteConf.Document

open KeyPath Origins

/-! ## Settled trees -/

/-- Nothing is left to be handed down. -/
structure Settled (t : Tree) : Prop where
  locations : t.get? locationsKey = none
  headers : t.get? headersKey = none
  servers : ∀ server ∈ Tree.itemsOf (t.get? serversKey), server.get? headersKey = none

/-- The servers hand down all their headers. -/
theorem get?_headers_handDown (site : List Tree) (server : Tree) :
    (handDown site server).get? headersKey = none := by
  cases server with
  | scalar v => rfl
  | sequence items => rfl
  | mapping fields =>
      rw [handDown]
      split
      · rw [Tree.get?, Ordered.get?_erase, if_pos rfl]
      · rw [Tree.get?, Ordered.get?_erase, if_pos rfl]

theorem forall_mem_itemsOf_mapItems {g : Tree → Tree} {P : Tree → Prop} (hg : ∀ t, P (g t))
    (t : Tree) : ∀ u ∈ Tree.itemsOf (some (mapItems g t)), P u := by
  cases t with
  | scalar v => exact List.forall_mem_nil _
  | mapping fields => exact List.forall_mem_nil _
  | sequence items =>
      intro u hu
      obtain ⟨t, -, rfl⟩ := List.mem_map.mp hu
      exact hg t

/-- A tree with servers settles. -/
theorem settled_settledTree {t servers : Tree} (h : t.get? serversKey = some servers) :
    Settled (settledTree t) := by
  obtain ⟨servers', hservers⟩ : ∃ servers', (sharedTree t).get? serversKey = some servers' := by
    rw [sharedTree, get?_overServers h, if_neg (by decide), if_pos rfl]
    exact ⟨_, rfl⟩
  have hlocations : (sharedTree t).get? locationsKey = none := by
    rw [sharedTree, get?_overServers h, if_pos rfl]
  refine ⟨?_, ?_, ?_⟩
  · -- the locations went when they were shared
    rw [settledTree, inheritedTree, get?_overServers hservers, if_neg (by decide),
      if_neg (by decide), hlocations]
  · rw [settledTree, inheritedTree, get?_overServers hservers, if_pos rfl]
  · rw [settledTree, inheritedTree, get?_overServers hservers, if_neg (by decide), if_pos rfl]
    exact forall_mem_itemsOf_mapItems (get?_headers_handDown _) _

/-! ## Settling a settled tree -/

theorem overServers_eq_self {gone : String} {g : Tree → Tree} {t : Tree}
    (hgone : t.get? gone = none) (h : ∀ u ∈ Tree.itemsOf (t.get? serversKey), g u = u) :
    overServers gone g t = t := by
  rcases hservers : t.get? serversKey with _ | servers
  · exact overServers_of_none hservers
  · rw [hservers] at h
    cases t with
    | scalar v => cases hservers
    | sequence items => cases hservers
    | mapping root =>
        rw [overServers_of_some hservers, mapItems_eq_self h, Ordered.insert_of_get? hservers,
          Ordered.erase_of_get?_none hgone]

theorem addHeaders_nil (location : Tree) : addHeaders [] location = location := by
  cases location with
  | scalar v => rfl
  | sequence items => rfl
  | mapping fields =>
      rw [addHeaders]
      split
      · rfl
      · rename_i hne
        -- the location has headers of its own, and they are put where they are
        have hown : Tree.itemsOf (Ordered.get? headersKey fields) ≠ [] := fun h =>
          hne (List.isEmpty_iff.mpr h)
        exact congrArg Tree.mapping (Ordered.insert_of_get? (eq_some_of_itemsOf_ne_nil hown))

theorem handDown_eq_self {server : Tree} (h : server.get? headersKey = none) :
    handDown [] server = server := by
  cases server with
  | scalar v => rfl
  | sequence items => rfl
  | mapping fields =>
      have hheaders : Ordered.get? headersKey fields = none := h
      rw [handDown, hheaders]
      split
      · rw [Ordered.erase_of_get?_none hheaders]
      · rename_i locations hlocations
        -- nothing comes from above, so the locations stay as they are
        have hsame : mapItems (addHeaders ([] ++ Tree.itemsOf none)) locations = locations :=
          mapItems_eq_self fun u _ => addHeaders_nil u
        rw [hsame, Ordered.insert_of_get? hlocations, Ordered.erase_of_get?_none hheaders]

theorem sharedTree_of_settled {t : Tree} (h : Settled t) : sharedTree t = t := by
  rw [sharedTree, h.locations]
  exact overServers_eq_self h.locations fun _ _ => rfl

theorem inheritedTree_of_settled {t : Tree} (h : Settled t) : inheritedTree t = t := by
  rw [inheritedTree, h.headers]
  exact overServers_eq_self h.headers fun u hu => handDown_eq_self (h.servers u hu)

/-! ## Settling a settled document -/

section Document

variable {doc : Document}

/-- There are no locations to be shared. -/
theorem shareLocations_of_settled (h : Settled doc.tree) : doc.shareLocations = doc := by
  have htree : doc.shareLocations.tree = doc.tree := by
    rw [tree_shareLocations, sharedTree_of_settled h]
  have horigins : doc.shareLocations.origins = doc.origins := by
    rcases shareLocations_cases doc with
      ⟨-, hrun⟩ | ⟨root, servers, servers', table, hroot, -, hrun, hmoved⟩
    · rw [hrun]
    · rcases hmoved with ⟨-, rfl⟩ | ⟨list, shared, -, hshared, -⟩
      · rw [hrun]
      · -- the loop over the servers runs only if there are locations to be shared
        have hnone := h.locations
        rw [hroot, Tree.get?, hshared] at hnone
        cases hnone
  calc doc.shareLocations
      = ⟨doc.shareLocations.tree, doc.shareLocations.origins⟩ := rfl
    _ = ⟨doc.tree, doc.origins⟩ := by rw [htree, horigins]

theorem at?_serverSteps (t : Tree) (i : Nat) :
    t.at? (serverSteps i) = (Tree.itemsOf (t.get? serversKey))[i]? := by
  rw [serverSteps, Tree.at?_key_cons, Tree.bind_at?_index]

theorem at?_locationSteps {t server : Tree} {i : Nat} (h : t.at? (serverSteps i) = some server)
    (j : Nat) :
    t.at? (locationSteps i j) = (Tree.itemsOf (server.get? locationsKey))[j]? := by
  rw [locationSteps, locationsSteps, Tree.at?_append, Tree.at?_append, h, Option.bind_some,
    Tree.at?_key, Tree.bind_at?_index]

/-- A slot is the path of the headers of a location. -/
theorem exists_headers_of_mem_siteSlots {t : Tree} {slot : String × List Tree}
    (h : slot ∈ siteSlots t) :
    ∃ i j u, t.at? (locationSteps i j ++ [.key headersKey]) = some u ∧
      slot.1 = ofSteps (locationSteps i j ++ [.key headersKey]) := by
  obtain ⟨i, server, hserver, hslot⟩ := exists_of_mem_slotsFrom h
  obtain ⟨j, location, hlocation, hslot⟩ := exists_of_mem_slotsFrom hslot
  have hat : t.at? (locationSteps i j) = some location := by
    rw [at?_locationSteps ((at?_serverSteps t i).trans hserver)]
    exact hlocation
  by_cases hown : Tree.itemsOf (location.get? headersKey) = []
  · rw [locationSlots_of_nil hown] at hslot
    cases hslot
  · rw [locationSlots_of_ne_nil hown] at hslot
    obtain rfl := List.mem_singleton.mp hslot
    refine ⟨i, j, .sequence (Tree.itemsOf (location.get? headersKey)), ?_, ?_⟩
    · rw [Tree.at?_append, hat, Option.bind_some, Tree.at?_key]
      exact eq_some_of_itemsOf_ne_nil hown
    · rw [ofSteps_append_key]

/-- In a settled document the headers of every location have a line. -/
theorem lineOf_isSome_of_mem_siteSlots (hdoc : doc.Addressed) {slot : String × List Tree}
    (h : slot ∈ siteSlots doc.settle.tree) :
    (doc.settle.origins.lineOf slot.1).isSome = true := by
  obtain ⟨i, j, u, hu, hpath⟩ := exists_headers_of_mem_siteSlots h
  obtain ⟨-, hline, v, hv, -⟩ := settle_traces hdoc _ u hu
  rw [List.nil_append] at hline
  have hknown := hdoc.covered _ v hv
  rw [← hline] at hknown
  rw [hpath]
  exact hknown

/-- The table of a settled document has the headers of its locations at its end. -/
theorem exists_holds_settle (hdoc : doc.Addressed) :
    ∃ before ss, Holds doc.settle.origins before ss [] ∧
      ss.map Slot.key = siteSlots doc.settle.tree := by
  obtain ⟨ss, hss, hkeys⟩ := inheritHeaders_rearranges (heritable_shareLocations hdoc).distinct
  refine ⟨cleared ss doc.shareLocations.origins.entries, ss, ⟨?_, hss.cut, fun s hs => ?_,
    hss.apart, outside_cleared, fun s _ => List.forall_mem_nil _⟩, hkeys⟩
  · rw [List.append_nil]
    exact hss.entries
  · -- the line of the slot is the one that the settled table has for its path
    have hslot : s.key ∈ siteSlots doc.settle.tree := hkeys ▸ List.mem_map_of_mem hs
    rw [← hss.lineOf hs]
    exact lineOf_isSome_of_mem_siteSlots hdoc hslot

/-- Without servers there is nobody to hand anything to. -/
theorem settle_of_no_servers (h : doc.tree.get? serversKey = none) : doc.settle = doc := by
  rw [settle, shareLocations_of_no_servers h, inheritHeaders_of_no_servers h]

theorem settle_settle_of_addressed (hdoc : doc.Addressed) : doc.settle.settle = doc.settle := by
  rcases hservers : doc.tree.get? serversKey with _ | servers
  · rw [settle_of_no_servers hservers, settle_of_no_servers hservers]
  · have hsettled : Settled doc.settle.tree := by
      rw [tree_settle]
      exact settled_settledTree hservers
    obtain ⟨before, ss, hholds, hkeys⟩ := exists_holds_settle hdoc
    have htree : doc.settle.inheritHeaders.tree = doc.settle.tree := by
      rw [tree_inheritHeaders, inheritedTree_of_settled hsettled]
    have horigins : doc.settle.inheritHeaders.origins = doc.settle.origins :=
      inheritHeaders_rotates hsettled.headers hsettled.servers hholds hkeys
    calc doc.settle.settle
        = doc.settle.shareLocations.inheritHeaders := rfl
      _ = doc.settle.inheritHeaders := by rw [shareLocations_of_settled hsettled]
      _ = ⟨doc.settle.inheritHeaders.tree, doc.settle.inheritHeaders.origins⟩ := rfl
      _ = ⟨doc.settle.tree, doc.settle.origins⟩ := by rw [htree, horigins]

end Document

/-! ## Parsed documents -/

/-- **Settling is idempotent on parsed documents.** A second run leaves the tree, with the order of
its keys, and the table, with its lines and the order of its entries, as the first run left
them. -/
theorem settle_settle {text : String} {doc : Document} (h : (parse text).result = .ok doc) :
    doc.settle.settle = doc.settle := by
  obtain ⟨d, -, -, -, hlex, hdoc⟩ := exists_derivation_of_parse h
  exact settle_settle_of_addressed (addressed_of_resolve hlex hdoc)

/-- Headers at the root, in the server and in one of its two locations. -/
def headerSite : Document :=
  ⟨.mapping [("headers", .sequence [.scalar (.int 1)]),
      ("servers", .sequence [.mapping [("headers", .sequence [.scalar (.int 2)]),
        ("locations", .sequence
          [.mapping [("headers", .sequence [.scalar (.int 3)])], .mapping []])]])],
    ⟨[("", 1), (".headers", 1), (".headers.0", 1), (".servers", 2), (".servers.0", 2),
      (".servers.0.headers", 2), (".servers.0.headers.0", 2), (".servers.0.locations", 3),
      (".servers.0.locations.0", 3), (".servers.0.locations.0.headers", 3),
      (".servers.0.locations.0.headers.0", 3), (".servers.0.locations.1", 3)]⟩⟩

set_option maxRecDepth 4000 in
/-- The headers of both locations end up behind all other entries, and stay there. -/
theorem settle_settle_headerSite :
    (parse ("\x7bheaders: [1],\n servers: [\x7bheaders: [2],\n" ++
        " locations: [\x7bheaders: [3]\x7d, \x7b\x7d]\x7d]\x7d")).result = .ok headerSite ∧
      headerSite.settle.settle = headerSite.settle ∧
      headerSite.settle.origins.entries.drop 7
        = [(".servers.0.locations", 3), (".servers.0.locations.0", 3),
            (".servers.0.locations.1", 3), (".servers.0.locations.0.headers", 3),
            (".servers.0.locations.0.headers.0", 1), (".servers.0.locations.0.headers.1", 2),
            (".servers.0.locations.0.headers.2", 3), (".servers.0.locations.1.headers", 2),
            (".servers.0.locations.1.headers.0", 1), (".servers.0.locations.1.headers.1", 2)] := by
  have hdoc : (parse ("\x7bheaders: [1],\n servers: [\x7bheaders: [2],\n" ++
      " locations: [\x7bheaders: [3]\x7d, \x7b\x7d]\x7d]\x7d")).result = .ok headerSite :=
    result_parse_eq_ok_iff.mpr
      ⟨[⟨.lbrace, 1⟩, ⟨.ident "headers", 1⟩, ⟨.colon, 1⟩, ⟨.lbracket, 1⟩, ⟨.int 1, 1⟩,
          ⟨.rbracket, 1⟩, ⟨.comma, 1⟩, ⟨.ident "servers", 2⟩, ⟨.colon, 2⟩, ⟨.lbracket, 2⟩,
          ⟨.lbrace, 2⟩, ⟨.ident "headers", 2⟩, ⟨.colon, 2⟩, ⟨.lbracket, 2⟩, ⟨.int 2, 2⟩,
          ⟨.rbracket, 2⟩, ⟨.comma, 2⟩, ⟨.ident "locations", 3⟩, ⟨.colon, 3⟩, ⟨.lbracket, 3⟩,
          ⟨.lbrace, 3⟩, ⟨.ident "headers", 3⟩, ⟨.colon, 3⟩, ⟨.lbracket, 3⟩, ⟨.int 3, 3⟩,
          ⟨.rbracket, 3⟩, ⟨.rbrace, 3⟩, ⟨.comma, 3⟩, ⟨.lbrace, 3⟩, ⟨.rbrace, 3⟩, ⟨.rbracket, 3⟩,
          ⟨.rbrace, 3⟩, ⟨.rbracket, 3⟩, ⟨.rbrace, 3⟩, ⟨.eof, 3⟩],
        .mapping 1 [(⟨"headers", 1⟩, .sequence 1 [.constant 1 (.int 1)]),
          (⟨"servers", 2⟩, .sequence 2 [.mapping 2
            [(⟨"headers", 2⟩, .sequence 2 [.constant 2 (.int 2)]),
              (⟨"locations", 3⟩, .sequence 3
                [.mapping 3 [(⟨"headers", 3⟩, .sequence 3 [.constant 3 (.int 3)])],
                  .mapping 3 []])]])],
        by decide +kernel, by cbv, by cbv⟩
  exact ⟨hdoc, settle_settle hdoc, by decide +kernel⟩

end SiteConf.Document
