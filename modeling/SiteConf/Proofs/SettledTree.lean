import SiteConf.Proofs.Inheriting

set_option autoImplicit false

/-! # The tree of a settled document

Sharing and inheriting work on a tree and a table of lines at once: they read the table, test it
and change it between the nodes. The tree they leave depends on the tree alone. It is given here by
functions that know of no table, and the loops over the servers and the locations turn into maps
(`walk_fst`): the tree of a settled document is `settledTree` of its tree (`tree_settle`). -/

namespace SiteConf.Document

open KeyPath

/-! ## Trees without lines -/

def mapItems (g : Tree → Tree) : Tree → Tree
  | .sequence items => .sequence (items.map g)
  | t => t

/-- The server with the shared locations behind its own. -/
def addShared (shared : List Tree) : Tree → Tree
  | .mapping fields =>
      match Ordered.get? locationsKey fields with
      | none => .mapping (Ordered.insert locationsKey (.sequence shared) fields)
      | some (.sequence own) =>
          .mapping (Ordered.insert locationsKey (.sequence (own ++ shared)) fields)
      | some _ => .mapping fields
  | t => t

/-- The location with the headers from above in front of its own. -/
def addHeaders (above : List Tree) (location : Tree) : Tree :=
  let merged := above ++ Tree.itemsOf (location.get? headersKey)
  match location with
  | .mapping fields =>
      if merged.isEmpty then .mapping fields
      else .mapping (Ordered.insert headersKey (.sequence merged) fields)
  | t => t

/-- The server whose headers, and those of the site, have been moved into its locations. -/
def handDown (site : List Tree) : Tree → Tree
  | .mapping fields =>
      let above := site ++ Tree.itemsOf (Ordered.get? headersKey fields)
      match Ordered.get? locationsKey fields with
      | none => .mapping (Ordered.erase headersKey fields)
      | some locations =>
          .mapping (Ordered.erase headersKey
            (Ordered.insert locationsKey (mapItems (addHeaders above) locations) fields))
  | t => t

/-- The root after a pass over its servers, which takes out another key. -/
def overServers (gone : String) (g : Tree → Tree) : Tree → Tree
  | .mapping root =>
      match Ordered.get? serversKey root with
      | none => .mapping root
      | some servers =>
          .mapping (Ordered.erase gone (Ordered.insert serversKey (mapItems g servers) root))
  | t => t

def sharedTree (t : Tree) : Tree :=
  let shared := Tree.itemsOf (t.get? locationsKey)
  overServers locationsKey (if shared.isEmpty then id else addShared shared) t

def inheritedTree (t : Tree) : Tree :=
  overServers headersKey (handDown (Tree.itemsOf (t.get? headersKey))) t

def settledTree (t : Tree) : Tree :=
  inheritedTree (sharedTree t)

/-! ## Loops -/

/-- The trees that a loop leaves, when the tree of each item depends on the item alone. -/
theorem walk_fst {f : Nat → Tree → Origins → Tree × Origins} {g : Tree → Tree}
    (h : ∀ i t table, (f i t table).1 = g t) (index : Nat) (ts : List Tree) (table : Origins) :
    (walk f index ts table).1 = ts.map g := by
  induction ts generalizing index table with
  | nil => rfl
  | cons t ts ih => rw [walk, List.map_cons, h, ih]

/-! ## Sharing -/

theorem shareInto_fst (shared : List Tree) (i : Nat) (server : Tree) (table : Origins) :
    (shareInto shared i server table).1 = addShared shared server := by
  cases server with
  | scalar v => rfl
  | sequence items => rfl
  | mapping fields =>
      rcases hget : Ordered.get? locationsKey fields with _ | (v | own | fields')
      · simp only [shareInto, addShared, hget]
      · simp only [shareInto, addShared, hget]
      · simp only [shareInto, addShared, hget]
      · simp only [shareInto, addShared, hget]

theorem mapItems_eq_self {g : Tree → Tree} {t : Tree}
    (h : ∀ u ∈ Tree.itemsOf (some t), g u = u) : mapItems g t = t := by
  cases t with
  | scalar v => rfl
  | sequence items =>
      rw [mapItems]
      exact congrArg Tree.sequence ((List.map_congr_left h).trans (List.map_id items))
  | mapping fields => rfl

theorem overServers_of_none {gone : String} {g : Tree → Tree} {t : Tree}
    (h : t.get? serversKey = none) : overServers gone g t = t := by
  cases t with
  | scalar v => rfl
  | sequence items => rfl
  | mapping root =>
      have hroot : Ordered.get? serversKey root = none := h
      simp only [overServers, hroot]

theorem overServers_of_some {gone : String} {g : Tree → Tree} {root : List (String × Tree)}
    {servers : Tree} (h : Ordered.get? serversKey root = some servers) :
    overServers gone g (.mapping root)
      = .mapping (Ordered.erase gone (Ordered.insert serversKey (mapItems g servers) root)) := by
  simp only [overServers, h]

/-- What a pass over the servers does to the keys of the root. -/
theorem get?_overServers {t servers : Tree} (h : t.get? serversKey = some servers)
    (gone : String) (g : Tree → Tree) (k : String) :
    (overServers gone g t).get? k
      = if gone = k then none else if serversKey = k then some (mapItems g servers)
        else t.get? k := by
  cases t with
  | scalar v => cases h
  | sequence items => cases h
  | mapping root =>
      rw [overServers_of_some h, Tree.get?, Tree.get?, Ordered.get?_erase, Ordered.get?_insert]

theorem tree_shareLocations (doc : Document) :
    doc.shareLocations.tree = sharedTree doc.tree := by
  obtain ⟨tree, origins⟩ := doc
  cases tree with
  | scalar v => rfl
  | sequence items => rfl
  | mapping root =>
      show (shareLocations ⟨.mapping root, origins⟩).tree = sharedTree (.mapping root)
      rcases hservers : Ordered.get? serversKey root with _ | servers
      · have hnone : (Tree.mapping root).get? serversKey = none := hservers
        rw [sharedTree, overServers_of_none hnone]
        simp only [shareLocations, hservers]
      · rw [sharedTree, overServers_of_some hservers]
        simp only [shareLocations, hservers]
        show Tree.mapping (Ordered.erase locationsKey (Ordered.insert serversKey _ root)) = _
        congr 3
        show _ = mapItems (if (Tree.itemsOf (Ordered.get? locationsKey root)).isEmpty then id
          else addShared (Tree.itemsOf (Ordered.get? locationsKey root))) servers
        cases hempty : (Tree.itemsOf (Ordered.get? locationsKey root)).isEmpty with
        | true =>
            have hid : mapItems id servers = servers := mapItems_eq_self fun _ _ => rfl
            rw [if_pos rfl, hid]
            cases servers <;> rfl
        | false =>
            rw [if_neg Bool.false_ne_true]
            cases servers with
            | scalar v => rfl
            | sequence list =>
                rw [mapItems, ← walk_fst (shareInto_fst _) 0 list origins, ← shareAll_eq_walk]
                rfl
            | mapping fields => rfl

/-! ## Inheriting -/

theorem headersOf_map_value (owner : Tree) (path : String) (table : Origins) :
    (headersOf owner path table).map (·.value) = Tree.itemsOf (owner.get? headersKey) := by
  rw [headersOf, List.map_map]
  exact List.zipIdx_map_fst 0 _

theorem inheritInto_fst (above : Inheritance) (path : String) (location : Tree)
    (table : Origins) :
    (inheritInto above path location table).1
      = addHeaders (above.headers.map (·.value)) location := by
  have hmerged : (above.headers ++ headersOf location path table).map (·.value)
      = above.headers.map (·.value) ++ Tree.itemsOf (location.get? headersKey) := by
    rw [List.map_append, headersOf_map_value]
  have hempty : (above.headers.map (·.value) ++ Tree.itemsOf (location.get? headersKey)).isEmpty
      = (above.headers ++ headersOf location path table).isEmpty := by
    rw [← hmerged, List.isEmpty_map]
  rcases inheritInto_cases above path location table with
    ⟨hnone | hother, hrun⟩ | ⟨fields, rfl, hne, hrun⟩
  · rw [hrun]
    rw [hnone] at hempty
    cases location with
    | scalar v => rfl
    | sequence items => rfl
    | mapping fields =>
        rw [addHeaders, if_pos]
        exact hempty
  · rw [hrun]
    cases location with
    | scalar v => rfl
    | sequence items => rfl
    | mapping fields => exact absurd rfl (hother fields)
  · rw [hrun, addHeaders, if_neg, ← hmerged]
    rw [hempty, List.isEmpty_iff]
    exact hne

theorem inheritServer_fst (site : Inheritance) (i : Nat) (server : Tree) (table : Origins) :
    (inheritServer site i server table).1 = handDown (site.headers.map (·.value)) server := by
  rcases inheritServer_cases site i server table with
    ⟨hother, hrun⟩ | ⟨fields, rfl, hnone, hrun⟩ | ⟨fields, locations, rfl, hget, hrun⟩
  · rw [hrun]
    cases server with
    | scalar v => rfl
    | sequence items => rfl
    | mapping fields => exact absurd rfl (hother fields)
  · rw [hrun]
    rcases hget : Ordered.get? locationsKey fields with _ | (v | locations | fields')
    · simp only [handDown, hget]
    · simp only [handDown, hget, mapItems, Ordered.insert_of_get? hget]
    · exact absurd hget (hnone locations)
    · simp only [handDown, hget, mapItems, Ordered.insert_of_get? hget]
  · have habove : (serverAbove site i (.mapping fields) table).headers.map (·.value)
        = site.headers.map (·.value) ++ Tree.itemsOf (Ordered.get? headersKey fields) := by
      rw [serverAbove, List.map_append, headersOf_map_value]
      rfl
    rw [hrun, walk_fst fun j t table => inheritInto_fst _ _ t table, habove]
    simp only [handDown, hget, mapItems]

theorem tree_inheritHeaders (doc : Document) :
    doc.inheritHeaders.tree = inheritedTree doc.tree := by
  have hsite : doc.siteAbove.headers.map (·.value) = Tree.itemsOf (doc.tree.get? headersKey) :=
    headersOf_map_value _ _ _
  rcases inheritHeaders_cases doc with
    ⟨hnone, hrun⟩ | ⟨root, servers, servers', table, htree, hservers, hrun, hmoved⟩
  · rw [hrun, inheritedTree, overServers_of_none hnone]
  · rw [hrun, inheritedTree, ← hsite, htree, overServers_of_some hservers]
    have hservers' :
        servers' = mapItems (handDown (doc.siteAbove.headers.map (·.value))) servers := by
      rcases hmoved with ⟨hother, rfl, -⟩ | ⟨list, rfl, rfl, -⟩
      · cases servers' with
        | scalar v => rfl
        | sequence list => exact absurd rfl (hother list)
        | mapping fields => rfl
      · rw [mapItems, walk_fst (inheritServer_fst _)]
    rw [hservers']

/-! ## Without servers -/

theorem shareLocations_of_no_servers {doc : Document} (h : doc.tree.get? serversKey = none) :
    doc.shareLocations = doc := by
  rcases shareLocations_cases doc with ⟨-, hrun⟩ | ⟨root, servers, -, -, hroot, hget, -⟩
  · exact hrun
  · rw [hroot, Tree.get?, hget] at h
    cases h

theorem inheritHeaders_of_no_servers {doc : Document} (h : doc.tree.get? serversKey = none) :
    doc.inheritHeaders = doc := by
  rcases inheritHeaders_cases doc with ⟨-, hrun⟩ | ⟨root, servers, -, -, hroot, hget, -⟩
  · exact hrun
  · rw [hroot, Tree.get?, hget] at h
    cases h

/-! ## Both passes -/

/-- **The tree of a settled document does not depend on the table.** -/
theorem tree_settle (doc : Document) : doc.settle.tree = settledTree doc.tree := by
  rw [settle, tree_inheritHeaders, tree_shareLocations]
  rfl

end SiteConf.Document
