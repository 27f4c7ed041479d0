import SiteConf.Proofs.Sharing

set_option autoImplicit false

/-! # Headers and where they were declared

A location of a server has headers from the root, from the server and of its own.
`declarations` lists where they were declared, `nearestHeaders` says which key their list takes
its line from, and `inheritSource` where every node comes from once the headers have been handed
down. `headersOf_declares` and `recordHeaders_spec` say how headers are read from an origin table
and written back to it. -/

namespace SiteConf.Document

open KeyPath

/-! ## Where nodes come from -/

def locationSteps (i j : Nat) : List Tree.Step :=
  locationsSteps i ++ [.index j]

section Source

variable (find : List Tree.Step → Option Tree)

/-- The steps to the headers that the node at `steps` declares. -/
def declaredAt (steps : List Tree.Step) : List (List Tree.Step) :=
  (List.range (Tree.itemsOf (find (steps ++ [.key headersKey]))).length).map
    fun h => steps ++ [.key headersKey, .index h]

/-- Where the merged headers of a location were declared, in their order: in the root, in the
server, in the location. -/
def declarations (i j : Nat) : List (List Tree.Step) :=
  declaredAt find [] ++ declaredAt find (serverSteps i) ++ declaredAt find (locationSteps i j)

/-- The nearest `headers` key at or above a location. -/
def nearestHeaders (i j : Nat) : List Tree.Step :=
  if (find (locationSteps i j ++ [.key headersKey])).isSome then
    locationSteps i j ++ [.key headersKey]
  else if (find (serverSteps i ++ [.key headersKey])).isSome then
    serverSteps i ++ [.key headersKey]
  else [.key headersKey]

/-- Where a node at or below the headers of a location comes from. -/
def headerSource (i j : Nat) : List Tree.Step → List Tree.Step
  | [] => nearestHeaders find i j
  | .index h :: rest =>
      match (declarations find i j)[h]? with
      | some d => d ++ rest
      | none => locationSteps i j ++ .key headersKey :: .index h :: rest
  | rest => locationSteps i j ++ .key headersKey :: rest

/-- Where a node comes from after the headers have been handed to the locations. -/
def inheritSource : List Tree.Step → List Tree.Step
  | .key a :: .index i :: .key b :: .index j :: .key c :: rest =>
      if a = serversKey ∧ b = locationsKey ∧ c = headersKey then headerSource find i j rest
      else .key a :: .index i :: .key b :: .index j :: .key c :: rest
  | steps => steps

variable {find}

theorem inheritSource_headers (i j : Nat) (rest : List Tree.Step) :
    inheritSource find (locationSteps i j ++ .key headersKey :: rest)
      = headerSource find i j rest := by
  show inheritSource find (.key serversKey :: .index i :: .key locationsKey :: .index j ::
    .key headersKey :: rest) = _
  rw [inheritSource, if_pos ⟨rfl, rfl, rfl⟩]

/-- Only the headers of locations have moved. -/
theorem inheritSource_of_not_isPrefix {steps : List Tree.Step}
    (h : ∀ i j, ¬ locationSteps i j ++ [.key headersKey] <+: steps) :
    inheritSource find steps = steps := by
  unfold inheritSource
  split
  · rename_i a i b j c rest
    refine if_neg ?_
    rintro ⟨rfl, rfl, rfl⟩
    exact h i j ⟨rest, rfl⟩
  · rfl

theorem inheritSource_of_length_le {steps : List Tree.Step} (h : steps.length ≤ 4) :
    inheritSource find steps = steps := by
  refine inheritSource_of_not_isPrefix fun i j hij => ?_
  have hlen := hij.length_le
  simp only [locationSteps, locationsSteps, serverSteps, List.length_append, List.length_cons,
    List.length_nil] at hlen
  omega

theorem inheritSource_server_key {k : String} (hk : k ≠ locationsKey) (i : Nat)
    (s : List Tree.Step) :
    inheritSource find (serverSteps i ++ .key k :: s) = serverSteps i ++ .key k :: s := by
  refine inheritSource_of_not_isPrefix fun i' j h => hk ?_
  have h : i' = i ∧ locationsKey = k ∧ [.index j, .key headersKey] <+: s := by
    simpa [locationSteps, locationsSteps, serverSteps] using h
  exact h.2.1.symm

end Source

/-! ## Lists of headers -/

/-- The header is the node at `d`, with the lines of that node and of all below it. -/
structure Declares (doc : Document) (header : Header) (d : List Tree.Step) : Prop where
  cut : Origins.Cut header.lines
  value : doc.tree.at? d = some header.value
  lines : ∀ r, Plain r →
    Ordered.get? (ofSegments r) header.lines = doc.origins.lineAt (segments d ++ r)

/-- Headers that are read from a table can be grafted. -/
theorem cut_append_headersOf {above : List Header}
    (habove : ∀ header ∈ above, Origins.Cut header.lines) {table : Origins}
    (hd : table.Distinct) (owner : Tree) (path : String) :
    ∀ header ∈ above ++ headersOf owner path table, Origins.Cut header.lines := by
  intro header h
  rcases List.mem_append.mp h with h | h
  · exact habove header h
  · obtain ⟨item, -, rfl⟩ := List.mem_map.mp h
    exact Origins.cut_subtree hd _

theorem declares_subtree {doc : Document} {d : List Tree.Step} {value : Tree} {table : Origins}
    (hvalue : doc.tree.at? d = some value) (hd : table.Distinct)
    (hagree : Origins.AgreeBelow (segments d) table doc.origins) :
    Declares doc ⟨value, table.subtree (ofSteps d)⟩ d := by
  refine ⟨Origins.cut_subtree hd _, hvalue, fun r hr => ?_⟩
  rw [ofSteps, Origins.get?_subtree_ofSegments, hagree r hr]

theorem dotless_headersKey : Dotless headersKey := by
  rw [Dotless, headersKey]
  decide

theorem plain_headersKey : Plain [headersKey] :=
  List.forall_mem_singleton.mpr dotless_headersKey

/-- The headers that a node declares, read from a table that is that of the document below the
node. -/
theorem headersOf_declares {doc : Document} {steps : List Tree.Step} {owner : Tree}
    {table : Origins} (howner : doc.tree.at? steps = some owner) (hd : table.Distinct)
    (hagree : Origins.AgreeBelow (segments steps) table doc.origins) :
    List.Forall₂ (Declares doc) (headersOf owner (ofSteps steps) table)
      (declaredAt (doc.tree.at? ·) steps) := by
  have hheaders : doc.tree.at? (steps ++ [.key headersKey]) = owner.get? headersKey := by
    rw [Tree.at?_append, howner, Option.bind_some, Tree.at?_key]
  -- both lists are indexed by the items under the key, so they are compared index by index
  rw [headersOf, declaredAt, hheaders, List.forall₂_map_left_iff, List.forall₂_map_right_iff,
    List.forall₂_iff_get]
  refine ⟨by simp, fun h hlt _ => ?_⟩
  simp only [List.get_eq_getElem, List.getElem_zipIdx, Nat.zero_add, List.getElem_range]
  have hsplit : steps ++ [.key headersKey, .index h]
      = steps ++ [.key headersKey] ++ [.index h] := by
    rw [List.append_assoc]
    rfl
  rw [← ofSteps_append_key, ← ofSteps_append_index, ← hsplit]
  refine declares_subtree ?_ hd ?_
  · rw [hsplit, Tree.at?_append, hheaders, Tree.bind_at?_index]
    exact List.getElem?_eq_getElem _
  · rw [segments_append]
    exact hagree.append (plain_append_showNat plain_headersKey h)

/-! ## Recording merged headers -/

/-- Grafts header after header to the items from `n` on. -/
theorem graftHeaders_spec {q : List String} (hq : Plain q) (n : Nat) {merged : List Header}
    (hcut : ∀ header ∈ merged, Origins.Cut header.lines) {table : Origins}
    (hd : table.Distinct) :
    let result := (merged.zipIdx n).foldl
      (fun o h => o.graft (item (ofSegments q) h.2) h.1.lines) table
    result.Distinct ∧
      (∀ s, Plain s → (∀ k, n ≤ k → ¬ q ++ [Number.showNat k] <+: s) →
        result.lineAt s = table.lineAt s) ∧
      ∀ h header, merged[h]? = some header → ∀ r, Plain r →
        result.lineAt (q ++ [Number.showNat (n + h)] ++ r)
          = (Ordered.get? (ofSegments r) header.lines).or
              (table.lineAt (q ++ [Number.showNat (n + h)] ++ r)) := by
  induction merged generalizing n table with
  | nil => exact ⟨hd, fun s _ _ => rfl, fun h header hh => nomatch hh⟩
  | cons first merged ih =>
      have htarget : Plain (q ++ [Number.showNat n]) := plain_append_showNat hq n
      have hfirst : Origins.Cut first.lines := hcut first List.mem_cons_self
      obtain ⟨hdistinct, hframe, hgrafted⟩ := ih (n + 1)
        (fun header hh => hcut header (List.mem_cons_of_mem first hh))
        (hd.graft (item (ofSegments q) n) first.lines)
      refine ⟨hdistinct, ?_, ?_⟩
      · intro s hs hnot
        refine (hframe s hs fun k hk => hnot k (by omega)).trans ?_
        rw [item_ofSegments]
        exact Origins.lineAt_graft_of_not_isPrefix hfirst htarget hs (hnot n (Nat.le_refl n)) table
      · intro h header hh r hr
        have hplain : ∀ k, Plain (q ++ [Number.showNat k] ++ r) := fun k =>
          plain_append.mpr ⟨plain_append_showNat hq k, hr⟩
        cases h with
        | zero =>
            -- and the later grafts leave item `n` as it is
            cases hh
            refine (hframe _ (hplain n) fun k hk =>
              not_isPrefix_of_ne (List.prefix_append _ _) (by omega)).trans ?_
            rw [item_ofSegments]
            exact Origins.lineAt_graft hfirst _ r table
        | succ h =>
            -- the graft to item `n` lies above no later item
            have hlater := hgrafted h header hh r hr
            rw [show n + 1 + h = n + (h + 1) by omega] at hlater
            refine hlater.trans ?_
            rw [item_ofSegments, Origins.lineAt_graft_of_not_isPrefix hfirst htarget (hplain _)]
            exact not_isPrefix_of_ne (List.prefix_append _ _) (by omega)

/-- Forgets all at and below a key and gives the key a line. -/
def rekey (q : List String) (line : LineRef) (table : Origins) : Origins :=
  match line with
  | some n => (table.removeSubtree (ofSegments q)).record (ofSegments q) n
  | none => table.removeSubtree (ofSegments q)

theorem rekey_spec {q : List String} (hq : Plain q) (line : LineRef) {table : Origins}
    (hd : table.Distinct) :
    (rekey q line table).Distinct ∧ (rekey q line table).lineAt q = line ∧
      (∀ r, Plain r → r ≠ [] → (rekey q line table).lineAt (q ++ r) = none) ∧
      ∀ s, Plain s → ¬ q <+: s → (rekey q line table).lineAt s = table.lineAt s := by
  have hgone : ∀ r, (table.removeSubtree (ofSegments q)).lineAt (q ++ r) = none := fun r =>
    Origins.lineAt_removeSubtree_of_isPrefix (List.prefix_append q r) table
  have hkept : ∀ s, Plain s → ¬ q <+: s →
      (table.removeSubtree (ofSegments q)).lineAt s = table.lineAt s := fun s hs hnot =>
    Origins.lineAt_removeSubtree_of_not_isPrefix hq hs hnot table
  cases line with
  | none =>
      refine ⟨hd.removeSubtree _, ?_, fun r _ _ => hgone r, hkept⟩
      have h := hgone []
      rw [List.append_nil] at h
      exact h
  | some n =>
      refine ⟨(hd.removeSubtree _).record _ _, Origins.lineAt_record_self q n _, ?_, ?_⟩
      · intro r hr hne
        have hother : q ≠ q ++ r := fun h => hne (List.append_right_eq_self.mp h.symm)
        rw [rekey, Origins.lineAt_record_of_ne hq (plain_append.mpr ⟨hq, hr⟩) hother, hgone]
      · intro s hs hnot
        have hother : q ≠ s := fun h => hnot (h ▸ List.prefix_rfl)
        rw [rekey, Origins.lineAt_record_of_ne hq hs hother, hkept s hs hnot]

/-- Recording merged headers replaces all that was recorded at and below their key. -/
theorem recordHeaders_spec {q : List String} (hq : Plain q) (line : LineRef)
    {merged : List Header} (hcut : ∀ header ∈ merged, Origins.Cut header.lines)
    {table : Origins} (hd : table.Distinct) :
    let result := recordHeaders (ofSegments q) line merged table
    result.Distinct ∧ result.lineAt q = line ∧
      (∀ s, Plain s → ¬ q <+: s → result.lineAt s = table.lineAt s) ∧
      ∀ h header, merged[h]? = some header → ∀ r, Plain r →
        result.lineAt (q ++ [Number.showNat h] ++ r)
          = Ordered.get? (ofSegments r) header.lines := by
  intro result
  obtain ⟨hdk, hline, hbelow, hoff⟩ := rekey_spec hq line hd
  obtain ⟨hdistinct, hframe, hgrafted⟩ := graftHeaders_spec hq 0 hcut hdk
  have hresult : merged.zipIdx.foldl (fun o h => o.graft (item (ofSegments q) h.2) h.1.lines)
      (rekey q line table) = result := rfl
  rw [hresult] at hdistinct hframe hgrafted
  refine ⟨hdistinct, ?_, ?_, ?_⟩
  · rw [hframe q hq fun k _ hunder => ?_, hline]
    have hlen := hunder.length_le
    rw [List.length_append, List.length_singleton] at hlen
    omega
  · intro s hs hnot
    rw [hframe s hs fun k _ hunder => hnot (isPrefix_of_append_singleton hunder), hoff s hs hnot]
  · intro h header hh r hr
    have hr' : Plain ([Number.showNat h] ++ r) :=
      plain_append.mpr ⟨List.forall_mem_singleton.mpr (dotless_showNat h), hr⟩
    have hnone := hbelow _ hr' (List.cons_ne_nil _ _)
    have hgraft := hgrafted h header hh r hr
    rw [Nat.zero_add, List.append_assoc, hnone, Option.or_none, ← List.append_assoc] at hgraft
    exact hgraft

/-! ## The nearest `headers` key -/

/-- The nodes that may declare headers: the root, the servers and their locations. -/
def Owner (steps : List Tree.Step) : Prop :=
  steps = [] ∨ (∃ i, steps = serverSteps i) ∨ ∃ i j, steps = locationSteps i j

/-- What handing down headers relies on: paths are plain, no path is recorded twice, every node
has a line, and an owner without headers has no line for them. -/
structure Heritable (doc : Document) : Prop where
  plain : ∀ steps u, doc.tree.at? steps = some u → Plain (segments steps)
  distinct : doc.origins.Distinct
  covered : ∀ steps u, doc.tree.at? steps = some u →
    (doc.origins.lineAt (segments steps)).isSome = true
  vacant : ∀ steps fields, Owner steps → doc.tree.at? steps = some (.mapping fields) →
    Ordered.get? headersKey fields = none →
    doc.origins.lineAt (segments steps ++ [headersKey]) = none

section Nearest

variable {doc : Document} {i j : Nat}

/-- The line of the headers of an owner stands before another exactly if it has headers. -/
theorem Heritable.lineAt_headers_or (hdoc : doc.Heritable) {steps : List Tree.Step}
    {fields : List (String × Tree)} (howner : Owner steps)
    (hsteps : doc.tree.at? steps = some (.mapping fields)) (line : LineRef) :
    (doc.origins.lineAt (segments steps ++ [headersKey])).or line
      = if (doc.tree.at? (steps ++ [.key headersKey])).isSome then
          doc.origins.lineAt (segments (steps ++ [.key headersKey]))
        else line := by
  have hget : doc.tree.at? (steps ++ [.key headersKey]) = Ordered.get? headersKey fields := by
    rw [Tree.at?_append, hsteps, Option.bind_some, Tree.at?_key]
    rfl
  rcases hheaders : Ordered.get? headersKey fields with _ | headers
  · rw [hget, hheaders, hdoc.vacant steps fields howner hsteps hheaders]
    rfl
  · rw [hheaders] at hget
    obtain ⟨n, hn⟩ := Option.isSome_iff_exists.mp (hdoc.covered _ _ hget)
    rw [segments_append] at hn ⊢
    have hn : doc.origins.lineAt (segments steps ++ [headersKey]) = some n := hn
    rw [hget, hn]
    exact hn.symm

/-- The line that a location, its server and the root give to merged headers. -/
theorem Heritable.lineAt_nearestHeaders (hdoc : doc.Heritable)
    {server fields : List (String × Tree)}
    (hserver : doc.tree.at? (serverSteps i) = some (.mapping server))
    (hlocation : doc.tree.at? (locationSteps i j) = some (.mapping fields)) :
    (doc.origins.lineAt (segments (locationSteps i j) ++ [headersKey])).or
        ((doc.origins.lineAt (segments (serverSteps i) ++ [headersKey])).or
          (doc.origins.lineAt [headersKey]))
      = doc.origins.lineAt (segments (nearestHeaders (doc.tree.at? ·) i j)) := by
  rw [hdoc.lineAt_headers_or (.inr (.inr ⟨i, j, rfl⟩)) hlocation,
    hdoc.lineAt_headers_or (.inr (.inl ⟨i, rfl⟩)) hserver, nearestHeaders]
  split_ifs
  · rfl
  · rfl
  · rfl

theorem declaredAt_of_none {find : List Tree.Step → Option Tree} {steps : List Tree.Step}
    (h : find (steps ++ [.key headersKey]) = none) : declaredAt find steps = [] := by
  rw [declaredAt, h]
  rfl

/-- Where some header is declared there is a nearest key. -/
theorem exists_nearestHeaders {find : List Tree.Step → Option Tree}
    (h : declarations find i j ≠ []) : ∃ v, find (nearestHeaders find i j) = some v := by
  rw [nearestHeaders]
  split_ifs with hlocation hserver
  · exact Option.isSome_iff_exists.mp hlocation
  · exact Option.isSome_iff_exists.mp hserver
  · refine Option.ne_none_iff_exists'.mp fun hroot => h ?_
    rw [Option.not_isSome_iff_eq_none] at hlocation hserver
    rw [declarations, declaredAt_of_none hlocation, declaredAt_of_none hserver,
      declaredAt_of_none hroot]
    rfl

end Nearest

end SiteConf.Document
