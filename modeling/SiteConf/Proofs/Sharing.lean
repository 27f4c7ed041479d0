import SiteConf.Document.Inherit
import SiteConf.Proofs.Lineage

set_option autoImplicit false

/-! # The lineage of shared locations

`shareLocations` appends a copy of the root's locations to the locations of every server.
`shareSource` says where the nodes of the result come from, and `shareLocations_traces` that the
origin table agrees. -/

namespace SiteConf.Document

open KeyPath

/-! ## Where nodes come from -/

def serverSteps (i : Nat) : List Tree.Step :=
  [.key serversKey, .index i]

def locationsSteps (i : Nat) : List Tree.Step :=
  serverSteps i ++ [.key locationsKey]

/-- Where a node at or below the locations of a server comes from: after the server's own
locations stand copies of the root's, and so does the key itself if the server had none. -/
def locationsSource (t : Tree) (i : Nat) : List Tree.Step → List Tree.Step
  | [] => if (t.at? (locationsSteps i)).isSome then locationsSteps i else [.key locationsKey]
  | .index j :: rest =>
      let own := (Tree.itemsOf (t.at? (locationsSteps i))).length
      if j < own then locationsSteps i ++ .index j :: rest
      else .key locationsKey :: .index (j - own) :: rest
  | rest => locationsSteps i ++ rest

/-- Where a node comes from after the root's locations have been handed to the servers. -/
def shareSource (t : Tree) : List Tree.Step → List Tree.Step
  | .key a :: .index i :: .key b :: rest =>
      if a = serversKey ∧ b = locationsKey then locationsSource t i rest
      else .key a :: .index i :: .key b :: rest
  | steps => steps

theorem shareSource_locationsSteps (t : Tree) (i : Nat) (rest : List Tree.Step) :
    shareSource t (locationsSteps i ++ rest) = locationsSource t i rest := by
  show shareSource t (.key serversKey :: .index i :: .key locationsKey :: rest) = _
  rw [shareSource, if_pos ⟨rfl, rfl⟩]

/-- Only the locations of servers have moved. -/
theorem shareSource_of_not_isPrefix {t : Tree} {steps : List Tree.Step}
    (h : ∀ i, ¬ locationsSteps i <+: steps) : shareSource t steps = steps := by
  unfold shareSource
  split
  · rename_i a i b rest
    refine if_neg ?_
    rintro ⟨rfl, rfl⟩
    exact h i ⟨rest, rfl⟩
  · rfl

/-- A node that was there before has not moved. -/
theorem locationsSource_of_at? {t u : Tree} {i : Nat} {rest : List Tree.Step}
    (h : t.at? (locationsSteps i ++ rest) = some u) :
    locationsSource t i rest = locationsSteps i ++ rest := by
  cases rest with
  | nil =>
      rw [List.append_nil] at h
      rw [locationsSource, h, List.append_nil]
      rfl
  | cons step rest =>
      cases step with
      | key k => rfl
      | index j =>
          rw [Tree.at?_append] at h
          obtain ⟨v, hv, h⟩ := Option.bind_eq_some_iff.mp h
          rw [Tree.at?_index_cons] at h
          obtain ⟨w, hw, -⟩ := Option.bind_eq_some_iff.mp h
          obtain ⟨hj, -⟩ := List.getElem?_eq_some_iff.mp hw
          rw [locationsSource, hv, if_pos hj]

theorem shareSource_of_at? {t u : Tree} {steps : List Tree.Step} (h : t.at? steps = some u) :
    shareSource t steps = steps := by
  unfold shareSource
  split
  · rename_i a i b rest
    split_ifs with hkeys
    · obtain ⟨rfl, rfl⟩ := hkeys
      exact locationsSource_of_at? h
    · rfl
  · rfl

/-! ## Copying the lines of items -/

/-- Item `k` of the source is copied to item `offset + k` of the target, and nothing else
changes. The source does not lie below the target. -/
theorem copyItems_spec {p q : List String} (hp : Plain p) (hq : Plain q)
    (hpq : ∀ r, ¬ q <+: p ++ r) (offset count : Nat) {table : Origins} (hd : table.Distinct) :
    (copyItems (ofSegments p) (ofSegments q) offset count table).Distinct ∧
      (∀ s, Plain s → (∀ k < count, ¬ q ++ [Number.showNat (offset + k)] <+: s) →
        (copyItems (ofSegments p) (ofSegments q) offset count table).lineAt s = table.lineAt s) ∧
      ∀ k < count, ∀ r, Plain r →
        (copyItems (ofSegments p) (ofSegments q) offset count table).lineAt
            (q ++ [Number.showNat (offset + k)] ++ r)
          = (table.lineAt (p ++ [Number.showNat k] ++ r)).or
              (table.lineAt (q ++ [Number.showNat (offset + k)] ++ r)) := by
  induction count with
  | zero => exact ⟨hd, fun s _ _ => rfl, fun k hk => absurd hk (Nat.not_lt_zero k)⟩
  | succ count ih =>
      obtain ⟨hdc, hframe, hcopied⟩ := ih
      set before := copyItems (ofSegments p) (ofSegments q) offset count table with hbefore
      have hsucc : copyItems (ofSegments p) (ofSegments q) offset (count + 1) table
          = before.graft (ofSegments (q ++ [Number.showNat (offset + count)]))
              (before.subtree (ofSegments (p ++ [Number.showNat count]))) := by
        rw [hbefore, copyItems, List.range_succ, List.foldl_append, ← item_ofSegments,
          ← item_ofSegments]
        rfl
      have htarget : Plain (q ++ [Number.showNat (offset + count)]) :=
        plain_append_showNat hq _
      have hgraft : ∀ s, Plain s → ¬ q ++ [Number.showNat (offset + count)] <+: s →
          (copyItems (ofSegments p) (ofSegments q) offset (count + 1) table).lineAt s
            = before.lineAt s := by
        intro s hs hnot
        rw [hsucc, Origins.lineAt_graft_of_not_isPrefix (Origins.cut_subtree hdc _) htarget hs hnot]
      refine ⟨?_, ?_, ?_⟩
      · rw [hsucc]
        exact hdc.graft _ _
      · intro s hs hnot
        rw [hgraft s hs (hnot count (Nat.lt_succ_self count))]
        exact hframe s hs fun k hk => hnot k (Nat.lt_succ_of_lt hk)
      · intro k hk r hr
        rcases Nat.lt_succ_iff_lt_or_eq.mp hk with hk | rfl
        · have hplain : Plain (q ++ [Number.showNat (offset + k)] ++ r) :=
            plain_append.mpr ⟨plain_append_showNat hq _, hr⟩
          rw [hgraft _ hplain (not_isPrefix_of_ne (List.prefix_append _ _) (by omega))]
          exact hcopied k hk r hr
        · have hsource : Plain (p ++ [Number.showNat k] ++ r) :=
            plain_append.mpr ⟨plain_append_showNat hp _, hr⟩
          rw [hsucc, Origins.lineAt_graft (Origins.cut_subtree hdc _),
            Origins.get?_subtree_ofSegments]
          congr 1
          · -- the source has not changed on the way: no target lies above it
            refine hframe _ hsource fun k' _ hunder => hpq ([Number.showNat k] ++ r) ?_
            rw [← List.append_assoc]
            exact isPrefix_of_append_singleton hunder
          · refine hframe _ (plain_append.mpr ⟨htarget, hr⟩) fun k' hk' => ?_
            exact not_isPrefix_of_ne (List.prefix_append _ _) (by omega)

/-! ## One server -/

def locationsAt (i : Nat) : List String :=
  [serversKey, Number.showNat i, locationsKey]

theorem dotless_serversKey : Dotless serversKey := by
  rw [Dotless, serversKey]
  decide

theorem dotless_locationsKey : Dotless locationsKey := by
  rw [Dotless, locationsKey]
  decide

theorem plain_locationsAt (i : Nat) : Plain (locationsAt i) := by
  intro s hs
  simp only [locationsAt, List.mem_cons, List.not_mem_nil, or_false] at hs
  rcases hs with rfl | rfl | rfl
  · exact dotless_serversKey
  · exact dotless_showNat i
  · exact dotless_locationsKey

/-- The paths below a server lie in the region of no other server. -/
theorem not_locationsAt_isPrefix {i k : Nat} (hne : k ≠ i) (r : List String) :
    ¬ locationsAt k <+: segments (serverSteps i) ++ r := by
  intro h
  have hserver : [serversKey] ++ [Number.showNat k] <+: locationsAt k := ⟨[locationsKey], rfl⟩
  have hi : [serversKey] ++ [Number.showNat i] <+: segments (serverSteps i) ++ r := ⟨r, rfl⟩
  exact not_isPrefix_of_ne hi hne (hserver.trans h)

/-- The root's locations lie in the region of no server. -/
theorem not_locationsAt_isPrefix_shared (k : Nat) (r : List String) :
    ¬ locationsAt k <+: locationsKey :: r := by
  intro h
  have hkey : serversKey = locationsKey := (List.cons_prefix_cons.mp h).1
  rw [serversKey, locationsKey] at hkey
  exact absurd hkey (by decide)

/-- Gives the locations of a server the line of the root's locations, unless they have one. -/
def claimLine (i : Nat) (origins : Origins) : Origins :=
  if origins.contains (ofSegments (locationsAt i)) then origins
  else match origins.lineOf sharedPath with
    | some line => origins.record (ofSegments (locationsAt i)) line
    | none => origins

theorem claimLine_spec (i : Nat) {table : Origins} (hd : table.Distinct) :
    (claimLine i table).Distinct ∧
      (claimLine i table).lineAt (locationsAt i)
        = (table.lineAt (locationsAt i)).or (table.lineAt [locationsKey]) ∧
      ∀ p, Plain p → p ≠ locationsAt i → (claimLine i table).lineAt p = table.lineAt p := by
  have hcontains : table.contains (ofSegments (locationsAt i))
      = (table.lineAt (locationsAt i)).isSome := Origins.contains_eq_isSome _ _
  have hshared : table.lineOf sharedPath = table.lineAt [locationsKey] := rfl
  rw [claimLine, hcontains, hshared]
  rcases hown : table.lineAt (locationsAt i) with _ | line
  · rcases hline : table.lineAt [locationsKey] with _ | line
    · exact ⟨hd, hown, fun p _ _ => rfl⟩
    · refine ⟨hd.record _ _, Origins.lineAt_record_self _ _ _, fun p hp hne => ?_⟩
      exact Origins.lineAt_record_of_ne (plain_locationsAt i) hp hne.symm line table
  · exact ⟨hd, hown, fun p _ _ => rfl⟩

/-- Locations that have a line keep it. -/
theorem lineAt_claimLine_of_isSome {i : Nat} {table : Origins} (hd : table.Distinct)
    (h : (table.lineAt (locationsAt i)).isSome = true) {p : List String} (hp : Plain p) :
    (claimLine i table).lineAt p = table.lineAt p := by
  obtain ⟨-, hself, hother⟩ := claimLine_spec i hd
  obtain ⟨line, hline⟩ := Option.isSome_iff_exists.mp h
  by_cases hne : p = locationsAt i
  · rw [hne, hself, hline]
    rfl
  · exact hother p hp hne

/-- The locations that a server has of its own, if they can be added to. -/
def OwnLocations (fields : List (String × Tree)) (own : List Tree) : Prop :=
  (Ordered.get? locationsKey fields = none ∧ own = []) ∨
    Ordered.get? locationsKey fields = some (.sequence own)

/-- What sharing can do to a server. -/
theorem shareInto_cases (shared : List Tree) (i : Nat) (server : Tree) (table : Origins) :
    ((∀ fields, server ≠ .mapping fields) ∧ shareInto shared i server table = (server, table)) ∨
    (∃ fields v, server = .mapping fields ∧ Ordered.get? locationsKey fields = some v ∧
      shareInto shared i server table = (server, claimLine i table)) ∨
    ∃ fields own, server = .mapping fields ∧ OwnLocations fields own ∧
      shareInto shared i server table
        = (.mapping (Ordered.insert locationsKey (.sequence (own ++ shared)) fields),
          copyItems (ofSegments [locationsKey]) (ofSegments (locationsAt i)) own.length
            shared.length (claimLine i table)) := by
  cases server with
  | scalar v => exact .inl ⟨fun _ h => (nomatch h), rfl⟩
  | sequence items => exact .inl ⟨fun _ h => (nomatch h), rfl⟩
  | mapping fields =>
      rcases hget : Ordered.get? locationsKey fields with _ | v
      · refine .inr (.inr ⟨fields, [], rfl, .inl ⟨hget, rfl⟩, ?_⟩)
        simp only [shareInto, hget]
        rfl
      · cases v with
        | sequence own =>
            refine .inr (.inr ⟨fields, own, rfl, .inr hget, ?_⟩)
            simp only [shareInto, hget]
            rfl
        | scalar v =>
            refine .inr (.inl ⟨fields, _, rfl, hget, ?_⟩)
            simp only [shareInto, hget]
            rfl
        | mapping fields' =>
            refine .inr (.inl ⟨fields, _, rfl, hget, ?_⟩)
            simp only [shareInto, hget]
            rfl

theorem plain_shared : Plain [locationsKey] :=
  List.forall_mem_singleton.mpr dotless_locationsKey

/-- What the table has for the locations of a server after sharing. -/
theorem copyItems_claimLine_spec (i offset count : Nat) {table : Origins} (hd : table.Distinct) :
    let result := copyItems (ofSegments [locationsKey]) (ofSegments (locationsAt i)) offset count
      (claimLine i table)
    result.Distinct ∧
      (result.lineAt (locationsAt i)
        = (table.lineAt (locationsAt i)).or (table.lineAt [locationsKey])) ∧
      (∀ s, Plain s → s ≠ locationsAt i →
        (∀ k < count, ¬ locationsAt i ++ [Number.showNat (offset + k)] <+: s) →
        result.lineAt s = table.lineAt s) ∧
      ∀ k < count, ∀ r, Plain r →
        result.lineAt (locationsAt i ++ [Number.showNat (offset + k)] ++ r)
          = (table.lineAt ([locationsKey] ++ [Number.showNat k] ++ r)).or
              (table.lineAt (locationsAt i ++ [Number.showNat (offset + k)] ++ r)) := by
  intro result
  obtain ⟨hdc, hself, hframe⟩ := claimLine_spec i hd
  obtain ⟨hdr, hother, hcopied⟩ := copyItems_spec plain_shared (plain_locationsAt i)
    (not_locationsAt_isPrefix_shared i) offset count hdc
  refine ⟨hdr, ?_, ?_, ?_⟩
  · rw [← hself]
    refine hother _ (plain_locationsAt i) fun k _ hunder => ?_
    have hlen := hunder.length_le
    rw [List.length_append, List.length_singleton] at hlen
    omega
  · intro s hs hne hnot
    rw [hother s hs hnot, hframe s hs hne]
  · intro k hk r hr
    have htarget : Plain (locationsAt i ++ [Number.showNat (offset + k)] ++ r) :=
      plain_append.mpr ⟨plain_append_showNat (plain_locationsAt i) _, hr⟩
    have hsource : Plain ([locationsKey] ++ [Number.showNat k] ++ r) :=
      plain_append.mpr ⟨plain_append_showNat plain_shared k, hr⟩
    rw [hcopied k hk r hr, hframe _ htarget (by simp [locationsAt]), hframe _ hsource ?_]
    intro heq
    exact not_locationsAt_isPrefix_shared i ([Number.showNat k] ++ r) ⟨[], by rw [← heq]; simp⟩

theorem shareInto_keepsOutside (shared : List Tree) :
    KeepsOutside (shareInto shared) locationsAt := by
  intro i server table hd
  obtain ⟨hdc, -, hclaim⟩ := claimLine_spec i hd
  rcases shareInto_cases shared i server table with
    ⟨-, hrun⟩ | ⟨fields, v, -, -, hrun⟩ | ⟨fields, own, -, -, hrun⟩
  · rw [hrun]
    exact ⟨hd, fun p _ _ => rfl⟩
  · rw [hrun]
    refine ⟨hdc, fun p hp hnot => hclaim p hp ?_⟩
    rintro rfl
    exact hnot List.prefix_rfl
  · obtain ⟨hdr, -, hframe, -⟩ := copyItems_claimLine_spec i own.length shared.length hd
    rw [hrun]
    refine ⟨hdr, fun p hp hnot => hframe p hp ?_ fun k _ hunder => ?_⟩
    · rintro rfl
      exact hnot List.prefix_rfl
    · exact hnot (isPrefix_of_append_singleton hunder)

/-! ## Lineage -/

/-- Two mappings with the same headers, or two sequences. -/
inductive SameHeaders : Tree → Tree → Prop
  | mapping {fields fields' : List (String × Tree)}
      (h : Ordered.get? headersKey fields = Ordered.get? headersKey fields') :
      SameHeaders (.mapping fields) (.mapping fields')
  | sequence (items items' : List Tree) : SameHeaders (.sequence items) (.sequence items')

/-- The nodes that sharing rebuilds: the root, the servers and their locations. -/
def SharedSpine (steps : List Tree.Step) (u v : Tree) : Prop :=
  (∃ i, steps <+: locationsSteps i) ∧ SameHeaders u v

/-- A part that stays in its place. -/
theorem traces_in_place {doc : Document} (hdoc : doc.Addressed) {p : List Tree.Step} {t : Tree}
    {table : Origins} {rebuilt : List Tree.Step → Tree → Tree → Prop}
    (hp : doc.tree.at? p = some t)
    (hlines : Origins.AgreeBelow (segments p) table doc.origins) :
    Traces doc table (segments p) t (fun s => shareSource doc.tree (p ++ s)) rebuilt := by
  refine Traces.copy hdoc.plain hp hlines fun steps u hu => shareSource_of_at? (u := u) ?_
  rw [Tree.at?_append, hp]
  exact hu

section Server

variable {doc : Document} {i : Nat} {shared own : List Tree} {fields : List (String × Tree)}
  {table : Origins}

/-- The locations of the server in the document, if it has any. -/
theorem at?_locationsSteps (hserver : doc.tree.at? (serverSteps i) = some (.mapping fields)) :
    doc.tree.at? (locationsSteps i) = Ordered.get? locationsKey fields := by
  rw [locationsSteps, Tree.at?_append, hserver, Option.bind_some, Tree.at?_key]
  rfl

theorem itemsOf_own (hserver : doc.tree.at? (serverSteps i) = some (.mapping fields))
    (hown : OwnLocations fields own) : Tree.itemsOf (doc.tree.at? (locationsSteps i)) = own := by
  rw [at?_locationsSteps hserver]
  rcases hown with ⟨hnone, rfl⟩ | hsome
  · rw [hnone]
    rfl
  · rw [hsome]
    rfl

/-- Nothing is recorded where the copies go. -/
theorem lineAt_beyond_own (hdoc : doc.Addressed)
    (hserver : doc.tree.at? (serverSteps i) = some (.mapping fields))
    (hown : OwnLocations fields own) (k : Nat) {r : List String} (hr : Plain r) :
    doc.origins.lineAt (locationsAt i ++ [Number.showNat (own.length + k)] ++ r) = none := by
  have hplain : Plain (locationsAt i ++ [Number.showNat (own.length + k)] ++ r) :=
    plain_append.mpr ⟨plain_append_showNat (plain_locationsAt i) _, hr⟩
  rcases hown with ⟨hnone, rfl⟩ | hsome
  · exact hdoc.lineAt_key_eq_none hserver hnone hplain
  · rw [← at?_locationsSteps hserver] at hsome
    exact hdoc.lineAt_index_eq_none hsome (Nat.le_add_right _ _) hplain

/-- The key of a server's locations: its own, or the root's. -/
theorem locations_traced (hdoc : doc.Addressed)
    (hserver : doc.tree.at? (serverSteps i) = some (.mapping fields))
    (hshared : doc.tree.at? [.key locationsKey] = some (.sequence shared))
    (hown : OwnLocations fields own)
    (hline : table.lineAt (locationsAt i)
      = (doc.origins.lineAt (locationsAt i)).or (doc.origins.lineAt [locationsKey])) :
    Traced doc table (locationsAt i) (locationsSource doc.tree i)
      (fun s => SharedSpine (locationsSteps i ++ s)) [] (.sequence (own ++ shared)) := by
  have hspine : ∀ v : List Tree,
      SharedSpine (locationsSteps i ++ []) (.sequence (own ++ shared)) (.sequence v) := by
    intro v
    exact ⟨⟨i, by rw [List.append_nil]⟩, .sequence _ _⟩
  rcases hown with ⟨hnone, rfl⟩ | hsome
  · have hsrc : locationsSource doc.tree i [] = [.key locationsKey] := by
      rw [locationsSource, at?_locationsSteps hserver, hnone]
      rfl
    have hvacant : doc.origins.lineAt (locationsAt i) = none :=
      hdoc.lineAt_key_eq_none hserver hnone (plain_locationsAt i)
    refine ⟨fun _ hs => (nomatch hs), ?_, .sequence shared, ?_, .inr (hspine shared)⟩
    · rw [hsrc, segments, List.map_nil, List.append_nil, hline, hvacant]
      rfl
    · rw [hsrc, hshared]
  · rw [← at?_locationsSteps hserver] at hsome
    have hsrc : locationsSource doc.tree i [] = locationsSteps i := by
      rw [locationsSource, hsome]
      rfl
    obtain ⟨line, hself⟩ := Option.isSome_iff_exists.mp (hdoc.covered _ _ hsome)
    have hself : doc.origins.lineAt (locationsAt i) = some line := hself
    refine ⟨fun _ hs => (nomatch hs), ?_, .sequence own, ?_, .inr (hspine own)⟩
    · rw [hsrc, segments, List.map_nil, List.append_nil, hline, hself]
      exact hself.symm
    · rw [hsrc, hsome]

/-- An item of a server's locations after sharing: one of its own, or a copy of one of the
root's. -/
theorem location_traces (hdoc : doc.Addressed)
    (hserver : doc.tree.at? (serverSteps i) = some (.mapping fields))
    (hshared : doc.tree.at? [.key locationsKey] = some (.sequence shared))
    (hown : OwnLocations fields own)
    (hkept : ∀ j < own.length, ∀ r, Plain r →
      table.lineAt (locationsAt i ++ [Number.showNat j] ++ r)
        = doc.origins.lineAt (locationsAt i ++ [Number.showNat j] ++ r))
    (hcopied : ∀ k < shared.length, ∀ r, Plain r →
      table.lineAt (locationsAt i ++ [Number.showNat (own.length + k)] ++ r)
        = doc.origins.lineAt ([locationsKey] ++ [Number.showNat k] ++ r))
    {j : Nat} {u : Tree} (hj : (own ++ shared)[j]? = some u)
    {rebuilt : List Tree.Step → Tree → Tree → Prop} :
    Traces doc table (locationsAt i ++ [Number.showNat j]) u
      (fun s => locationsSource doc.tree i (.index j :: s)) rebuilt := by
  have hitems := itemsOf_own hserver hown
  by_cases hlt : j < own.length
  · rw [List.getElem?_append_left hlt] at hj
    have hat : doc.tree.at? (locationsSteps i ++ [.index j]) = some u := by
      rw [Tree.at?_append]
      rcases hown with ⟨-, rfl⟩ | hsome
      · cases hj
      · rw [at?_locationsSteps hserver, hsome, Option.bind_some, Tree.at?_index]
        exact hj
    refine Traces.copy hdoc.plain hat (hkept j hlt) fun steps v _ => ?_
    rw [locationsSource, hitems, if_pos hlt, List.append_assoc]
    rfl
  · obtain ⟨k, rfl⟩ : ∃ k, j = own.length + k := ⟨j - own.length, by omega⟩
    rw [List.getElem?_append_right (by omega), Nat.add_sub_cancel_left] at hj
    obtain ⟨hk, -⟩ := List.getElem?_eq_some_iff.mp hj
    have hat : doc.tree.at? [.key locationsKey, .index k] = some u := by
      have happ : ([.key locationsKey, .index k] : List Tree.Step)
          = [.key locationsKey] ++ [.index k] := rfl
      rw [happ, Tree.at?_append, hshared, Option.bind_some, Tree.at?_index]
      exact hj
    refine Traces.copy hdoc.plain hat (hcopied k hk) fun steps v _ => ?_
    rw [locationsSource, hitems, if_neg hlt, Nat.add_sub_cancel_left]
    rfl

/-- A server that has been given the root's locations. The table has changed only where its own
end. -/
theorem shared_server_traces (hdoc : doc.Addressed)
    (hserver : doc.tree.at? (serverSteps i) = some (.mapping fields))
    (hshared : doc.tree.at? [.key locationsKey] = some (.sequence shared))
    (hown : OwnLocations fields own)
    (hself : table.lineAt (locationsAt i)
      = (doc.origins.lineAt (locationsAt i)).or (doc.origins.lineAt [locationsKey]))
    (hkept : ∀ r, Plain r → segments (serverSteps i) ++ r ≠ locationsAt i →
      (∀ k < shared.length, ¬ locationsAt i ++ [Number.showNat (own.length + k)] <+:
        segments (serverSteps i) ++ r) →
      table.lineAt (segments (serverSteps i) ++ r)
        = doc.origins.lineAt (segments (serverSteps i) ++ r))
    (hcopied : ∀ k < shared.length, ∀ r, Plain r →
      table.lineAt (locationsAt i ++ [Number.showNat (own.length + k)] ++ r)
        = doc.origins.lineAt ([locationsKey] ++ [Number.showNat k] ++ r)) :
    Traces doc table (segments (serverSteps i))
      (.mapping (Ordered.insert locationsKey (.sequence (own ++ shared)) fields))
      (fun s => shareSource doc.tree (serverSteps i ++ s))
      (fun s => SharedSpine (serverSteps i ++ s)) := by
  have hother : ∀ r, ¬ [locationsKey] <+: r → ∀ s,
      ¬ locationsAt i ++ s <+: segments (serverSteps i) ++ r := by
    intro r hr s hunder
    refine hr ((List.prefix_append [locationsKey] s).trans ?_)
    exact (List.prefix_append_right_inj (segments (serverSteps i))).mp hunder
  refine Traces.update hdoc.plain hserver ?_ ?_ (shareSource_of_at? hserver) ?_ ?_
    dotless_locationsKey ?_
  · intro k u hk hu
    rw [Ordered.get?_insert_of_ne (Ne.symm hk)] at hu
    exact hu
  · intro r hr hnot
    refine hkept r hr (fun heq => ?_) fun k _ => hother r hnot _
    exact hother r hnot [] ⟨[], by rw [List.append_nil, List.append_nil, heq]⟩
  · intro k s hk
    refine shareSource_of_not_isPrefix fun i' h => hk ?_
    have h : i' = i ∧ locationsKey = k := by
      simpa [locationsSteps, serverSteps] using h
    exact h.2.symm
  · exact ⟨⟨i, List.prefix_append _ _⟩, .mapping (Ordered.get?_insert_of_ne (by decide) _ _)⟩
  · intro u hu
    rw [Ordered.get?_insert_self] at hu
    cases hu
    have hsource : ∀ s, shareSource doc.tree (serverSteps i ++ .key locationsKey :: s)
        = locationsSource doc.tree i s := shareSource_locationsSteps doc.tree i
    simp only [hsource]
    refine Traces.sequence (locations_traced hdoc hserver hshared hown hself) ?_
    intro j u hj
    refine location_traces hdoc hserver hshared hown ?_ hcopied hj
    intro j hj r hr
    refine hkept ([locationsKey] ++ [Number.showNat j] ++ r) ?_ ?_ ?_
    · exact plain_append.mpr ⟨plain_append_showNat plain_shared j, hr⟩
    · simp [serverSteps, locationsAt]
    · intro k _
      have hbelow : locationsAt i ++ [Number.showNat j] <+:
          segments (serverSteps i) ++ ([locationsKey] ++ [Number.showNat j] ++ r) := ⟨r, rfl⟩
      exact not_isPrefix_of_ne hbelow (by omega)

/-- **Sharing moves the lines of one server as it moves its nodes.** The table is that of the
document outside the other servers. -/
theorem shareInto_traces (hdoc : doc.Addressed) {server : Tree}
    (hserver : doc.tree.at? (serverSteps i) = some server)
    (hshared : doc.tree.at? [.key locationsKey] = some (.sequence shared))
    (hd : table.Distinct)
    (hagree : ∀ p, Plain p → (∀ k, k ≠ i → ¬ locationsAt k <+: p) →
      table.lineAt p = doc.origins.lineAt p) :
    Traces doc (shareInto shared i server table).2 (segments (serverSteps i))
      (shareInto shared i server table).1 (fun s => shareSource doc.tree (serverSteps i ++ s))
      (fun s => SharedSpine (serverSteps i ++ s)) := by
  have hplain : Plain (segments (serverSteps i)) := hdoc.plain _ _ hserver
  have hbelow : ∀ r, Plain r → table.lineAt (segments (serverSteps i) ++ r)
      = doc.origins.lineAt (segments (serverSteps i) ++ r) := by
    intro r hr
    exact hagree _ (plain_append.mpr ⟨hplain, hr⟩) fun k hk => not_locationsAt_isPrefix hk r
  rcases shareInto_cases shared i server table with
    ⟨-, hrun⟩ | ⟨fields, v, rfl, hv, hrun⟩ | ⟨fields, own, rfl, hown, hrun⟩
  · rw [hrun]
    exact traces_in_place hdoc hserver hbelow
  · -- the key has a line already, so claiming one changes nothing
    rw [← at?_locationsSteps hserver] at hv
    have hself : table.lineAt (locationsAt i) = doc.origins.lineAt (locationsAt i) :=
      hbelow [locationsKey] plain_shared
    have hsome : (table.lineAt (locationsAt i)).isSome = true := by
      rw [hself]
      exact hdoc.covered _ _ hv
    rw [hrun]
    refine traces_in_place hdoc hserver fun r hr => ?_
    rw [lineAt_claimLine_of_isSome hd hsome (plain_append.mpr ⟨hplain, hr⟩)]
    exact hbelow r hr
  · obtain ⟨-, hself, hframe, hcopied⟩ :=
      copyItems_claimLine_spec i own.length shared.length hd
    rw [hrun]
    set result := copyItems (ofSegments [locationsKey]) (ofSegments (locationsAt i)) own.length
      shared.length (claimLine i table)
    have hlocations : ∀ r, Plain r → table.lineAt (locationsAt i ++ r)
        = doc.origins.lineAt (locationsAt i ++ r) :=
      fun r hr => hbelow (locationsKey :: r) (List.forall_mem_cons.mpr ⟨dotless_locationsKey, hr⟩)
    have hroot : ∀ r, Plain r → table.lineAt ([locationsKey] ++ r)
        = doc.origins.lineAt ([locationsKey] ++ r) := by
      intro r hr
      exact hagree _ (plain_append.mpr ⟨plain_shared, hr⟩)
        fun k _ => not_locationsAt_isPrefix_shared k r
    refine shared_server_traces hdoc hserver hshared hown ?_ ?_ ?_
    · rw [hself, ← List.append_nil (locationsAt i), hlocations [] (fun _ hs => nomatch hs),
        ← List.append_nil [locationsKey], hroot [] (fun _ hs => nomatch hs)]
    · intro r hr hne hnot
      rw [hframe _ (plain_append.mpr ⟨hplain, hr⟩) hne hnot]
      exact hbelow r hr
    · intro k hk r hr
      have hr' : ∀ n, Plain ([Number.showNat n] ++ r) := fun n =>
        plain_append.mpr ⟨List.forall_mem_singleton.mpr (dotless_showNat n), hr⟩
      -- the copy goes where nothing was recorded, so the root's lines are all there is
      rw [hcopied k hk r hr, List.append_assoc, List.append_assoc, hroot _ (hr' k),
        hlocations _ (hr' _), ← List.append_assoc (locationsAt i),
        lineAt_beyond_own hdoc hserver hown k hr, Option.or_none]

end Server

/-! ## All servers -/

theorem shareAll_eq_walk (shared : List Tree) (index : Nat) (servers : List Tree)
    (origins : Origins) :
    shareAll shared index servers origins = walk (shareInto shared) index servers origins := by
  induction servers generalizing index origins with
  | nil => rfl
  | cons server servers ih =>
      rw [shareAll, walk, ih]

/-- What sharing can do to a document. -/
theorem shareLocations_cases (doc : Document) :
    (doc.tree.get? serversKey = none ∧ doc.shareLocations = doc) ∨
    ∃ root servers servers' table, doc.tree = .mapping root ∧
      Ordered.get? serversKey root = some servers ∧
      doc.shareLocations
        = ⟨.mapping (Ordered.erase locationsKey (Ordered.insert serversKey servers' root)),
            table⟩ ∧
      ((servers' = servers ∧ table = doc.origins) ∨
        ∃ list shared, servers = .sequence list ∧
          Ordered.get? locationsKey root = some (.sequence shared) ∧
          servers' = .sequence (walk (shareInto shared) 0 list doc.origins).1 ∧
          table = (walk (shareInto shared) 0 list doc.origins).2) := by
  obtain ⟨tree, origins⟩ := doc
  cases tree with
  | scalar v => exact .inl ⟨rfl, rfl⟩
  | sequence items => exact .inl ⟨rfl, rfl⟩
  | mapping root =>
      rcases hservers : Ordered.get? serversKey root with _ | servers
      · refine .inl ⟨hservers, ?_⟩
        simp only [shareLocations, hservers]
      · cases servers with
        | scalar v =>
            refine .inr ⟨root, _, _, _, rfl, hservers, ?_, .inl ⟨rfl, rfl⟩⟩
            simp only [shareLocations, hservers]
        | mapping fields =>
            refine .inr ⟨root, _, _, _, rfl, hservers, ?_, .inl ⟨rfl, rfl⟩⟩
            simp only [shareLocations, hservers]
        | sequence list =>
            rcases hshared : Tree.itemsOf (Ordered.get? locationsKey root) with _ | ⟨t, ts⟩
            · refine .inr ⟨root, _, _, _, rfl, hservers, ?_, .inl ⟨rfl, rfl⟩⟩
              simp only [shareLocations, hservers, hshared]
              rfl
            · have hget : Ordered.get? locationsKey root = some (.sequence (t :: ts)) := by
                unfold Tree.itemsOf at hshared
                split at hshared
                · rename_i items hitems
                  rw [hitems, hshared]
                · cases hshared
              refine .inr ⟨root, _, _, _, rfl, hservers, ?_,
                .inr ⟨list, t :: ts, rfl, hget, rfl, rfl⟩⟩
              simp only [shareLocations, hservers, hshared, ← shareAll_eq_walk]
              rfl

section Document

variable {doc : Document} {root : List (String × Tree)} {table : Origins} {servers : Tree}
  {src : List Tree.Step → List Tree.Step} {rebuilt : List Tree.Step → Tree → Tree → Prop}

/-- The root after a pass over the servers, which may take out another key. -/
theorem root_traces (hplain : ∀ steps u, doc.tree.at? steps = some u → Plain (segments steps))
    (htree : doc.tree = .mapping root) {gone : String}
    (hframe : ∀ p, Plain p → ¬ [serversKey] <+: p → table.lineAt p = doc.origins.lineAt p)
    (hsrc : ∀ steps, ¬ [.key serversKey] <+: steps → src steps = steps)
    (hself : rebuilt [] (.mapping (Ordered.erase gone (Ordered.insert serversKey servers root)))
      (.mapping root))
    (hservers : Traces doc table [serversKey] servers (fun s => src (.key serversKey :: s))
      (fun s => rebuilt (.key serversKey :: s))) :
    Traces doc table []
      (.mapping (Ordered.erase gone (Ordered.insert serversKey servers root))) src rebuilt := by
  have hroot : doc.tree.at? [] = some (.mapping root) := by rw [Tree.at?_nil, htree]
  refine Traces.update hplain hroot ?_ hframe ?_ ?_ hself dotless_serversKey ?_
  · intro k u hk hu
    rw [Ordered.get?_erase] at hu
    split_ifs at hu
    rw [Ordered.get?_insert_of_ne (Ne.symm hk)] at hu
    exact hu
  · exact hsrc [] fun h => absurd h.length_le (by simp)
  · intro k s hk
    refine hsrc _ fun h => hk ?_
    exact (Tree.Step.key.inj (List.cons_prefix_cons.mp h).1).symm
  · intro u hu
    rw [Ordered.get?_erase] at hu
    split_ifs at hu
    rw [Ordered.get?_insert_self] at hu
    cases hu
    exact hservers

/-- The servers after each of them has been given the root's locations. -/
theorem sharedServers_traces (hdoc : doc.Addressed) {list shared : List Tree}
    (hservers : doc.tree.at? [.key serversKey] = some (.sequence list))
    (hshared : doc.tree.at? [.key locationsKey] = some (.sequence shared)) :
    Traces doc (walk (shareInto shared) 0 list doc.origins).2 [serversKey]
      (.sequence (walk (shareInto shared) 0 list doc.origins).1)
      (fun s => shareSource doc.tree (.key serversKey :: s))
      (fun s => SharedSpine (.key serversKey :: s)) := by
  refine Traces.of_walk (shareInto_keepsOutside shared) hdoc.distinct (hdoc.plain _ _ hservers)
    hservers (fun k => ⟨[locationsKey], rfl⟩) rfl rfl ?_ ?_
  · exact ⟨⟨0, [.index 0, .key locationsKey], rfl⟩, .sequence _ _⟩
  · intro i server before hserver hd hagree
    exact shareInto_traces hdoc hserver hshared hd hagree

/-- **The lineage of shared locations.** Sharing keeps the table distinct, changes it only at the
locations of servers, and gives every node the line of the node it comes from. -/
theorem shareLocations_traces (hdoc : doc.Addressed) :
    doc.shareLocations.origins.Distinct ∧
      (∀ p, Plain p → (∀ k, ¬ locationsAt k <+: p) →
        doc.shareLocations.origins.lineAt p = doc.origins.lineAt p) ∧
      Traces doc doc.shareLocations.origins [] doc.shareLocations.tree (shareSource doc.tree)
        SharedSpine := by
  rcases shareLocations_cases doc with
    ⟨-, hrun⟩ | ⟨root, servers, servers', table, htree, hservers, hrun, hcase⟩
  · rw [hrun]
    refine ⟨hdoc.distinct, fun p _ _ => rfl, ?_⟩
    exact traces_in_place hdoc (Tree.at?_nil doc.tree) fun r _ => rfl
  · have hget : ∀ k, doc.tree.at? [.key k] = Ordered.get? k root := by
      intro k
      rw [Tree.at?_key, htree]
      rfl
    have hspine : SharedSpine []
        (.mapping (Ordered.erase locationsKey (Ordered.insert serversKey servers' root)))
        (.mapping root) := by
      refine ⟨⟨0, List.nil_prefix⟩, .mapping ?_⟩
      rw [Ordered.get?_erase_of_ne (by decide), Ordered.get?_insert_of_ne (by decide)]
    have hsrc : ∀ steps, ¬ [.key serversKey] <+: steps → shareSource doc.tree steps = steps := by
      refine fun steps hnot => shareSource_of_not_isPrefix fun i h => hnot ?_
      exact List.IsPrefix.trans ⟨[.index i, .key locationsKey], rfl⟩ h
    rw [← hget] at hservers
    rw [hrun]
    rcases hcase with ⟨rfl, rfl⟩ | ⟨list, shared, rfl, hshared, rfl, rfl⟩
    · refine ⟨hdoc.distinct, fun p _ _ => rfl, ?_⟩
      refine root_traces hdoc.plain htree (fun p _ _ => rfl) hsrc hspine ?_
      exact traces_in_place hdoc hservers fun r _ => rfl
    · rw [← hget] at hshared
      obtain ⟨hdistinct, hframe⟩ :=
        walk_frame (shareInto_keepsOutside shared) 0 list hdoc.distinct
      refine ⟨hdistinct, fun p hp hnot => hframe p hp fun k _ => hnot k, ?_⟩
      refine root_traces hdoc.plain htree (fun p hp hnot => ?_) hsrc hspine
        (sharedServers_traces hdoc hservers hshared)
      refine hframe p hp fun k _ h => hnot ?_
      exact List.IsPrefix.trans ⟨[Number.showNat k, locationsKey], rfl⟩ h

end Document

end SiteConf.Document
