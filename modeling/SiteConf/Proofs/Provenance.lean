import SiteConf.Proofs.Addresses
import SiteConf.Proofs.Inheriting

set_option autoImplicit false

/-! # The provenance of the lines of a settled document

Settling a document hands the root's locations to the servers and then the headers to the
locations. `source` says for every node of the settled document from which node of the parsed
document it comes, and `settle_lineOf` that the table of the settled document has for it the line
of that node. -/

namespace SiteConf.Document

open KeyPath Literal

/-! ## Parsed documents -/

theorem addressed_of_resolve {l : Literal} {doc : Document} (hl : Everywhere Lexical l)
    (h : resolve l = .ok doc) : doc.Addressed := by
  obtain ⟨s, hnone, hs, horigins, hmirrors⟩ := resolve_eq_ok hl h
  have hadm := ((firstOffence_nodes_eq_none_iff l).mp hnone).admissible
  have hplain : ∀ n ∈ nodes l, Plain n.segments :=
    plain_of_mem_outline l [] l.line none (hl.imp properKeys_of_lexicalIn) fun _ hs => nomatch hs
  have hnode : ∀ steps u, doc.tree.at? steps = some u → ∃ n ∈ nodes l, n.steps = steps := by
    intro steps u hu
    have hmem := Tree.mem_nodes_of_at? [] hu
    rw [List.nil_append, ← map_steps_nodes_of_resolve hl h] at hmem
    exact List.mem_map.mp hmem
  refine ⟨?_, ?_, ?_, ?_⟩
  · intro steps u hu
    obtain ⟨n, hn, rfl⟩ := hnode steps u hu
    exact hplain n hn
  · rw [Origins.Distinct, horigins, hs.entries, Ordered.keys, List.map_map]
    exact hs.nodup
  · intro steps u hu
    obtain ⟨n, hn, rfl⟩ := hnode steps u hu
    have hline : doc.origins.lineAt (segments n.steps) = some n.line := by
      rw [horigins]
      exact hs.tabled.lineOf hn
    rw [hline]
    rfl
  · -- a recorded path is that of a node of the literal, and the steps to it lead into the tree
    intro p hp hsome
    obtain ⟨line, hline⟩ := Option.isSome_iff_exists.mp hsome
    have hmem := Ordered.mem_keys_of_get? hline
    rw [horigins, hs.entries, Ordered.keys, List.map_map] at hmem
    obtain ⟨n, hn, hpath⟩ := List.mem_map.mp hmem
    obtain ⟨rest, u, hsteps, hu, -⟩ := hmirrors.exists_at? l.line none hadm n hn
    rw [List.nil_append] at hsteps
    refine ⟨n.steps, u, ofSegments_injective (hplain n hn) hp hpath, ?_⟩
    rw [hsteps, hu]

/-! ## Documents with shared locations -/

section Shared

variable {doc : Document} {steps : List Tree.Step} {u v : Tree}

theorem get?_headers_eq (h : u = v ∨ SameHeaders u v) :
    u.get? headersKey = v.get? headersKey := by
  rcases h with rfl | h
  · rfl
  · cases h with
    | mapping h => exact h
    | sequence items items' => rfl

theorem exists_mapping_of_sameHeaders {fields : List (String × Tree)}
    (h : .mapping fields = v ∨ SameHeaders (.mapping fields) v) :
    ∃ fields', v = .mapping fields' := by
  rcases h with rfl | h
  · exact ⟨fields, rfl⟩
  · cases h with
    | mapping h => exact ⟨_, rfl⟩

/-- Below an item of a server's locations the steps are kept. -/
theorem locationsSource_index_append (t : Tree) (i j : Nat) (rest : List Tree.Step) :
    locationsSource t i (.index j :: rest) = locationsSource t i [.index j] ++ rest := by
  rw [locationsSource, locationsSource]
  split_ifs
  · rw [List.append_assoc]
    rfl
  · rfl

/-- An owner of headers after sharing has the headers that it had before, with their line. -/
theorem owner_shared (hdoc : doc.Addressed) (howner : Owner steps)
    (hu : doc.shareLocations.tree.at? steps = some u) :
    ∃ v, doc.tree.at? (shareSource doc.tree steps) = some v ∧ (u = v ∨ SameHeaders u v) ∧
      shareSource doc.tree (steps ++ [.key headersKey])
        = shareSource doc.tree steps ++ [.key headersKey] ∧
      doc.shareLocations.origins.lineAt (segments steps ++ [headersKey])
        = doc.origins.lineAt (segments (shareSource doc.tree steps) ++ [headersKey]) := by
  obtain ⟨-, hframe, htraces⟩ := shareLocations_traces hdoc
  obtain ⟨hplain, -, v, hv, hnode⟩ := htraces steps u hu
  have hline := hframe (segments steps ++ [headersKey])
    (plain_append.mpr ⟨hplain, plain_headersKey⟩)
  refine ⟨v, hv, hnode.imp And.left And.right, ?_⟩
  rcases howner with rfl | ⟨i, rfl⟩ | ⟨i, j, rfl⟩
  · refine ⟨rfl, hline fun k h => absurd h.length_le ?_⟩
    simp [locationsAt]
  · refine ⟨?_, hline fun k h => ?_⟩
    · refine shareSource_of_not_isPrefix fun k h => ?_
      have h : k = i ∧ locationsKey = headersKey := by
        simpa [locationsSteps, serverSteps] using h
      exact absurd h.2 (by decide)
    · have h : Number.showNat k = Number.showNat i ∧ locationsKey = headersKey := by
        simpa [locationsAt, serverSteps, Tree.Step.segment] using h
      exact absurd h.2 (by decide)
  · constructor
    · rw [locationSteps, List.append_assoc, shareSource_locationsSteps,
        shareSource_locationsSteps]
      exact locationsSource_index_append doc.tree i j [.key headersKey]
    · rcases hnode with ⟨-, hbelow⟩ | ⟨⟨k, hk⟩, -⟩
      · have h := hbelow [headersKey] plain_headersKey
        rw [List.nil_append] at h
        exact h
      · exact absurd hk.length_le (by simp [locationSteps, locationsSteps, serverSteps])

theorem at?_headers_shared (hdoc : doc.Addressed) (howner : Owner steps)
    (hu : doc.shareLocations.tree.at? steps = some u) :
    doc.shareLocations.tree.at? (steps ++ [.key headersKey])
      = doc.tree.at? (shareSource doc.tree (steps ++ [.key headersKey])) := by
  obtain ⟨v, hv, hsame, hsource, -⟩ := owner_shared hdoc howner hu
  rw [hsource, Tree.at?_append, Tree.at?_append, hu, hv, Option.bind_some, Option.bind_some,
    Tree.at?_key, Tree.at?_key, get?_headers_eq hsame]

theorem heritable_shareLocations (hdoc : doc.Addressed) : doc.shareLocations.Heritable := by
  obtain ⟨hdistinct, -, htraces⟩ := shareLocations_traces hdoc
  refine ⟨fun steps u hu => (htraces steps u hu).plain, hdistinct, ?_, ?_⟩
  · intro steps u hu
    obtain ⟨-, hline, v, hv, -⟩ := htraces steps u hu
    rw [List.nil_append] at hline
    rw [hline]
    exact hdoc.covered _ _ hv
  · intro steps fields howner hu hnone
    obtain ⟨v, hv, hsame, -, hline⟩ := owner_shared hdoc howner hu
    obtain ⟨fields', rfl⟩ := exists_mapping_of_sameHeaders hsame
    rw [hline]
    refine hdoc.lineAt_key_eq_none hv ?_ (plain_append.mpr ⟨hdoc.plain _ _ hv, plain_headersKey⟩)
    exact (get?_headers_eq hsame).symm.trans hnone

end Shared

/-! ## Settled documents -/

/-- Where a node of the settled document comes from: the headers were handed down last, so they
are traced back first, through a tree whose locations are found where they were shared from. -/
def source (t : Tree) (steps : List Tree.Step) : List Tree.Step :=
  shareSource t (inheritSource (fun s => t.at? (shareSource t s)) steps)

/-- The owners of headers are not moved. -/
theorem Owner.inheritSource_eq {owner : List Tree.Step} (howner : Owner owner)
    (find : List Tree.Step → Option Tree) : inheritSource find owner = owner := by
  rcases howner with rfl | ⟨i, rfl⟩ | ⟨i, j, rfl⟩
  · rfl
  · exact inheritSource_of_length_le (by simp [serverSteps])
  · exact inheritSource_of_length_le (by simp [locationSteps, locationsSteps, serverSteps])

/-- The headers above a node decide where it comes from. -/
theorem inheritSource_congr {find find' : List Tree.Step → Option Tree} {steps : List Tree.Step}
    (h : ∀ owner, Owner owner → owner <+: steps →
      find (owner ++ [.key headersKey]) = find' (owner ++ [.key headersKey])) :
    inheritSource find steps = inheritSource find' steps := by
  by_cases hheaders : ∃ i j, locationSteps i j ++ [.key headersKey] <+: steps
  · obtain ⟨i, j, rest, rfl⟩ := hheaders
    rw [List.append_assoc, List.singleton_append] at h ⊢
    have hroot := h [] (.inl rfl) List.nil_prefix
    have hserver := h (serverSteps i) (.inr (.inl ⟨i, rfl⟩))
      ⟨.key locationsKey :: .index j :: .key headersKey :: rest, rfl⟩
    have hlocation := h (locationSteps i j) (.inr (.inr ⟨i, j, rfl⟩)) (List.prefix_append _ _)
    have hnearest : nearestHeaders find i j = nearestHeaders find' i j := by
      rw [nearestHeaders, nearestHeaders, hserver, hlocation]
    have hdeclarations : declarations find i j = declarations find' i j := by
      simp only [declarations, declaredAt, hroot, hserver, hlocation]
    rw [inheritSource_headers, inheritSource_headers]
    rcases rest with _ | ⟨k | k, rest⟩
    · exact hnearest
    · rfl
    · rw [headerSource, headerSource, hdeclarations]
  · have hnot : ∀ i j, ¬ locationSteps i j ++ [.key headersKey] <+: steps :=
      fun i j hij => hheaders ⟨i, j, hij⟩
    rw [inheritSource_of_not_isPrefix hnot, inheritSource_of_not_isPrefix hnot]

theorem key_mem_of_mem_declaredAt {find : List Tree.Step → Option Tree}
    {steps d : List Tree.Step} (h : d ∈ declaredAt find steps) : .key headersKey ∈ d := by
  obtain ⟨k, -, rfl⟩ := List.mem_map.mp h
  exact List.mem_append_right _ List.mem_cons_self

theorem key_mem_headerSource (find : List Tree.Step → Option Tree) (i j : Nat)
    (rest : List Tree.Step) : .key headersKey ∈ headerSource find i j rest := by
  rcases rest with _ | ⟨k | k, rest⟩
  · rw [headerSource, nearestHeaders]
    split_ifs
    · exact List.mem_append_right _ List.mem_cons_self
    · exact List.mem_append_right _ List.mem_cons_self
    · exact List.mem_cons_self
  · exact List.mem_append_right _ List.mem_cons_self
  · rw [headerSource]
    rcases hd : (declarations find i j)[k]? with _ | d
    · exact List.mem_append_right _ List.mem_cons_self
    · have hmem := List.mem_of_getElem? hd
      rw [declarations, List.mem_append, List.mem_append] at hmem
      rcases hmem with (hmem | hmem) | hmem
      all_goals exact List.mem_append_left _ (key_mem_of_mem_declaredAt hmem)

/-- No part of a location's headers lies on the way to the locations. -/
theorem headerSpine_of_sharedSpine {find : List Tree.Step → Option Tree}
    {steps : List Tree.Step} {u v : Tree} (h : SharedSpine (inheritSource find steps) u v) :
    HeaderSpine steps u v := by
  obtain ⟨⟨k, hk⟩, hsame⟩ := h
  have hnode : ∀ w, u ≠ .scalar w := by
    rintro w rfl
    cases hsame
  by_cases hheaders : ∃ i j, locationSteps i j ++ [.key headersKey] <+: steps
  · -- a source below a `headers` key is no part of the way to the locations
    obtain ⟨i, j, rest, rfl⟩ := hheaders
    rw [List.append_assoc, List.singleton_append, inheritSource_headers] at hk
    have hmem : headersKey = serversKey ∨ headersKey = locationsKey := by
      simpa [locationsSteps, serverSteps] using hk.subset (key_mem_headerSource find i j rest)
    exact absurd hmem (by decide)
  · rw [inheritSource_of_not_isPrefix fun i j hij => hheaders ⟨i, j, hij⟩] at hk
    exact ⟨⟨k, 0, hk.trans ⟨[.index 0, .key headersKey], rfl⟩⟩, hnode⟩

theorem settle_traces {doc : Document} (hdoc : doc.Addressed) :
    Traces doc doc.settle.origins [] doc.settle.tree (source doc.tree) HeaderSpine := by
  have hheritable := heritable_shareLocations hdoc
  have hinherit := inheritHeaders_traces hheritable
  obtain ⟨-, -, hshare⟩ := shareLocations_traces hdoc
  intro steps u hu
  obtain ⟨hplain, hline, hnode⟩ := Traces.trans hshare hinherit
    (fun _ _ _ h => headerSpine_of_sharedSpine h) (fun _ _ _ _ h => h) steps u hu
  have hsource : source doc.tree steps
      = shareSource doc.tree (inheritSource (doc.shareLocations.tree.at? ·) steps) := by
    -- the headers of an owner are where sharing has taken them from
    refine congrArg (shareSource doc.tree) (inheritSource_congr fun owner howner hbelow => ?_)
    obtain ⟨rest, rfl⟩ := hbelow
    rw [Tree.at?_append] at hu
    obtain ⟨w, hw, -⟩ := Option.bind_eq_some_iff.mp hu
    obtain ⟨-, -, v, hv, -⟩ := hinherit owner w hw
    rw [howner.inheritSource_eq] at hv
    exact (at?_headers_shared hdoc howner hv).symm
  rw [← hsource] at hline hnode
  exact ⟨hplain, hline, hnode⟩

/-- **Lines stay in step with the tree.** Every node of a settled document has a line, and it is
the line of the node of the parsed document that it comes from. It is that node unchanged, or it
lies on the way to the merged headers of a location and is no scalar. -/
theorem settle_lineOf {text : String} {doc : Document} (h : (parse text).result = .ok doc)
    {steps : List Tree.Step} {u : Tree} (hu : doc.settle.tree.at? steps = some u) :
    ∃ line v, doc.settle.origins.lineOf (ofSteps steps) = some line ∧
      doc.origins.lineOf (ofSteps (source doc.tree steps)) = some line ∧
      doc.tree.at? (source doc.tree steps) = some v ∧
      (u = v ∨ (∃ i j, steps <+: locationSteps i j ++ [.key headersKey]) ∧
        ∀ w, u ≠ .scalar w) := by
  obtain ⟨d, -, -, -, hlex, hdoc⟩ := exists_derivation_of_parse h
  have haddressed := addressed_of_resolve hlex hdoc
  obtain ⟨-, hline, v, hv, hnode⟩ := settle_traces haddressed steps u hu
  obtain ⟨line, hsource⟩ := Option.isSome_iff_exists.mp (haddressed.covered _ _ hv)
  exact ⟨line, v, hline.trans hsource, hsource, hv, hnode.imp_left And.left⟩

/-- A site whose server has a location of its own, with a header. -/
def smallSite : Document :=
  ⟨.mapping [("headers", .sequence [.scalar (.int 1)]),
      ("locations", .sequence [.mapping [("p", .scalar (.int 2))]]),
      ("servers", .sequence [.mapping [("locations", .sequence
        [.mapping [("headers", .sequence [.scalar (.int 3)])]])]])],
    ⟨[("", 1), (".headers", 1), (".headers.0", 1), (".locations", 2), (".locations.0", 2),
      (".locations.0.p", 2), (".servers", 3), (".servers.0", 3), (".servers.0.locations", 3),
      (".servers.0.locations.0", 3), (".servers.0.locations.0.headers", 3),
      (".servers.0.locations.0.headers.0", 3)]⟩⟩

set_option maxRecDepth 4000 in
/-- The header and the copied location of the site keep their lines. -/
theorem settle_lineOf_smallSite :
    (parse ("\x7bheaders: [1],\n locations: [\x7bp: 2\x7d],\n" ++
        " servers: [\x7blocations: [\x7bheaders: [3]\x7d]\x7d]\x7d")).result = .ok smallSite ∧
      smallSite.settle.origins.lineOf ".servers.0.locations.0.headers.1" = some 3 ∧
      smallSite.settle.origins.lineOf ".servers.0.locations.1.p" = some 2 := by
  have hdoc : (parse ("\x7bheaders: [1],\n locations: [\x7bp: 2\x7d],\n" ++
      " servers: [\x7blocations: [\x7bheaders: [3]\x7d]\x7d]\x7d")).result = .ok smallSite :=
    result_parse_eq_ok_iff.mpr
      ⟨[⟨.lbrace, 1⟩, ⟨.ident "headers", 1⟩, ⟨.colon, 1⟩, ⟨.lbracket, 1⟩, ⟨.int 1, 1⟩,
          ⟨.rbracket, 1⟩, ⟨.comma, 1⟩, ⟨.ident "locations", 2⟩, ⟨.colon, 2⟩, ⟨.lbracket, 2⟩,
          ⟨.lbrace, 2⟩, ⟨.ident "p", 2⟩, ⟨.colon, 2⟩, ⟨.int 2, 2⟩, ⟨.rbrace, 2⟩, ⟨.rbracket, 2⟩,
          ⟨.comma, 2⟩, ⟨.ident "servers", 3⟩, ⟨.colon, 3⟩, ⟨.lbracket, 3⟩, ⟨.lbrace, 3⟩,
          ⟨.ident "locations", 3⟩, ⟨.colon, 3⟩, ⟨.lbracket, 3⟩, ⟨.lbrace, 3⟩,
          ⟨.ident "headers", 3⟩, ⟨.colon, 3⟩, ⟨.lbracket, 3⟩, ⟨.int 3, 3⟩, ⟨.rbracket, 3⟩,
          ⟨.rbrace, 3⟩, ⟨.rbracket, 3⟩, ⟨.rbrace, 3⟩, ⟨.rbracket, 3⟩, ⟨.rbrace, 3⟩, ⟨.eof, 3⟩],
        .mapping 1 [(⟨"headers", 1⟩, .sequence 1 [.constant 1 (.int 1)]),
          (⟨"locations", 2⟩, .sequence 2 [.mapping 2 [(⟨"p", 2⟩, .constant 2 (.int 2))]]),
          (⟨"servers", 3⟩, .sequence 3 [.mapping 3 [(⟨"locations", 3⟩, .sequence 3
            [.mapping 3 [(⟨"headers", 3⟩, .sequence 3 [.constant 3 (.int 3)])]])]])],
        by decide +kernel, by cbv, by cbv⟩
  obtain ⟨header, hheader⟩ := Option.isSome_iff_exists.mp
    (show (smallSite.settle.tree.at?
      (locationSteps 0 0 ++ [.key headersKey, .index 1])).isSome = true by decide +kernel)
  obtain ⟨copied, hcopied⟩ := Option.isSome_iff_exists.mp
    (show (smallSite.settle.tree.at? (locationSteps 0 1 ++ [.key "p"])).isSome = true by
      decide +kernel)
  obtain ⟨line, -, hline, hsource, -⟩ := settle_lineOf hdoc hheader
  obtain ⟨line', -, hline', hsource', -⟩ := settle_lineOf hdoc hcopied
  refine ⟨hdoc, hline.trans (hsource.symm.trans ?_), hline'.trans (hsource'.symm.trans ?_)⟩
  · decide +kernel
  · decide +kernel

end SiteConf.Document
