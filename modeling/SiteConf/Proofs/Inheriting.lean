import SiteConf.Proofs.Headers

set_option autoImplicit false

/-! # The lineage of inherited headers

`inheritHeaders` puts the headers of the root and of a server in front of those of each location
of the server. It goes through the servers and in each of them through the locations, so the
lineage is proved level by level, from the location up: `inheritInto_traces`,
`inheritServer_traces`, `inheritHeaders_traces`. -/

namespace SiteConf.Document

open KeyPath

/-! ## One location -/

section Location

variable {doc : Document} {i j : Nat} {server : List (String × Tree)}

/-- What can happen to a location. -/
theorem inheritInto_cases (above : Inheritance) (path : String) (location : Tree)
    (table : Origins) :
    ((above.headers ++ headersOf location path table = [] ∨
        ∀ fields, location ≠ .mapping fields) ∧
      inheritInto above path location table = (location, table)) ∨
    ∃ fields, location = .mapping fields ∧ above.headers ++ headersOf location path table ≠ [] ∧
      inheritInto above path location table
        = (.mapping (Ordered.insert headersKey (.sequence
            ((above.headers ++ headersOf location path table).map (·.value))) fields),
          recordHeaders (child path headersKey) ((headersLine path table).or above.line)
            (above.headers ++ headersOf location path table) table) := by
  by_cases hempty : above.headers ++ headersOf location path table = []
  · refine .inl ⟨.inl hempty, ?_⟩
    simp only [inheritInto, hempty]
    rfl
  · have hne : (above.headers ++ headersOf location path table).isEmpty = false := by
      rw [List.isEmpty_eq_false_iff]
      exact hempty
    cases location with
    | scalar v =>
        refine .inl ⟨.inr fun _ h => (nomatch h), ?_⟩
        simp only [inheritInto, hne]
        rfl
    | sequence items =>
        refine .inl ⟨.inr fun _ h => (nomatch h), ?_⟩
        simp only [inheritInto, hne]
        rfl
    | mapping fields =>
        refine .inr ⟨fields, rfl, hempty, ?_⟩
        simp only [inheritInto, hne]
        rfl

theorem plain_locationSteps (i j : Nat) : Plain (segments (locationSteps i j)) := by
  rw [locationSteps, segments_append]
  exact plain_append_showNat (plain_locationsAt i) j

theorem inheritInto_keepsOutside {above : Inheritance}
    (hcut : ∀ header ∈ above.headers, Origins.Cut header.lines) (i : Nat) :
    KeepsOutside (fun j => inheritInto above (ofSteps (locationSteps i j)))
      (fun j => segments (locationSteps i j)) := by
  intro j location table hd
  beta_reduce
  rcases inheritInto_cases above (ofSteps (locationSteps i j)) location table with
    ⟨-, hrun⟩ | ⟨fields, rfl, -, hrun⟩
  · rw [hrun]
    exact ⟨hd, fun p _ _ => rfl⟩
  · have hq : Plain (segments (locationSteps i j) ++ [headersKey]) :=
      plain_append.mpr ⟨plain_locationSteps i j, plain_headersKey⟩
    obtain ⟨hdistinct, -, hframe, -⟩ := recordHeaders_spec hq
      ((headersLine (ofSteps (locationSteps i j)) table).or above.line)
      (cut_append_headersOf hcut hd (.mapping fields) (ofSteps (locationSteps i j))) hd
    rw [hrun, ofSteps, child_ofSegments]
    exact ⟨hdistinct, fun p hp hnot => hframe p hp fun h => hnot (isPrefix_of_append_singleton h)⟩

/-- What a location gets from above: the headers of the root and the server, and the line of the
nearer of their keys. -/
structure FromAbove (doc : Document) (i : Nat) (above : Inheritance) : Prop where
  headers : List.Forall₂ (Declares doc) above.headers
    (declaredAt (doc.tree.at? ·) [] ++ declaredAt (doc.tree.at? ·) (serverSteps i))
  line : above.line = (doc.origins.lineAt (segments (serverSteps i) ++ [headersKey])).or
    (doc.origins.lineAt [headersKey])

/-- The nodes that handing down headers rebuilds: those on the way to the headers of a location.
None of them is a scalar. -/
def HeaderSpine (steps : List Tree.Step) (u _v : Tree) : Prop :=
  (∃ i j, steps <+: locationSteps i j ++ [.key headersKey]) ∧ ∀ w, u ≠ .scalar w

variable {above : Inheritance} {location : Tree} {table : Origins}
  {fields : List (String × Tree)}

/-- The merged headers of a location, with their declarations. -/
theorem FromAbove.merged (habove : FromAbove doc i above)
    (hlocation : doc.tree.at? (locationSteps i j) = some location) (hd : table.Distinct)
    (hagree : Origins.AgreeBelow (segments (locationSteps i j)) table doc.origins) :
    List.Forall₂ (Declares doc)
      (above.headers ++ headersOf location (ofSteps (locationSteps i j)) table)
      (declarations (doc.tree.at? ·) i j) :=
  List.rel_append habove.headers (headersOf_declares hlocation hd hagree)

/-- A location that keeps its headers stays in its place. -/
theorem inheritSource_kept {find : List Tree.Step → Option Tree}
    (hfind : find (locationSteps i j ++ [.key headersKey]) = location.get? headersKey)
    (hkept : declarations find i j = [] ∨ ∀ fields, location ≠ .mapping fields)
    {s : List Tree.Step} {u : Tree} (hs : location.at? s = some u) :
    inheritSource find (locationSteps i j ++ s) = locationSteps i j ++ s := by
  by_cases hunder : [.key headersKey] <+: s
  · obtain ⟨rest, rfl⟩ := hunder
    rw [List.singleton_append] at hs ⊢
    rw [inheritSource_headers]
    rcases rest with _ | ⟨h | h, rest⟩
    · -- the location's own key is the nearest
      rw [Tree.at?_key] at hs
      rw [headerSource, nearestHeaders, hfind, hs]
      rfl
    · rfl
    · rcases hkept with hnil | hother
      · rw [headerSource, hnil]
        rfl
      · cases location with
        | scalar v => cases hs
        | sequence items => cases hs
        | mapping fields => exact absurd rfl (hother fields)
  · refine inheritSource_of_not_isPrefix fun i' j' h => hunder ?_
    have h : i' = i ∧ j' = j ∧ [.key headersKey] <+: s := by
      simpa [locationSteps, locationsSteps, serverSteps] using h
    exact h.2.2

theorem exists_getElem?_of_forall₂ {α β : Type} {R : α → β → Prop} {xs : List α} {ys : List β}
    (h : List.Forall₂ R xs ys) {k : Nat} {x : α} (hx : xs[k]? = some x) :
    ∃ y, ys[k]? = some y ∧ R x y := by
  induction h generalizing k with
  | nil => cases hx
  | cons hr _ ih =>
      cases k with
      | zero =>
          cases hx
          exact ⟨_, rfl, hr⟩
      | succ k => exact ih hx

theorem cut_of_declares {headers : List Header} {ds : List (List Tree.Step)}
    (h : List.Forall₂ (Declares doc) headers ds) :
    ∀ header ∈ headers, Origins.Cut header.lines := by
  intro header hmem
  obtain ⟨k, hk⟩ := List.mem_iff_getElem?.mp hmem
  obtain ⟨d, -, hd⟩ := exists_getElem?_of_forall₂ h hk
  exact hd.cut

theorem headersLine_ofSteps (steps : List Tree.Step) (table : Origins) :
    headersLine (ofSteps steps) table = table.lineAt (segments steps ++ [headersKey]) := by
  rw [headersLine, ofSteps, child_ofSegments]
  rfl

/-- The merged headers of a location. -/
theorem mergedHeaders_traces (hdoc : doc.Heritable)
    (hserver : doc.tree.at? (serverSteps i) = some (.mapping server))
    (hlocation : doc.tree.at? (locationSteps i j) = some (.mapping fields))
    {merged : List Header}
    (hmerged : List.Forall₂ (Declares doc) merged (declarations (doc.tree.at? ·) i j))
    (hne : merged ≠ [])
    (hline : table.lineAt (segments (locationSteps i j) ++ [headersKey])
      = (doc.origins.lineAt (segments (locationSteps i j) ++ [headersKey])).or
          ((doc.origins.lineAt (segments (serverSteps i) ++ [headersKey])).or
            (doc.origins.lineAt [headersKey])))
    (hitems : ∀ h header, merged[h]? = some header → ∀ r, Plain r →
      table.lineAt (segments (locationSteps i j) ++ [headersKey] ++ [Number.showNat h] ++ r)
        = Ordered.get? (ofSegments r) header.lines) :
    Traces doc table (segments (locationSteps i j) ++ [headersKey])
      (.sequence (merged.map (·.value))) (headerSource (doc.tree.at? ·) i j)
      (fun s => HeaderSpine (locationSteps i j ++ .key headersKey :: s)) := by
  have hdecl : declarations (doc.tree.at? ·) i j ≠ [] := by
    intro hnil
    rw [hnil] at hmerged
    exact hne (List.forall₂_nil_right_iff.mp hmerged)
  -- some header was declared, so the key that gives the line exists
  obtain ⟨v, hv⟩ := exists_nearestHeaders hdecl
  refine Traces.sequence ⟨fun _ hs => (nomatch hs), ?_, v, hv, .inr ?_⟩ ?_
  · rw [hdoc.lineAt_nearestHeaders hserver hlocation] at hline
    exact (congrArg table.lineAt (List.append_nil _)).trans hline
  · exact ⟨⟨i, j, List.prefix_rfl⟩, fun _ h => nomatch h⟩
  · intro h u hu
    rw [List.getElem?_map] at hu
    obtain ⟨header, hheader, rfl⟩ := Option.map_eq_some_iff.mp hu
    obtain ⟨d, hd, hdeclares⟩ := exists_getElem?_of_forall₂ hmerged hheader
    refine Traces.copy hdoc.plain hdeclares.value (fun r hr => ?_) fun s u _ => ?_
    · rw [hitems h header hheader r hr, hdeclares.lines r hr]
    · rw [headerSource, hd]

/-- **A location gets the lines of the headers that it gets.** The table is that of the document
below the location. -/
theorem inheritInto_traces (hdoc : doc.Heritable)
    (hserver : doc.tree.at? (serverSteps i) = some (.mapping server))
    (hlocation : doc.tree.at? (locationSteps i j) = some location)
    (habove : FromAbove doc i above) (hd : table.Distinct)
    (hagree : Origins.AgreeBelow (segments (locationSteps i j)) table doc.origins) :
    Traces doc (inheritInto above (ofSteps (locationSteps i j)) location table).2
      (segments (locationSteps i j))
      (inheritInto above (ofSteps (locationSteps i j)) location table).1
      (fun s => inheritSource (doc.tree.at? ·) (locationSteps i j ++ s))
      (fun s => HeaderSpine (locationSteps i j ++ s)) := by
  have hmerged := habove.merged hlocation hd hagree
  have hfind : doc.tree.at? (locationSteps i j ++ [.key headersKey])
      = location.get? headersKey := by
    rw [Tree.at?_append, hlocation, Option.bind_some, Tree.at?_key]
  rcases inheritInto_cases above (ofSteps (locationSteps i j)) location table with
    ⟨hkept, hrun⟩ | ⟨fields, rfl, hne, hrun⟩
  · -- nothing to merge, or nothing to merge it into
    rw [hrun]
    have hkept : declarations (doc.tree.at? ·) i j = [] ∨
        ∀ fields, location ≠ .mapping fields := by
      refine hkept.imp_left fun hnil => ?_
      rw [hnil] at hmerged
      exact List.forall₂_nil_left_iff.mp hmerged
    exact Traces.copy hdoc.plain hlocation hagree fun s u hs => inheritSource_kept hfind hkept hs
  · set merged := above.headers ++ headersOf (.mapping fields) (ofSteps (locationSteps i j)) table
    have hq : Plain (segments (locationSteps i j) ++ [headersKey]) :=
      plain_append.mpr ⟨plain_locationSteps i j, plain_headersKey⟩
    rw [headersLine_ofSteps, hagree [headersKey] plain_headersKey, habove.line] at hrun
    rw [hrun, ofSteps, child_ofSegments]
    obtain ⟨-, hline, hframe, hitems⟩ := recordHeaders_spec hq
      ((doc.origins.lineAt (segments (locationSteps i j) ++ [headersKey])).or
        ((doc.origins.lineAt (segments (serverSteps i) ++ [headersKey])).or
          (doc.origins.lineAt [headersKey]))) (cut_of_declares hmerged) hd
    refine Traces.update hdoc.plain hlocation ?_ ?_ ?_ ?_ ?_ dotless_headersKey ?_
    · intro k u hk hu
      rw [Ordered.get?_insert_of_ne (Ne.symm hk)] at hu
      exact hu
    · intro r hr hnot
      rw [← hagree r hr]
      refine hframe _ (plain_append.mpr ⟨plain_locationSteps i j, hr⟩) fun h => hnot ?_
      exact (List.prefix_append_right_inj _).mp h
    · exact inheritSource_of_length_le (by simp [locationSteps, locationsSteps, serverSteps])
    · intro k s hk
      refine inheritSource_of_not_isPrefix fun i' j' h => hk ?_
      have h : i' = i ∧ j' = j ∧ headersKey = k := by
        simpa [locationSteps, locationsSteps, serverSteps] using h
      exact h.2.2.symm
    · refine ⟨⟨i, j, List.prefix_append _ _⟩, ?_⟩
      rintro _ ⟨⟩
    · intro u hu
      rw [Ordered.get?_insert_self] at hu
      cases hu
      simp only [inheritSource_headers]
      exact mergedHeaders_traces hdoc hserver hlocation hmerged hne hline hitems

end Location

/-! ## One server -/

theorem inheritAll_eq_walk (above : Inheritance) (i index : Nat) (locations : List Tree)
    (origins : Origins) :
    inheritAll above (ofSteps (locationsSteps i)) index locations origins
      = walk (fun j => inheritInto above (ofSteps (locationSteps i j))) index locations
          origins := by
  induction locations generalizing index origins with
  | nil => rfl
  | cons location locations ih =>
      rw [inheritAll, walk, ih, locationSteps, ofSteps_append_index]

/-- What the locations of a server inherit. -/
def serverAbove (site : Inheritance) (i : Nat) (server : Tree) (table : Origins) : Inheritance :=
  ⟨site.headers ++ headersOf server (ofSteps (serverSteps i)) table,
    (headersLine (ofSteps (serverSteps i)) table).or site.line⟩

/-- What can happen to a server. -/
theorem inheritServer_cases (site : Inheritance) (i : Nat) (server : Tree) (table : Origins) :
    ((∀ fields, server ≠ .mapping fields) ∧
      inheritServer site i server table = (server, table)) ∨
    (∃ fields, server = .mapping fields ∧
      (∀ locations, Ordered.get? locationsKey fields ≠ some (.sequence locations)) ∧
      inheritServer site i server table = (.mapping (Ordered.erase headersKey fields), table)) ∨
    ∃ fields locations, server = .mapping fields ∧
      Ordered.get? locationsKey fields = some (.sequence locations) ∧
      inheritServer site i server table
        = (.mapping (Ordered.erase headersKey (Ordered.insert locationsKey (.sequence
            (walk (fun j => inheritInto (serverAbove site i server table)
              (ofSteps (locationSteps i j))) 0 locations table).1) fields)),
          (walk (fun j => inheritInto (serverAbove site i server table)
            (ofSteps (locationSteps i j))) 0 locations table).2) := by
  cases server with
  | scalar v => exact .inl ⟨fun _ h => (nomatch h), rfl⟩
  | sequence items => exact .inl ⟨fun _ h => (nomatch h), rfl⟩
  | mapping fields =>
      by_cases hseq : ∃ locations, Ordered.get? locationsKey fields = some (.sequence locations)
      · obtain ⟨locations, hget⟩ := hseq
        refine .inr (.inr ⟨fields, locations, rfl, hget, ?_⟩)
        rw [← inheritAll_eq_walk]
        simp only [inheritServer, hget]
        rfl
      · refine .inr (.inl ⟨fields, rfl, fun locations h => hseq ⟨locations, h⟩, ?_⟩)
        rcases hget : Ordered.get? locationsKey fields with _ | (v | locations | fields')
        · simp only [inheritServer, hget]
        · simp only [inheritServer, hget]
        · exact absurd ⟨locations, hget⟩ hseq
        · simp only [inheritServer, hget]

section Server

variable {doc : Document} {i : Nat} {site : Inheritance} {table : Origins}

/-- What the servers get from the root. -/
structure FromRoot (doc : Document) (site : Inheritance) : Prop where
  headers : List.Forall₂ (Declares doc) site.headers (declaredAt (doc.tree.at? ·) [])
  line : site.line = doc.origins.lineAt [headersKey]

theorem inheritServer_keepsOutside
    (hsite : ∀ header ∈ site.headers, Origins.Cut header.lines) :
    KeepsOutside (inheritServer site) (fun i => segments (serverSteps i)) := by
  intro i server table hd
  rcases inheritServer_cases site i server table with
    ⟨-, hrun⟩ | ⟨fields, -, -, hrun⟩ | ⟨fields, locations, -, -, hrun⟩
  · rw [hrun]
    exact ⟨hd, fun p _ _ => rfl⟩
  · rw [hrun]
    exact ⟨hd, fun p _ _ => rfl⟩
  · rw [hrun]
    have habove : ∀ header ∈ (serverAbove site i server table).headers,
        Origins.Cut header.lines := cut_append_headersOf hsite hd server _
    obtain ⟨hdistinct, hframe⟩ := walk_frame (inheritInto_keepsOutside habove i) 0 locations hd
    refine ⟨hdistinct, fun p hp hnot => hframe p hp fun j _ h => hnot ?_⟩
    exact List.IsPrefix.trans ⟨[locationsKey, Number.showNat j], rfl⟩ h

/-- The locations of a server after each has been given its headers. -/
theorem inheritedLocations_traces (hdoc : doc.Heritable) {server : List (String × Tree)}
    (hserver : doc.tree.at? (serverSteps i) = some (.mapping server)) {locations : List Tree}
    (hlocations : doc.tree.at? (locationsSteps i) = some (.sequence locations))
    {above : Inheritance} (habove : FromAbove doc i above) (hd : table.Distinct)
    (hagree : Origins.AgreeBelow (segments (serverSteps i)) table doc.origins) :
    Traces doc
      (walk (fun j => inheritInto above (ofSteps (locationSteps i j))) 0 locations table).2
      (segments (serverSteps i) ++ [locationsKey])
      (.sequence
        (walk (fun j => inheritInto above (ofSteps (locationSteps i j))) 0 locations table).1)
      (fun s => inheritSource (doc.tree.at? ·) (serverSteps i ++ .key locationsKey :: s))
      (fun s => HeaderSpine (serverSteps i ++ .key locationsKey :: s)) := by
  refine Traces.of_walk (p := locationsSteps i)
    (inheritInto_keepsOutside (cut_of_declares habove.headers) i) hd (plain_locationsAt i)
    hlocations (fun k => ?_) (hagree [locationsKey] plain_shared)
    (inheritSource_of_length_le (by simp [locationsSteps, serverSteps])) ?_ ?_
  · rw [locationSteps, segments_append]
    exact List.prefix_rfl
  · refine ⟨⟨i, 0, [.index 0, .key headersKey], rfl⟩, ?_⟩
    rintro _ ⟨⟩
  · -- before location `j` is reached, only other locations have changed
    intro j location before hlocation hd' hbefore
    refine inheritInto_traces hdoc hserver hlocation habove hd' fun r hr => ?_
    have hplain : Plain ([locationsKey] ++ [Number.showNat j] ++ r) :=
      plain_append.mpr ⟨plain_append_showNat plain_shared j, hr⟩
    refine (hbefore _ (plain_append.mpr ⟨plain_locationSteps i j, hr⟩) fun k hk => ?_).trans
      (hagree _ hplain)
    rw [locationSteps, locationSteps, segments_append, segments_append]
    exact not_isPrefix_of_ne (List.prefix_append _ _) hk

/-- A part without locations that are given headers stays in its place. -/
theorem traces_without_locations (hdoc : doc.Heritable) {p : List Tree.Step} {t : Tree}
    {rebuilt : List Tree.Step → Tree → Tree → Prop} (hp : doc.tree.at? p = some t)
    (hlines : Origins.AgreeBelow (segments p) table doc.origins)
    (hnone : ∀ i s, locationsSteps i <+: p ++ s →
      ∀ items, doc.tree.at? (locationsSteps i) ≠ some (.sequence items)) :
    Traces doc table (segments p) t (fun s => inheritSource (doc.tree.at? ·) (p ++ s))
      rebuilt := by
  refine Traces.copy hdoc.plain hp hlines fun s u hs => ?_
  refine inheritSource_of_not_isPrefix fun i j h => ?_
  have hat : doc.tree.at? (p ++ s) = some u := by
    rw [Tree.at?_append, hp]
    exact hs
  have hbelow : locationsSteps i <+: p ++ s :=
    List.IsPrefix.trans ⟨[.index j, .key headersKey], rfl⟩ h
  obtain ⟨rest, hrest⟩ := h
  have hsplit : p ++ s = locationsSteps i ++ .index j :: .key headersKey :: rest := hrest.symm
  rw [hsplit, Tree.at?_append] at hat
  obtain ⟨locations, hlocations, hat⟩ := Option.bind_eq_some_iff.mp hat
  cases locations with
  | scalar v => cases hat
  | mapping fields => cases hat
  | sequence items => exact hnone i s hbelow items hlocations

theorem FromRoot.above (hsite : FromRoot doc site) {server : Tree}
    (hserver : doc.tree.at? (serverSteps i) = some server) (hd : table.Distinct)
    (hagree : Origins.AgreeBelow (segments (serverSteps i)) table doc.origins) :
    FromAbove doc i (serverAbove site i server table) := by
  refine ⟨List.rel_append hsite.headers (headersOf_declares hserver hd hagree), ?_⟩
  rw [serverAbove, headersLine_ofSteps, hagree [headersKey] plain_headersKey, hsite.line]

/-- The nodes that are rebuilt at a server. -/
theorem headerSpine_server (i : Nat) (fields fields' : List (String × Tree)) :
    HeaderSpine (serverSteps i) (.mapping fields) (.mapping fields') :=
  ⟨⟨i, 0, [.key locationsKey, .index 0, .key headersKey], rfl⟩, fun _ h => nomatch h⟩

theorem eq_of_locationsSteps_isPrefix {i' : Nat} {s : List Tree.Step}
    (h : locationsSteps i' <+: serverSteps i ++ s) : i' = i := by
  have h : i' = i ∧ [.key locationsKey] <+: s := by
    simpa [locationsSteps, serverSteps] using h
  exact h.1

section Mapping

variable {fields : List (String × Tree)}

/-- A server that has no list of locations only loses its headers. -/
theorem server_without_locations_traces (hdoc : doc.Heritable)
    (hserver : doc.tree.at? (serverSteps i) = some (.mapping fields))
    (hlocations : ∀ items, Ordered.get? locationsKey fields ≠ some (.sequence items))
    (hagree : Origins.AgreeBelow (segments (serverSteps i)) table doc.origins) :
    Traces doc table (segments (serverSteps i)) (.mapping (Ordered.erase headersKey fields))
      (fun s => inheritSource (doc.tree.at? ·) (serverSteps i ++ s))
      (fun s => HeaderSpine (serverSteps i ++ s)) := by
  have hget := at?_locationsSteps hserver
  refine Traces.update hdoc.plain hserver ?_ (fun r hr _ => hagree r hr)
    (inheritSource_of_length_le (by simp [serverSteps]))
    (fun k s hk => inheritSource_server_key hk i s) (headerSpine_server i _ _)
    dotless_locationsKey ?_
  · intro k u _ hu
    rw [Ordered.get?_erase] at hu
    split_ifs at hu
    exact hu
  · intro u hu
    rw [Ordered.get?_erase_of_ne (by decide)] at hu
    refine traces_without_locations hdoc (hget.trans hu) (hagree.append plain_shared) ?_
    intro i' s h items
    rw [eq_of_locationsSteps_isPrefix (s := .key locationsKey :: s) h, hget]
    exact hlocations items

/-- A server that hands headers to its locations. -/
theorem server_with_locations_traces (hdoc : doc.Heritable)
    (hserver : doc.tree.at? (serverSteps i) = some (.mapping fields)) {locations : List Tree}
    (hlocations : Ordered.get? locationsKey fields = some (.sequence locations))
    {above : Inheritance} (habove : FromAbove doc i above) (hd : table.Distinct)
    (hagree : Origins.AgreeBelow (segments (serverSteps i)) table doc.origins) :
    Traces doc
      (walk (fun j => inheritInto above (ofSteps (locationSteps i j))) 0 locations table).2
      (segments (serverSteps i))
      (.mapping (Ordered.erase headersKey (Ordered.insert locationsKey (.sequence
        (walk (fun j => inheritInto above (ofSteps (locationSteps i j))) 0 locations table).1)
        fields)))
      (fun s => inheritSource (doc.tree.at? ·) (serverSteps i ++ s))
      (fun s => HeaderSpine (serverSteps i ++ s)) := by
  have hkeeps := inheritInto_keepsOutside (cut_of_declares habove.headers) i
  refine Traces.update hdoc.plain hserver ?_ ?_
    (inheritSource_of_length_le (by simp [serverSteps]))
    (fun k s hk => inheritSource_server_key hk i s) (headerSpine_server i _ _)
    dotless_locationsKey ?_
  · intro k u hk hu
    rw [Ordered.get?_erase] at hu
    split_ifs at hu
    rw [Ordered.get?_insert_of_ne (Ne.symm hk)] at hu
    exact hu
  · -- the walk changes the table only below the locations
    intro r hr hnot
    rw [← hagree r hr]
    refine (walk_frame hkeeps 0 locations hd).2 _
      (plain_append.mpr ⟨hdoc.plain _ _ hserver, hr⟩) fun j _ h => hnot ?_
    have h : segments (serverSteps i) ++ [locationsKey, Number.showNat j] <+:
        segments (serverSteps i) ++ r := h
    exact List.IsPrefix.trans ⟨[Number.showNat j], rfl⟩ ((List.prefix_append_right_inj _).mp h)
  · intro u hu
    rw [Ordered.get?_erase_of_ne (by decide), Ordered.get?_insert_self] at hu
    cases hu
    exact inheritedLocations_traces hdoc hserver ((at?_locationsSteps hserver).trans hlocations)
      habove hd hagree

end Mapping

/-- **A server hands its headers down with their lines.** The table is that of the document below
the server. -/
theorem inheritServer_traces (hdoc : doc.Heritable) {server : Tree}
    (hserver : doc.tree.at? (serverSteps i) = some server) (hsite : FromRoot doc site)
    (hd : table.Distinct)
    (hagree : Origins.AgreeBelow (segments (serverSteps i)) table doc.origins) :
    Traces doc (inheritServer site i server table).2 (segments (serverSteps i))
      (inheritServer site i server table).1
      (fun s => inheritSource (doc.tree.at? ·) (serverSteps i ++ s))
      (fun s => HeaderSpine (serverSteps i ++ s)) := by
  rcases inheritServer_cases site i server table with
    ⟨hscalar, hrun⟩ | ⟨fields, rfl, hlocations, hrun⟩ | ⟨fields, locations, rfl, hlocations, hrun⟩
  · rw [hrun]
    refine traces_without_locations hdoc hserver hagree fun i' s h items => ?_
    rw [eq_of_locationsSteps_isPrefix h, locationsSteps, Tree.at?_append, hserver,
      Option.bind_some, Tree.at?_key]
    cases server with
    | scalar v => rintro ⟨⟩
    | sequence items' => rintro ⟨⟩
    | mapping fields => exact absurd rfl (hscalar fields)
  · rw [hrun]
    exact server_without_locations_traces hdoc hserver hlocations hagree
  · rw [hrun]
    exact server_with_locations_traces hdoc hserver hlocations (hsite.above hserver hd hagree) hd
      hagree

end Server

/-! ## All servers -/

theorem inheritServers_eq_walk (site : Inheritance) (index : Nat) (servers : List Tree)
    (origins : Origins) :
    inheritServers site index servers origins
      = walk (inheritServer site) index servers origins := by
  induction servers generalizing index origins with
  | nil => rfl
  | cons server servers ih => rw [inheritServers, walk, ih]

/-- What the root hands down. -/
def siteAbove (doc : Document) : Inheritance :=
  ⟨headersOf doc.tree KeyPath.root doc.origins, headersLine KeyPath.root doc.origins⟩

/-- What can happen to a document. -/
theorem inheritHeaders_cases (doc : Document) :
    (doc.tree.get? serversKey = none ∧ doc.inheritHeaders = doc) ∨
    ∃ root servers servers' table, doc.tree = .mapping root ∧
      Ordered.get? serversKey root = some servers ∧
      doc.inheritHeaders
        = ⟨.mapping (Ordered.erase headersKey (Ordered.insert serversKey servers' root)), table⟩ ∧
      (((∀ list, servers ≠ .sequence list) ∧ servers' = servers ∧ table = doc.origins) ∨
        ∃ list, servers = .sequence list ∧
          servers' = .sequence (walk (inheritServer doc.siteAbove) 0 list doc.origins).1 ∧
          table = (walk (inheritServer doc.siteAbove) 0 list doc.origins).2) := by
  obtain ⟨tree, origins⟩ := doc
  cases tree with
  | scalar v => exact .inl ⟨rfl, rfl⟩
  | sequence items => exact .inl ⟨rfl, rfl⟩
  | mapping root =>
      rcases hservers : Ordered.get? serversKey root with _ | servers
      · refine .inl ⟨hservers, ?_⟩
        simp only [inheritHeaders, hservers]
      · refine .inr ⟨root, servers, ?_⟩
        cases servers with
        | scalar v =>
            refine ⟨_, _, rfl, hservers, ?_, .inl ⟨fun _ h => (nomatch h), rfl, rfl⟩⟩
            simp only [inheritHeaders, hservers]
        | mapping fields =>
            refine ⟨_, _, rfl, hservers, ?_, .inl ⟨fun _ h => (nomatch h), rfl, rfl⟩⟩
            simp only [inheritHeaders, hservers]
        | sequence list =>
            refine ⟨_, _, rfl, hservers, ?_, .inr ⟨list, rfl, rfl, rfl⟩⟩
            simp only [inheritHeaders, hservers, ← inheritServers_eq_walk]
            rfl

section Document

variable {doc : Document}

theorem Heritable.fromRoot (hdoc : doc.Heritable) : FromRoot doc doc.siteAbove := by
  have hroot : KeyPath.root = ofSteps [] := rfl
  refine ⟨?_, ?_⟩
  · rw [siteAbove, hroot]
    exact headersOf_declares (Tree.at?_nil doc.tree) hdoc.distinct fun _ _ => rfl
  · rw [siteAbove, hroot, headersLine_ofSteps]
    rfl

/-- The servers after each of them has handed down its headers. -/
theorem inheritedServers_traces (hdoc : doc.Heritable) {list : List Tree}
    (hservers : doc.tree.at? [.key serversKey] = some (.sequence list)) :
    Traces doc (walk (inheritServer doc.siteAbove) 0 list doc.origins).2 [serversKey]
      (.sequence (walk (inheritServer doc.siteAbove) 0 list doc.origins).1)
      (fun s => inheritSource (doc.tree.at? ·) (.key serversKey :: s))
      (fun s => HeaderSpine (.key serversKey :: s)) := by
  refine Traces.of_walk (p := [.key serversKey])
    (inheritServer_keepsOutside (cut_of_declares hdoc.fromRoot.headers)) hdoc.distinct
    (hdoc.plain _ _ hservers) hservers (fun k => List.prefix_rfl) rfl rfl ?_ ?_
  · exact ⟨⟨0, 0, [.index 0, .key locationsKey, .index 0, .key headersKey], rfl⟩,
      fun _ h => nomatch h⟩
  · -- the root's headers were read before the walk, so only the server's own part has to agree
    intro i server before hserver hd hbefore
    refine inheritServer_traces hdoc hserver hdoc.fromRoot hd fun r hr => ?_
    refine hbefore _ (plain_append.mpr ⟨hdoc.plain _ _ hserver, hr⟩) fun k hk => ?_
    have hi : [serversKey] ++ [Number.showNat i] <+: segments (serverSteps i) ++ r := ⟨r, rfl⟩
    exact not_isPrefix_of_ne hi hk

/-- Without a sequence of servers there are no locations to give headers to. -/
theorem at?_locationsSteps_of_no_servers
    (h : ∀ list, doc.tree.at? [.key serversKey] ≠ some (.sequence list)) (i : Nat)
    (items : List Tree) : doc.tree.at? (locationsSteps i) ≠ some (.sequence items) := by
  intro hlocations
  have hsplit : locationsSteps i = [.key serversKey] ++ [.index i, .key locationsKey] := rfl
  rw [hsplit, Tree.at?_append] at hlocations
  obtain ⟨servers, hservers, hlocations⟩ := Option.bind_eq_some_iff.mp hlocations
  cases servers with
  | scalar v => cases hlocations
  | mapping fields => cases hlocations
  | sequence list => exact h list hservers

/-- **The lineage of inherited headers.** Handing down headers gives every node the line of the
node it comes from. -/
theorem inheritHeaders_traces (hdoc : doc.Heritable) :
    Traces doc doc.inheritHeaders.origins [] doc.inheritHeaders.tree
      (inheritSource (doc.tree.at? ·)) HeaderSpine := by
  rcases inheritHeaders_cases doc with
    ⟨hservers, hrun⟩ | ⟨root, servers, servers', table, htree, hservers, hrun, hcase⟩
  · rw [hrun]
    refine traces_without_locations hdoc (Tree.at?_nil doc.tree) (fun r _ => rfl) fun i _ _ =>
      at?_locationsSteps_of_no_servers (fun list => ?_) i
    rw [Tree.at?_key, hservers]
    exact fun h => nomatch h
  · have hget : doc.tree.at? [.key serversKey] = some servers := by
      rw [Tree.at?_key, htree]
      exact hservers
    have hspine : HeaderSpine []
        (.mapping (Ordered.erase headersKey (Ordered.insert serversKey servers' root)))
        (.mapping root) := ⟨⟨0, 0, List.nil_prefix⟩, fun _ h => nomatch h⟩
    have hsrc : ∀ steps, ¬ [.key serversKey] <+: steps →
        inheritSource (doc.tree.at? ·) steps = steps := by
      refine fun steps hnot => inheritSource_of_not_isPrefix fun i j h => hnot ?_
      exact List.IsPrefix.trans
        ⟨[.index i, .key locationsKey, .index j, .key headersKey], rfl⟩ h
    rw [hrun]
    rcases hcase with ⟨hscalar, rfl, rfl⟩ | ⟨list, rfl, rfl, rfl⟩
    · refine root_traces hdoc.plain htree (fun p _ _ => rfl) hsrc hspine ?_
      refine traces_without_locations hdoc hget (fun r _ => rfl) fun i _ _ =>
        at?_locationsSteps_of_no_servers (fun list => ?_) i
      rw [hget]
      exact fun h => hscalar list (Option.some.inj h)
    · refine root_traces hdoc.plain htree (fun p hp hnot => ?_) hsrc hspine
        (inheritedServers_traces hdoc hget)
      refine (walk_frame (inheritServer_keepsOutside (cut_of_declares hdoc.fromRoot.headers)) 0
        list hdoc.distinct).2 p hp fun k _ h => hnot ?_
      exact List.IsPrefix.trans ⟨[Number.showNat k], rfl⟩ h

end Document

end SiteConf.Document
