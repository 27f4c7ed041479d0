import SiteConf.Proofs.SettledTree
import SiteConf.Proofs.Slots

set_option autoImplicit false

/-! # The table of inherited headers, with its order

Inheriting headers goes through the locations of all servers and records, for each location with
headers, a block at the end of the table. After a first pass the table is what it was outside the
slots, followed by the blocks of the slots in the order of the locations (`Rearranges`).

A pass over a document that has been settled meets the same slots in the same order, reads each
block back and moves it to the end. So the table turns around: when all blocks have been moved,
each stands where it was (`Rotates`). Both are shown for one location, and the loops over the
locations and the servers are dealt with once (`walk_fills`, `walk_rotates`). -/

namespace SiteConf.Document

open KeyPath Origins

/-! ## Slots of a document -/

/-- What is known of a slot without a table. -/
def Slot.key (s : Slot) : String × List Tree :=
  (s.path, s.headers.map (·.value))

/-- The slot of a location, if it has headers. -/
def locationSlots (path : String) (location : Tree) : List (String × List Tree) :=
  let own := Tree.itemsOf (location.get? headersKey)
  if own.isEmpty then [] else [(child path headersKey, own)]

/-- The slots of the items of a sequence from `index` on. -/
def slotsFrom (slots : Nat → Tree → List (String × List Tree)) (index : Nat) (ts : List Tree) :
    List (String × List Tree) :=
  (ts.zipIdx index).flatMap fun t => slots t.2 t.1

def serverSlots (i : Nat) (server : Tree) : List (String × List Tree) :=
  slotsFrom (fun j => locationSlots (ofSteps (locationSteps i j))) 0
    (Tree.itemsOf (server.get? locationsKey))

def siteSlots (t : Tree) : List (String × List Tree) :=
  slotsFrom serverSlots 0 (Tree.itemsOf (t.get? serversKey))

theorem slotsFrom_cons (slots : Nat → Tree → List (String × List Tree)) (index : Nat) (t : Tree)
    (ts : List Tree) :
    slotsFrom slots index (t :: ts) = slots index t ++ slotsFrom slots (index + 1) ts := by
  rw [slotsFrom, List.zipIdx_cons, List.flatMap_cons]
  rfl

theorem exists_of_mem_slotsFrom {slots : Nat → Tree → List (String × List Tree)}
    {ts : List Tree} {slot : String × List Tree} (h : slot ∈ slotsFrom slots 0 ts) :
    ∃ i t, ts[i]? = some t ∧ slot ∈ slots i t := by
  obtain ⟨⟨t, i⟩, ht, hslot⟩ := List.mem_flatMap.mp h
  exact ⟨i, t, List.mem_zipIdx_iff_getElem?.mp ht, hslot⟩

/-! ## Many blocks -/

def blocks (ss : List Slot) : List (String × Nat) :=
  ss.flatMap Slot.block

/-- No entry lies below a slot. -/
def Outside (ss : List Slot) (es : List (String × Nat)) : Prop :=
  ∀ s ∈ ss, ∀ e ∈ es, ¬ Below s.path e.1

/-- The entries that lie below no slot. -/
def cleared (ss : List Slot) (es : List (String × Nat)) : List (String × Nat) :=
  es.filter fun e => ∀ s ∈ ss, ¬ Below s.path e.1

section Many

variable {ss ss' : List Slot} {es es' : List (String × Nat)}

theorem blocks_append : blocks (ss ++ ss') = blocks ss ++ blocks ss' :=
  List.flatMap_append

theorem outside_append : Outside ss (es ++ es') ↔ Outside ss es ∧ Outside ss es' := by
  constructor
  · intro h
    exact ⟨fun s hs e he => h s hs e (List.mem_append_left _ he),
      fun s hs e he => h s hs e (List.mem_append_right _ he)⟩
  · rintro ⟨h, h'⟩ s hs e he
    rcases List.mem_append.mp he with he | he
    · exact h s hs e he
    · exact h' s hs e he

/-- The blocks of slots that are apart from others lie outside the others. -/
theorem outside_blocks (hcut : ∀ s ∈ ss', s.Cut)
    (hapart : ∀ s ∈ ss, ∀ s' ∈ ss', Apart s.path s'.path) : Outside ss (blocks ss') := by
  intro s hs e he hbelow
  obtain ⟨s', hs', he⟩ := List.mem_flatMap.mp he
  exact hapart s hs s' hs' e.1 hbelow (Slot.below_of_mem_block (hcut s' hs') he)

theorem outside_cleared : Outside ss (cleared ss es) := by
  intro s hs e he
  have h := (List.mem_filter.mp he).2
  rw [decide_eq_true_eq] at h
  exact h s hs

theorem cleared_of_outside (h : Outside ss es) : cleared ss es = es := by
  refine List.filter_eq_self.mpr fun e he => ?_
  rw [decide_eq_true_eq]
  exact fun s hs => h s hs e he

theorem cleared_append_slots : cleared (ss ++ ss') es = cleared ss' (cleared ss es) := by
  rw [cleared, cleared, cleared, List.filter_filter]
  refine List.filter_congr fun e _ => ?_
  rw [Bool.eq_iff_iff, Bool.and_eq_true, decide_eq_true_eq, decide_eq_true_eq, decide_eq_true_eq,
    List.forall_mem_append, and_comm]

theorem cleared_append_entries : cleared ss (es ++ es') = cleared ss es ++ cleared ss es' :=
  List.filter_append es es'

end Many

/-! ## The first pass -/

/-- The new table is the old one outside the slots, with the blocks of the slots behind. -/
structure Rearranges (table table' : Origins) (ss : List Slot) : Prop where
  cut : ∀ s ∈ ss, s.Cut
  apart : ss.Pairwise fun s s' => Apart s.path s'.path
  entries : table'.entries = cleared ss table.entries ++ blocks ss

section Rearranges

variable {table table' table'' : Origins} {ss ss' : List Slot}

theorem Rearranges.refl (table : Origins) : Rearranges table table [] := by
  have houtside : Outside [] table.entries := List.forall_mem_nil _
  refine ⟨List.forall_mem_nil _, .nil, ?_⟩
  rw [cleared_of_outside houtside]
  exact (List.append_nil _).symm

theorem rearranges_recordHeaders {s : Slot} (hcut : s.Cut) (table : Origins) :
    Rearranges table (recordHeaders s.path s.line s.headers table) [s] := by
  refine ⟨List.forall_mem_singleton.mpr hcut, List.pairwise_singleton _ s, ?_⟩
  have hcleared : (table.removeSubtree s.path).entries = cleared [s] table.entries := by
    refine List.filter_congr fun e _ => ?_
    rw [Bool.eq_iff_iff, Option.isNone_iff_eq_none, under?_eq_none_iff, decide_eq_true_eq,
      List.forall_mem_singleton]
  rw [entries_recordHeaders hcut, hcleared, blocks, List.flatMap_singleton]

theorem Rearranges.append (h : Rearranges table table' ss) (h' : Rearranges table' table'' ss')
    (hapart : ∀ s ∈ ss, ∀ s' ∈ ss', Apart s.path s'.path) :
    Rearranges table table'' (ss ++ ss') := by
  have houtside : Outside ss' (blocks ss) :=
    outside_blocks h.cut fun s' hs' s hs => (hapart s hs s' hs').symm
  refine ⟨List.forall_mem_append.mpr ⟨h.cut, h'.cut⟩,
    List.pairwise_append.mpr ⟨h.apart, h'.apart, hapart⟩, ?_⟩
  calc table''.entries
      = cleared ss' (cleared ss table.entries ++ blocks ss) ++ blocks ss' := by
        rw [h'.entries, h.entries]
    _ = cleared ss' (cleared ss table.entries) ++ blocks ss ++ blocks ss' := by
        rw [cleared_append_entries, cleared_of_outside houtside]
    _ = cleared (ss ++ ss') table.entries ++ blocks (ss ++ ss') := by
        rw [cleared_append_slots, blocks_append, List.append_assoc]

/-- The path of each slot has the line of the slot. -/
theorem Rearranges.lineOf (h : Rearranges table table' ss) {s : Slot} (hs : s ∈ ss) :
    table'.lineOf s.path = s.line := by
  obtain ⟨hcut, hapart, hentries⟩ := h
  have hclear : ∀ e ∈ cleared ss table.entries, ¬ Below s.path e.1 := outside_cleared s hs
  obtain ⟨xs, ys, rfl⟩ := List.append_of_mem hs
  obtain ⟨-, hys, hxs⟩ := List.pairwise_append.mp hapart
  have hbefore : Outside [s] (blocks xs) := by
    refine outside_blocks (fun s' hs' => hcut s' (List.mem_append_left _ hs')) ?_
    rw [List.forall_mem_singleton]
    exact fun s' hs' => (hxs s' hs' s List.mem_cons_self).symm
  have hafter : Outside [s] (blocks ys) := by
    refine outside_blocks
      (fun s' hs' => hcut s' (List.mem_append_right _ (List.mem_cons_of_mem _ hs'))) ?_
    rw [List.forall_mem_singleton]
    exact (List.pairwise_cons.mp hys).1
  have hsplit : table'.entries
      = (cleared (xs ++ s :: ys) table.entries ++ blocks xs) ++ s.block ++ blocks ys := by
    rw [hentries, blocks_append, List.append_assoc, List.append_assoc]
    rfl
  refine lineOf_of_block (hcut s hs) hsplit ?_ (hafter s List.mem_cons_self)
  exact List.forall_mem_append.mpr ⟨hclear, hbefore s List.mem_cons_self⟩

end Rearranges

/-- The transformation of an item fills the slots that the new item has. -/
def Fills (f : Nat → Tree → Origins → Tree × Origins)
    (slots : Nat → Tree → List (String × List Tree)) (region : Nat → String) : Prop :=
  ∀ i t table, table.Distinct → (f i t table).2.Distinct ∧
    ∃ ss, Rearranges table (f i t table).2 ss ∧ ss.map Slot.key = slots i (f i t table).1 ∧
      ∀ s ∈ ss, Below (region i) s.path

/-- A loop over items whose regions are apart fills the slots of all items. -/
theorem walk_fills {f : Nat → Tree → Origins → Tree × Origins}
    {slots : Nat → Tree → List (String × List Tree)} {region : Nat → String}
    (hf : Fills f slots region) (hregion : ∀ i j, i ≠ j → Apart (region i) (region j))
    (index : Nat) (ts : List Tree) {table : Origins} (hd : table.Distinct) :
    (walk f index ts table).2.Distinct ∧
      ∃ ss, Rearranges table (walk f index ts table).2 ss ∧
        ss.map Slot.key = slotsFrom slots index (walk f index ts table).1 ∧
        ∀ s ∈ ss, ∃ k, index ≤ k ∧ Below (region k) s.path := by
  induction ts generalizing index table with
  | nil => exact ⟨hd, [], .refl table, rfl, List.forall_mem_nil _⟩
  | cons t ts ih =>
      obtain ⟨hhere, ss, hss, hkeys, hbelow⟩ := hf index t table hd
      obtain ⟨hlater, ss', hss', hkeys', hbelow'⟩ := ih (index + 1) hhere
      refine ⟨hlater, ss ++ ss', hss.append hss' ?_, ?_, ?_⟩
      · -- the slots of the later items lie in later regions
        intro s hs s' hs'
        obtain ⟨k, hk, hbelow'⟩ := hbelow' s' hs'
        exact (hregion index k (by omega)).below (hbelow s hs) hbelow'
      · rw [List.map_append, hkeys, hkeys', walk, slotsFrom_cons]
      · intro s hs
        rcases List.mem_append.mp hs with hs | hs
        · exact ⟨index, Nat.le_refl index, hbelow s hs⟩
        · obtain ⟨k, hk, hbelow'⟩ := hbelow' s hs
          exact ⟨k, by omega, hbelow'⟩

/-! ## The second pass -/

/-- The table has the blocks of the slots in one place, and nothing else below the slots. -/
structure Holds (table : Origins) (before : List (String × Nat)) (ss : List Slot)
    (after : List (String × Nat)) : Prop where
  entries : table.entries = before ++ blocks ss ++ after
  cut : ∀ s ∈ ss, s.Cut
  known : ∀ s ∈ ss, s.line.isSome = true
  apart : ss.Pairwise fun s s' => Apart s.path s'.path
  before : Outside ss before
  after : Outside ss after

section Holds

variable {table table' : Origins} {before after : List (String × Nat)} {ss ss' : List Slot}

theorem Holds.left (h : Holds table before (ss ++ ss') after) :
    Holds table before ss (blocks ss' ++ after) := by
  obtain ⟨hentries, hcut, hknown, hapart, hbefore, hafter⟩ := h
  obtain ⟨hss, -, hacross⟩ := List.pairwise_append.mp hapart
  refine ⟨?_, fun s hs => hcut s (List.mem_append_left _ hs),
    fun s hs => hknown s (List.mem_append_left _ hs), hss,
    fun s hs => hbefore s (List.mem_append_left _ hs), outside_append.mpr ⟨?_, ?_⟩⟩
  · rw [hentries, blocks_append, List.append_assoc, List.append_assoc, List.append_assoc]
  · exact outside_blocks (fun s hs => hcut s (List.mem_append_right _ hs)) hacross
  · exact fun s hs => hafter s (List.mem_append_left _ hs)

/-- Without slots nothing has to be moved. -/
theorem Holds.entries_of_nil (h : Holds table before [] after) :
    table.entries = before ++ after ++ blocks [] := by
  rw [h.entries, blocks, List.flatMap_nil, List.append_nil, List.append_nil]

/-- When the first blocks have been moved to the end, the others follow what stands before. -/
theorem Holds.right (h : Holds table before (ss ++ ss') after)
    (hmoved : table'.entries = before ++ (blocks ss' ++ after) ++ blocks ss) :
    Holds table' before ss' (after ++ blocks ss) := by
  obtain ⟨-, hcut, hknown, hapart, hbefore, hafter⟩ := h
  obtain ⟨-, hss', hacross⟩ := List.pairwise_append.mp hapart
  refine ⟨?_, fun s hs => hcut s (List.mem_append_right _ hs),
    fun s hs => hknown s (List.mem_append_right _ hs), hss',
    fun s hs => hbefore s (List.mem_append_right _ hs), outside_append.mpr ⟨?_, ?_⟩⟩
  · rw [hmoved, List.append_assoc, List.append_assoc, List.append_assoc]
  · exact fun s hs => hafter s (List.mem_append_right _ hs)
  · exact outside_blocks (fun s hs => hcut s (List.mem_append_left _ hs))
      fun s' hs' s hs => (hacross s hs s' hs').symm

end Holds

/-- The transformation of an item moves the blocks of its slots to the end. -/
def Rotates (f : Nat → Tree → Origins → Tree × Origins)
    (slots : Nat → Tree → List (String × List Tree)) (P : Tree → Prop) : Prop :=
  ∀ i t table before ss after, P t → Holds table before ss after → ss.map Slot.key = slots i t →
    (f i t table).2.entries = before ++ after ++ blocks ss

theorem walk_rotates {f : Nat → Tree → Origins → Tree × Origins}
    {slots : Nat → Tree → List (String × List Tree)} {P : Tree → Prop} (hf : Rotates f slots P)
    {index : Nat} {ts : List Tree} (hts : ∀ t ∈ ts, P t) {table : Origins}
    {before after : List (String × Nat)} {ss : List Slot} (h : Holds table before ss after)
    (hkeys : ss.map Slot.key = slotsFrom slots index ts) :
    (walk f index ts table).2.entries = before ++ after ++ blocks ss := by
  induction ts generalizing index table after ss with
  | nil =>
      obtain rfl : ss = [] := List.map_eq_nil_iff.mp hkeys
      exact h.entries_of_nil
  | cons t ts ih =>
      -- the blocks of this item go behind all others, those of the next ones come first now
      rw [slotsFrom_cons] at hkeys
      obtain ⟨here, later, rfl, hhere, hlater⟩ := List.map_eq_append_iff.mp hkeys
      have hmoved := hf index t table before here _ (hts t List.mem_cons_self) h.left hhere
      have hrest := ih (fun t ht => hts t (List.mem_cons_of_mem _ ht)) (h.right hmoved) hlater
      rw [walk, hrest, blocks_append, List.append_assoc, List.append_assoc, List.append_assoc]

/-! ## Locations -/

theorem locationSlots_of_nil {path : String} {location : Tree}
    (h : Tree.itemsOf (location.get? headersKey) = []) : locationSlots path location = [] := by
  rw [locationSlots, h]
  rfl

theorem locationSlots_of_ne_nil {path : String} {location : Tree}
    (h : Tree.itemsOf (location.get? headersKey) ≠ []) :
    locationSlots path location
      = [(child path headersKey, Tree.itemsOf (location.get? headersKey))] := by
  rw [locationSlots, if_neg]
  rwa [List.isEmpty_iff]

theorem itemsOf_get?_of_not_mapping {t : Tree} (h : ∀ fields, t ≠ .mapping fields) (k : String) :
    Tree.itemsOf (t.get? k) = [] := by
  cases t with
  | scalar v => rfl
  | sequence items => rfl
  | mapping fields => exact absurd rfl (h fields)

theorem eq_some_of_itemsOf_ne_nil {t : Option Tree} (h : Tree.itemsOf t ≠ []) :
    t = some (.sequence (Tree.itemsOf t)) := by
  rcases t with _ | (v | items | fields)
  · exact absurd rfl h
  · exact absurd rfl h
  · rfl
  · exact absurd rfl h

theorem itemsOf_of_not_sequence {t : Option Tree} (h : ∀ items, t ≠ some (.sequence items)) :
    Tree.itemsOf t = [] := by
  by_contra hne
  exact h _ (eq_some_of_itemsOf_ne_nil hne)

theorem inheritInto_fills {above : Inheritance}
    (hcut : ∀ header ∈ above.headers, Origins.Cut header.lines) (i : Nat) :
    Fills (fun j => inheritInto above (ofSteps (locationSteps i j)))
      (fun j => locationSlots (ofSteps (locationSteps i j)))
      (fun j => ofSteps (locationSteps i j)) := by
  intro j location table hd
  refine ⟨(inheritInto_keepsOutside hcut i j location table hd).1, ?_⟩
  beta_reduce
  rcases inheritInto_cases above (ofSteps (locationSteps i j)) location table with
    ⟨hnone, hrun⟩ | ⟨fields, rfl, hne, hrun⟩
  · have hown : Tree.itemsOf (location.get? headersKey) = [] := by
      rcases hnone with hnone | hother
      · rw [← headersOf_map_value location (ofSteps (locationSteps i j)) table,
          (List.append_eq_nil_iff.mp hnone).2]
        rfl
      · exact itemsOf_get?_of_not_mapping hother headersKey
    rw [hrun]
    exact ⟨[], .refl table, (locationSlots_of_nil hown).symm, List.forall_mem_nil _⟩
  · -- the merged headers are recorded, and the new location has them as its own
    let s : Slot := ⟨child (ofSteps (locationSteps i j)) headersKey,
      (headersLine (ofSteps (locationSteps i j)) table).or above.line,
      above.headers ++ headersOf (.mapping fields) (ofSteps (locationSteps i j)) table⟩
    have hs : s.Cut := cut_append_headersOf hcut hd _ _
    have hown : Tree.itemsOf ((Tree.mapping (Ordered.insert headersKey
        (.sequence (s.headers.map (·.value))) fields)).get? headersKey)
          = s.headers.map (·.value) := by
      rw [Tree.get?, Ordered.get?_insert_self]
      rfl
    have hne' : s.headers.map (·.value) ≠ [] := fun h => hne (List.map_eq_nil_iff.mp h)
    rw [hrun]
    refine ⟨[s], rearranges_recordHeaders hs table, ?_, List.forall_mem_singleton.mpr ?_⟩
    · rw [locationSlots_of_ne_nil (hown.symm ▸ hne'), hown]
      rfl
    · exact below_child _ headersKey

theorem inheritInto_rotates {above : Inheritance} (habove : above.headers = []) (i : Nat) :
    Rotates (fun j => inheritInto above (ofSteps (locationSteps i j)))
      (fun j => locationSlots (ofSteps (locationSteps i j))) (fun _ => True) := by
  intro j location table before ss after _ h hkeys
  beta_reduce at hkeys ⊢
  have hvalues := headersOf_map_value location (ofSteps (locationSteps i j)) table
  by_cases hown : Tree.itemsOf (location.get? headersKey) = []
  · -- a location without headers has no slot, and nothing comes from above
    rw [locationSlots_of_nil hown] at hkeys
    obtain rfl : ss = [] := List.map_eq_nil_iff.mp hkeys
    have hmerged :
        above.headers ++ headersOf location (ofSteps (locationSteps i j)) table = [] := by
      rw [habove, List.nil_append, ← List.map_eq_nil_iff, hvalues, hown]
    rcases inheritInto_cases above (ofSteps (locationSteps i j)) location table with
      ⟨-, hrun⟩ | ⟨fields, rfl, hne, -⟩
    · rw [hrun]
      exact h.entries_of_nil
    · exact absurd hmerged hne
  · rw [locationSlots_of_ne_nil hown] at hkeys
    obtain ⟨s, rfl, hs⟩ := List.map_eq_singleton_iff.mp hkeys
    obtain ⟨hpath, hitems⟩ := Prod.mk.inj hs
    have hcut := h.cut s List.mem_cons_self
    have htable : table.entries = before ++ s.block ++ after := by
      rw [h.entries, blocks, List.flatMap_singleton]
    have hbefore := h.before s List.mem_cons_self
    have hafter := h.after s List.mem_cons_self
    have hread : headersOf location (ofSteps (locationSteps i j)) table = s.headers :=
      headersOf_of_block hcut htable hbefore hafter hpath.symm hitems.symm
    have hline : (headersLine (ofSteps (locationSteps i j)) table).or above.line = s.line := by
      -- the key has a line, so the one from above is not asked for
      rw [headersLine, ← hpath, lineOf_of_block hcut htable hbefore hafter]
      obtain ⟨n, hn⟩ := Option.isSome_iff_exists.mp (h.known s List.mem_cons_self)
      rw [hn, Option.some_or]
    rcases inheritInto_cases above (ofSteps (locationSteps i j)) location table with
      ⟨hnone | hother, -⟩ | ⟨fields, rfl, -, hrun⟩
    · rw [← hvalues, (List.append_eq_nil_iff.mp hnone).2] at hown
      exact absurd rfl hown
    · exact absurd (itemsOf_get?_of_not_mapping hother headersKey) hown
    · -- the block that has been read back is recorded again
      rw [hrun, hline, hread, habove, List.nil_append, ← hpath, entries_recordHeaders hcut,
        removeSubtree_of_block hcut htable hbefore hafter, blocks, List.flatMap_singleton]

/-! ## Servers -/

theorem below_locationSteps (i j : Nat) :
    Below (ofSteps (serverSteps i)) (ofSteps (locationSteps i j)) := by
  rw [locationSteps, ofSteps_append_index, locationsSteps, ofSteps_append_key]
  exact (below_child _ locationsKey).trans (below_item _ j)

theorem apart_locationSteps (i : Nat) {j j' : Nat} (hne : j ≠ j') :
    Apart (ofSteps (locationSteps i j)) (ofSteps (locationSteps i j')) := by
  rw [locationSteps, locationSteps, ofSteps_append_index, ofSteps_append_index]
  exact apart_item _ hne

theorem apart_serverSteps {i i' : Nat} (hne : i ≠ i') :
    Apart (ofSteps (serverSteps i)) (ofSteps (serverSteps i')) := by
  have hsteps : ∀ k, ofSteps (serverSteps k) = item (ofSteps [.key serversKey]) k :=
    fun k => ofSteps_append_index [.key serversKey] k
  rw [hsteps, hsteps]
  exact apart_item _ hne

theorem serverSlots_of_items {server : Tree} {locations : List Tree}
    (h : Tree.itemsOf (server.get? locationsKey) = locations) (i : Nat) :
    serverSlots i server
      = slotsFrom (fun j => locationSlots (ofSteps (locationSteps i j))) 0 locations := by
  rw [serverSlots, h]

/-- A server whose headers are taken out keeps its locations. -/
theorem get?_locations_erase (fields : List (String × Tree)) :
    Ordered.get? locationsKey (Ordered.erase headersKey fields)
      = Ordered.get? locationsKey fields :=
  Ordered.get?_erase_of_ne (by decide) fields

theorem inheritServer_fills {site : Inheritance}
    (hsite : ∀ header ∈ site.headers, Origins.Cut header.lines) :
    Fills (inheritServer site) serverSlots (fun i => ofSteps (serverSteps i)) := by
  intro i server table hd
  refine ⟨(inheritServer_keepsOutside hsite i server table hd).1, ?_⟩
  rcases inheritServer_cases site i server table with
    ⟨hother, hrun⟩ | ⟨fields, rfl, hnone, hrun⟩ | ⟨fields, locations, rfl, -, hrun⟩
  · rw [hrun, serverSlots_of_items (itemsOf_get?_of_not_mapping hother locationsKey)]
    exact ⟨[], .refl table, rfl, List.forall_mem_nil _⟩
  · have hitems : Tree.itemsOf ((Tree.mapping (Ordered.erase headersKey fields)).get? locationsKey)
        = [] := by
      rw [Tree.get?, get?_locations_erase, itemsOf_of_not_sequence hnone]
    rw [hrun, serverSlots_of_items hitems]
    exact ⟨[], .refl table, rfl, List.forall_mem_nil _⟩
  · have habove : ∀ header ∈ (serverAbove site i (.mapping fields) table).headers,
        Origins.Cut header.lines := cut_append_headersOf hsite hd _ _
    obtain ⟨-, ss, hss, hkeys, hbelow⟩ := walk_fills (inheritInto_fills habove i)
      (fun _ _ hne => apart_locationSteps i hne) 0 locations hd
    rw [hrun]
    refine ⟨ss, hss, ?_, fun s hs => ?_⟩
    · rw [hkeys]
      refine (serverSlots_of_items ?_ i).symm
      rw [Tree.get?, get?_locations_erase, Ordered.get?_insert_self]
      rfl
    · obtain ⟨k, -, hk⟩ := hbelow s hs
      exact (below_locationSteps i k).trans hk

theorem inheritServer_rotates {site : Inheritance} (hsite : site.headers = []) :
    Rotates (inheritServer site) serverSlots (fun server => server.get? headersKey = none) := by
  intro i server table before ss after hserver h hkeys
  rcases inheritServer_cases site i server table with
    ⟨hother, hrun⟩ | ⟨fields, rfl, hnone, hrun⟩ | ⟨fields, locations, rfl, hlocations, hrun⟩
  · rw [serverSlots_of_items (itemsOf_get?_of_not_mapping hother locationsKey)] at hkeys
    obtain rfl : ss = [] := List.map_eq_nil_iff.mp hkeys
    rw [hrun]
    exact h.entries_of_nil
  · have hitems : Tree.itemsOf ((Tree.mapping fields).get? locationsKey) = [] :=
      itemsOf_of_not_sequence hnone
    rw [serverSlots_of_items hitems] at hkeys
    obtain rfl : ss = [] := List.map_eq_nil_iff.mp hkeys
    rw [hrun]
    exact h.entries_of_nil
  · have habove : (serverAbove site i (.mapping fields) table).headers = [] := by
      rw [serverAbove, hsite, List.nil_append, headersOf, hserver]
      rfl
    have hitems : Tree.itemsOf ((Tree.mapping fields).get? locationsKey) = locations := by
      rw [Tree.get?, hlocations]
      rfl
    rw [serverSlots_of_items hitems] at hkeys
    rw [hrun]
    exact walk_rotates (inheritInto_rotates habove i) (fun _ _ => trivial) h hkeys

/-! ## Documents -/

section Site

variable {doc : Document}

theorem siteSlots_of_items {t : Tree} {servers : List Tree}
    (h : Tree.itemsOf (t.get? serversKey) = servers) :
    siteSlots t = slotsFrom serverSlots 0 servers := by
  rw [siteSlots, h]

/-- The servers after a pass that takes out the headers of the root. -/
theorem get?_servers_inherited (servers : Tree) (root : List (String × Tree)) :
    (Tree.mapping (Ordered.erase headersKey (Ordered.insert serversKey servers root))).get?
      serversKey = some servers := by
  rw [Tree.get?, Ordered.get?_erase_of_ne (by decide), Ordered.get?_insert_self]

/-- **The table after a first pass.** -/
theorem inheritHeaders_rearranges (hd : doc.origins.Distinct) :
    ∃ ss, Rearranges doc.origins doc.inheritHeaders.origins ss ∧
      ss.map Slot.key = siteSlots doc.inheritHeaders.tree := by
  rcases inheritHeaders_cases doc with
    ⟨hnone, hrun⟩ | ⟨root, servers, servers', table, -, -, hrun, hmoved⟩
  · have hitems : Tree.itemsOf (doc.tree.get? serversKey) = [] := by
      rw [hnone]
      rfl
    rw [hrun]
    exact ⟨[], .refl doc.origins, (siteSlots_of_items hitems).symm⟩
  · rw [hrun]
    rcases hmoved with ⟨hother, rfl, rfl⟩ | ⟨list, -, rfl, rfl⟩
    · have hitems : Tree.itemsOf ((Tree.mapping (Ordered.erase headersKey
          (Ordered.insert serversKey servers' root))).get? serversKey) = [] := by
        rw [get?_servers_inherited]
        exact itemsOf_of_not_sequence fun items h => hother items (Option.some.inj h)
      exact ⟨[], .refl doc.origins, (siteSlots_of_items hitems).symm⟩
    · have hsite : ∀ header ∈ doc.siteAbove.headers, Origins.Cut header.lines :=
        cut_append_headersOf (List.forall_mem_nil _) hd doc.tree KeyPath.root
      obtain ⟨-, ss, hss, hkeys, -⟩ := walk_fills (inheritServer_fills hsite)
        (fun _ _ hne => apart_serverSteps hne) 0 list hd
      refine ⟨ss, hss, ?_⟩
      rw [hkeys]
      refine (siteSlots_of_items ?_).symm
      rw [get?_servers_inherited]
      rfl

/-- **The table after a pass over a document without headers above its locations.** -/
theorem inheritHeaders_rotates (hroot : doc.tree.get? headersKey = none)
    (hservers : ∀ server ∈ Tree.itemsOf (doc.tree.get? serversKey),
      server.get? headersKey = none)
    {before : List (String × Nat)} {ss : List Slot} (h : Holds doc.origins before ss [])
    (hkeys : ss.map Slot.key = siteSlots doc.tree) :
    doc.inheritHeaders.origins = doc.origins := by
  rcases inheritHeaders_cases doc with
    ⟨-, hrun⟩ | ⟨root, servers, servers', table, htree, hget, hrun, hmoved⟩
  · rw [hrun]
  · rw [hrun]
    rcases hmoved with ⟨-, -, rfl⟩ | ⟨list, rfl, -, rfl⟩
    · rfl
    · have hitems : Tree.itemsOf (doc.tree.get? serversKey) = list := by
        rw [htree, Tree.get?, hget]
        rfl
      have hsite : doc.siteAbove.headers = [] := by
        rw [siteAbove, headersOf, hroot]
        rfl
      rw [hitems] at hservers
      rw [siteSlots_of_items hitems] at hkeys
      have hturned := walk_rotates (inheritServer_rotates hsite) hservers h hkeys
      rw [List.append_nil] at hturned
      -- once every block has been moved behind the others, the table is as it was
      have hsame : (walk (inheritServer doc.siteAbove) 0 list doc.origins).2.entries
          = doc.origins.entries := by
        rw [hturned, h.entries, List.append_nil]
      exact congrArg Origins.mk hsame

end Site

end SiteConf.Document
