import SiteConf.Proofs.TreeHeight
import SiteConf.Tree.Json
import SiteConf.Writer.Walk

set_option autoImplicit false

/-! # Recursions over trees need little stack

A recursion over trees comes to the result of a node from the results of its parts. With a stack
for a given number of calls, one inside the other, it returns exactly on the trees that are no
higher than that (`runWithin_eq`). Copying a tree, collecting the names of its fields, writing it
as JSON and walking it are such recursions, and the trees of documents are low: so none of them
can exhaust the stack, whatever the text is (`nesting_bounded`). -/

namespace SiteConf.Tree

/-! ## Recursions and their stacks -/

/-- What a recursion does at a node: it is given the parts of the node and their results. -/
structure Recursion (α : Type) where
  scalar : Scalar → α
  sequence : List (Tree × α) → α
  mapping : List (String × Tree × α) → α

namespace Recursion

variable {α : Type} {r : Recursion α} {f : Tree → α}

/-- The function is the one that the recursion computes. -/
structure Computes (r : Recursion α) (f : Tree → α) : Prop where
  scalar : ∀ v, f (.scalar v) = r.scalar v
  sequence : ∀ items, f (.sequence items) = r.sequence (items.map fun t => (t, f t))
  mapping : ∀ fields, f (.mapping fields) = r.mapping (fields.map fun e => (e.1, e.2, f e.2))

/-- The recursion on a stack for `room` calls, one inside the other. There is no result when it
overflows. -/
def runWithin (r : Recursion α) : (room : Nat) → Tree → Option α
  | 0, _ => none
  | _ + 1, .scalar v => some (r.scalar v)
  | room + 1, .sequence items =>
      (items.mapM fun t => (r.runWithin room t).map fun a => (t, a)).map r.sequence
  | room + 1, .mapping fields =>
      (fields.mapM fun e => (r.runWithin room e.2).map fun a => (e.1, e.2, a)).map r.mapping

/-- Parts have a result together when each of them has one. -/
theorem mapM_of_bounded {β γ : Type} {g : β → Option γ} {value : β → γ} {low : β → Prop}
    [DecidablePred low] (h : ∀ b, g b = if low b then some (value b) else none) (bs : List β) :
    bs.mapM g = if ∀ b ∈ bs, low b then some (bs.map value) else none := by
  induction bs with
  | nil => simp
  | cons b bs ih =>
      rw [List.mapM_cons, h, ih]
      by_cases hb : low b
      · by_cases hbs : ∀ b ∈ bs, low b
        · rw [if_pos hb, if_pos hbs, if_pos (List.forall_mem_cons.mpr ⟨hb, hbs⟩)]
          rfl
        · rw [if_pos hb, if_neg hbs, if_neg fun hall => hbs (List.forall_mem_cons.mp hall).2]
          rfl
      · rw [if_neg hb, if_neg fun hall => hb (List.forall_mem_cons.mp hall).1]
        rfl

/-- **A recursion needs a stack as large as the tree is high.** -/
theorem runWithin_eq (h : r.Computes f) (room : Nat) (t : Tree) :
    r.runWithin room t = if t.height ≤ room then some (f t) else none := by
  induction room generalizing t with
  | zero =>
      have hpos := t.height_pos
      rw [runWithin, if_neg (by omega)]
  | succ room ih =>
      cases t with
      | scalar v => rw [runWithin, height, if_pos (by omega), h.scalar]
      | sequence items =>
          have hpart : ∀ t, ((r.runWithin room t).map fun a => (t, a))
              = if t.height ≤ room then some (t, f t) else none := by
            intro t
            rw [ih]
            split <;> rfl
          simp only [runWithin, mapM_of_bounded hpart, height_sequence_le_iff, h.sequence]
          split <;> rfl
      | mapping fields =>
          have hpart : ∀ e : String × Tree, ((r.runWithin room e.2).map fun a => (e.1, e.2, a))
              = if e.2.height ≤ room then some (e.1, e.2, f e.2) else none := by
            intro e
            rw [ih]
            split <;> rfl
          simp only [runWithin, mapM_of_bounded hpart, height_mapping_le_iff, h.mapping]
          split <;> rfl

/-! ## Copying, naming and writing -/

/-- Builds the tree anew. -/
def copying : Recursion Tree where
  scalar := .scalar
  sequence parts := .sequence (parts.map fun p => p.2)
  mapping parts := .mapping (parts.map fun p => (p.1, p.2.2))

theorem computes_copying : copying.Computes id where
  scalar _ := rfl
  sequence items := by
    simp only [copying, List.map_map]
    exact congrArg Tree.sequence (List.map_id items).symm
  mapping fields := by
    simp only [copying, List.map_map]
    exact congrArg Tree.mapping (List.map_id fields).symm

def naming : Recursion (List String) where
  scalar _ := []
  sequence parts := parts.flatMap fun p => p.2
  mapping parts := parts.flatMap fun p => p.1 :: p.2.2

theorem computes_naming : naming.Computes fieldNames where
  scalar _ := by rw [fieldNames]; rfl
  sequence items := by
    rw [fieldNames]
    simp only [naming, List.flatMap_map]
    induction items with
    | nil => rfl
    | cons t ts ih => rw [fieldNamesOfItems, List.flatMap_cons, ih]
  mapping fields := by
    rw [fieldNames]
    simp only [naming, List.flatMap_map]
    induction fields with
    | nil => rfl
    | cons e fields ih => rw [fieldNamesOfFields, List.flatMap_cons, ih]

/-- Writes the tree as JSON. -/
def writing : Recursion String where
  scalar := jsonScalar
  sequence parts := "[" ++ String.intercalate "," (parts.map fun p => p.2) ++ "]"
  mapping parts :=
    "\x7b" ++ String.intercalate "," (parts.map fun p => jsonString p.1 ++ ":" ++ p.2.2) ++ "\x7d"

theorem toJsonItems_eq_map (items : List Tree) : toJsonItems items = items.map toJson := by
  induction items with
  | nil => rfl
  | cons t ts ih => rw [toJsonItems, ih, List.map_cons]

theorem toJsonFields_eq_map (fields : List (String × Tree)) :
    toJsonFields fields = fields.map fun e => jsonString e.1 ++ ":" ++ e.2.toJson := by
  induction fields with
  | nil => rfl
  | cons e fields ih => rw [toJsonFields, ih, List.map_cons]

theorem computes_writing : writing.Computes toJson where
  scalar v := by rw [toJson]; rfl
  sequence items := by
    rw [toJson, toJsonItems_eq_map]
    simp only [writing, List.map_map]
    rfl
  mapping fields := by
    rw [toJson, toJsonFields_eq_map]
    simp only [writing, List.map_map]
    rfl

end Recursion

end SiteConf.Tree

/-! ## Walking -/

namespace SiteConf.Writer

variable {σ : Type}

/-- The two things that a walk does with a node: it goes through the node, or it visits the node as
the field with a name. -/
@[ext]
structure Walks (σ : Type) where
  through : (level : Nat) → (path : String) → Step σ Error Unit
  field : (level : Nat) → (path key : String) → Step σ Error Unit

def walksOf (w : Walker σ) (t : Tree) : Walks σ where
  through level path := walkTree w level path t
  field level path key := visitField w level path key t

/-- Goes through the parts of a sequence from `index` on. -/
def throughParts (level : Nat) (path : String) : (index : Nat) → List (Tree × Walks σ) →
    Step σ Error Unit
  | _, [] => pure ()
  | index, p :: ps => do
      p.2.through level (KeyPath.item path index)
      throughParts level path (index + 1) ps

def visitParts (level : Nat) (path : String) : List (String × Tree × Walks σ) → Step σ Error Unit
  | [] => pure ()
  | p :: ps => do
      p.2.2.field level (KeyPath.child path p.1) p.1
      visitParts level path ps

/-- Visits the parts of a sequence, from `index` on, whose items have writers. -/
def dispatchParts (w : Walker σ) (openItem : OpenHook σ) (closeItem : Option (CloseHook σ))
    (level : Nat) (path key : String) : (index : Nat) → List (Tree × Walks σ) → Step σ Error Unit
  | _, [] => pure ()
  | index, p :: ps => do
      let here := KeyPath.item path index
      aroundItem openItem closeItem ⟨key, p.1, here, level, w.origins.lineOf here⟩
        (p.2.through (level + 1) here)
      dispatchParts w openItem closeItem level path key (index + 1) ps

def walking (w : Walker σ) : Tree.Recursion (Walks σ) where
  scalar v :=
    { through := fun _ _ => pure ()
      field := fun level path key =>
        around w ⟨key, .scalar v, path, level, w.origins.lineOf path⟩ fun _ _ => pure () }
  sequence parts :=
    { through := fun level path => throughParts level path 0 parts
      field := fun level path key =>
        around w ⟨key, .sequence (parts.map fun p => p.1), path, level, w.origins.lineOf path⟩
          fun writers inner =>
            (writers.bind FieldWriters.openItem).elim (throughParts inner path 0 parts)
              fun openItem => dispatchParts w openItem (writers.bind FieldWriters.closeItem) inner
                path key 0 parts }
  mapping parts :=
    { through := fun level path => visitParts level path parts
      field := fun level path key =>
        around w ⟨key, .mapping (parts.map fun p => (p.1, p.2.1)), path, level,
          w.origins.lineOf path⟩ fun _ inner => visitParts inner path parts }

section Parts

variable (w : Walker σ) (level : Nat) (path : String)

theorem walkItems_eq_throughParts (index : Nat) (items : List Tree) :
    walkItems w level path index items
      = throughParts level path index (items.map fun t => (t, walksOf w t)) := by
  induction items generalizing index with
  | nil => rw [walkItems]; rfl
  | cons t ts ih => rw [walkItems, ih]; rfl

theorem walkFields_eq_visitParts (fields : List (String × Tree)) :
    walkFields w level path fields
      = visitParts level path (fields.map fun e => (e.1, e.2, walksOf w e.2)) := by
  induction fields with
  | nil => rw [walkFields]; rfl
  | cons e fields ih => rw [walkFields, ih]; rfl

theorem visitItems_eq_dispatchParts (openItem : OpenHook σ) (closeItem : Option (CloseHook σ))
    (key : String) (index : Nat) (items : List Tree) :
    visitItems w openItem closeItem level path key index items
      = dispatchParts w openItem closeItem level path key index
          (items.map fun t => (t, walksOf w t)) := by
  induction items generalizing index with
  | nil => rw [visitItems]; rfl
  | cons t ts ih => rw [visitItems, ih]; rfl

end Parts

theorem computes_walking (w : Walker σ) : (walking w).Computes (walksOf w) where
  scalar v := by
    refine Walks.ext ?_ ?_
    · funext level path
      show walkTree w level path (.scalar v) = _
      rw [walkTree]
      rfl
    · funext level path key
      show visitField w level path key (.scalar v) = _
      rw [visitField]
      rfl
  sequence items := by
    have hitems : (items.map fun t => (t, walksOf w t)).map (fun p => p.1) = items := by
      rw [List.map_map]
      exact List.map_id items
    refine Walks.ext ?_ ?_
    · funext level path
      show walkTree w level path (.sequence items) = _
      rw [walkTree, walkItems_eq_throughParts]
      rfl
    · funext level path key
      show visitField w level path key (.sequence items) = _
      simp only [visitField, walking, hitems]
      congr 1
      funext writers inner
      cases writers.bind FieldWriters.openItem with
      | none => exact walkItems_eq_throughParts w inner path 0 items
      | some openItem => exact visitItems_eq_dispatchParts w inner path openItem _ key 0 items
  mapping fields := by
    have hfields : (fields.map fun e => (e.1, e.2, walksOf w e.2)).map (fun p => (p.1, p.2.1))
        = fields := by
      rw [List.map_map]
      exact List.map_id fields
    refine Walks.ext ?_ ?_
    · funext level path
      show walkTree w level path (.mapping fields) = _
      rw [walkTree, walkFields_eq_visitParts]
      rfl
    · funext level path key
      show visitField w level path key (.mapping fields) = _
      simp only [visitField, walking, hfields, walkFields_eq_visitParts]

end SiteConf.Writer

namespace SiteConf.Document

open Tree.Recursion

/-- **Nesting is bounded.** The tree of a text that is read is at most 128 nodes high, and at most
four nodes are added when it is settled: the headers of the root sink by four, the locations of the
root and the headers of the servers by two. So every recursion over the tree gets by with a stack
for that many calls, and copying, naming, writing and walking are recursions. -/
theorem nesting_bounded {text : String} {doc : Document} (h : (parse text).result = .ok doc) :
    doc.tree.height ≤ 128 ∧ doc.settle.tree.height ≤ 132 ∧
    (∀ n, doc.tree.height ≤ n + 6 →
      (∀ u ∈ Tree.itemsOf (doc.tree.get? headersKey), u.height ≤ n) →
      (∀ u ∈ Tree.itemsOf (doc.tree.get? locationsKey), u.height ≤ n + 2) →
      (∀ s ∈ Tree.itemsOf (doc.tree.get? serversKey),
        ∀ u ∈ Tree.itemsOf (s.get? headersKey), u.height ≤ n) →
      doc.settle.tree.height ≤ n + 6) ∧
    (∀ (α : Type) (r : Tree.Recursion α) (f : Tree → α), r.Computes f →
      r.runWithin 128 doc.tree = some (f doc.tree) ∧
      r.runWithin 132 doc.settle.tree = some (f doc.settle.tree)) ∧
    copying.Computes id ∧ naming.Computes Tree.fieldNames ∧ writing.Computes Tree.toJson ∧
    ∀ (σ : Type) (w : Writer.Walker σ), (Writer.walking w).Computes (Writer.walksOf w) := by
  have hparsed : doc.tree.height ≤ 128 := height_le_of_parse h
  have hsettled : doc.settle.tree.height ≤ 132 := by
    have hle := height_settledTree doc.tree
    rw [tree_settle]
    omega
  refine ⟨hparsed, hsettled, ?_, fun α r f hr => ⟨?_, ?_⟩, computes_copying, computes_naming,
    computes_writing, fun σ w => Writer.computes_walking w⟩
  · intro n hheight hheaders hlocations hserver
    rw [tree_settle]
    exact height_settledTree_le hheight hheaders hlocations hserver
  · rw [runWithin_eq hr, if_pos hparsed]
  · rw [runWithin_eq hr, if_pos hsettled]

/-- A site with a header of the root that is a list in a list. -/
def sinkingSite : Document :=
  ⟨.mapping [("servers", .sequence [.mapping [("locations", .sequence [.mapping []])]]),
      ("headers", .sequence [.sequence [.sequence [.scalar (.int 1)]]])],
    ⟨[("", 1), (".servers", 1), (".servers.0", 1), (".servers.0.locations", 1),
      (".servers.0.locations.0", 1), (".headers", 1), (".headers.0", 1), (".headers.0.0", 1),
      (".headers.0.0.0", 1)]⟩⟩

/-- The header sinks by four nodes, as far as anything can. -/
theorem nesting_bounded_sinkingSite :
    (parse "\x7bservers: [\x7blocations: [\x7b\x7d]\x7d], headers: [[[1]]]\x7d").result
      = .ok sinkingSite ∧
    sinkingSite.tree.height = 5 ∧ sinkingSite.settle.tree.height = 9 ∧
    writing.runWithin 132 sinkingSite.settle.tree = some sinkingSite.settle.tree.toJson := by
  have hdoc : (parse "\x7bservers: [\x7blocations: [\x7b\x7d]\x7d], headers: [[[1]]]\x7d").result
      = .ok sinkingSite :=
    result_parse_eq_ok_iff.mpr
      ⟨[⟨.lbrace, 1⟩, ⟨.ident "servers", 1⟩, ⟨.colon, 1⟩, ⟨.lbracket, 1⟩, ⟨.lbrace, 1⟩,
          ⟨.ident "locations", 1⟩, ⟨.colon, 1⟩, ⟨.lbracket, 1⟩, ⟨.lbrace, 1⟩, ⟨.rbrace, 1⟩,
          ⟨.rbracket, 1⟩, ⟨.rbrace, 1⟩, ⟨.rbracket, 1⟩, ⟨.comma, 1⟩, ⟨.ident "headers", 1⟩,
          ⟨.colon, 1⟩, ⟨.lbracket, 1⟩, ⟨.lbracket, 1⟩, ⟨.lbracket, 1⟩, ⟨.int 1, 1⟩,
          ⟨.rbracket, 1⟩, ⟨.rbracket, 1⟩, ⟨.rbracket, 1⟩, ⟨.rbrace, 1⟩, ⟨.eof, 1⟩],
        .mapping 1 [(⟨"servers", 1⟩, .sequence 1 [.mapping 1 [(⟨"locations", 1⟩,
            .sequence 1 [.mapping 1 []])]]),
          (⟨"headers", 1⟩, .sequence 1 [.sequence 1 [.sequence 1 [.constant 1 (.int 1)]]])],
        by decide +kernel, by cbv, by cbv⟩
  obtain ⟨-, -, -, hrecursion, -⟩ := nesting_bounded hdoc
  exact ⟨hdoc, by decide, by decide +kernel, (hrecursion _ _ _ computes_writing).2⟩

end SiteConf.Document
