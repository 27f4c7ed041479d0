import SiteConf.Proofs.Addresses
import SiteConf.Proofs.JsonTokens

set_option autoImplicit false

/-! # The round trip through JSON

Parsing the JSON text of a tree gives the tree back. Its tokens (`tokenize_toJson`) are derived by
the grammar, and the derivation denotes the literal of the tree (`exists_derivation`): the tree
itself, where a negative integer is the negation of a constant. That literal is well scoped, for it
has no references, and a tree that mirrors it is the tree (`eq_of_mirrors`). -/

namespace SiteConf.Tree

open KeyPath Literal

/-! ## The literal of a tree -/

/-- How deep the JSON text of a scalar nests: a negative integer is the negation of an integer. -/
def scalarDepth : Scalar → Nat
  | .int n => if n < 0 then 2 else 1
  | _ => 1

mutual

/-- How deep the JSON text of a tree nests. -/
def depth : Tree → Nat
  | scalar v => scalarDepth v
  | sequence items => 1 + depthOfItems items
  | mapping fields => 1 + depthOfFields fields

def depthOfItems : List Tree → Nat
  | [] => 0
  | t :: ts => max t.depth (depthOfItems ts)

def depthOfFields : List (String × Tree) → Nat
  | [] => 0
  | (_, t) :: rest => max t.depth (depthOfFields rest)

end

/-- What the JSON text of a scalar is read as. -/
def scalarLiteral : Scalar → Literal
  | .int (.negSucc n) => .negate 1 (.constant 1 (.int (n + 1 : Nat)))
  | v => .constant 1 v

mutual

/-- What the JSON text of a tree is read as. -/
def literal : Tree → Literal
  | scalar v => scalarLiteral v
  | sequence items => .sequence 1 (itemLiterals items)
  | mapping fields => .mapping 1 (fieldLiterals fields)

def itemLiterals : List Tree → List Literal
  | [] => []
  | t :: ts => t.literal :: itemLiterals ts

def fieldLiterals : List (String × Tree) → List (Key × Literal)
  | [] => []
  | (k, t) :: rest => (⟨k, 1⟩, t.literal) :: fieldLiterals rest

end

/-! ## Its derivation -/

theorem exists_scalarDerivation (v : Scalar) : ∃ d : Derivation,
    d.tokens = scalarTokens v ∧ d.literal = scalarLiteral v ∧ d.depth = scalarDepth v := by
  cases v with
  | str s => exact ⟨.constant 1 (.str s), rfl, rfl, rfl⟩
  | bool b => exact ⟨.constant 1 (.bool b), rfl, rfl, rfl⟩
  | int n =>
      cases n with
      | ofNat n => exact ⟨.constant 1 (.int n), rfl, rfl, rfl⟩
      | negSucc n =>
          refine ⟨.negation 1 (.constant 1 (.int (n + 1 : Nat))), rfl, rfl, ?_⟩
          rw [scalarDepth, if_pos (Int.negSucc_lt_zero n)]
          rfl

def keyToken (k : String) (h : isKey k = true) : KeyToken :=
  ⟨⟨.str k, 1⟩, k, .inr rfl, h⟩

theorem isKey_of_ne {k : String} (hne : k ≠ "") (hdotless : Dotless k) : isKey k = true := by
  rw [isKey, Bool.and_eq_true]
  constructor
  · simpa using hne
  · simpa [Dotless] using hdotless

mutual

/-- **The tokens of a tree are derived**, and the derivation denotes the literal of the tree. -/
theorem exists_derivation : ∀ t : Tree, Everywhere Portable t → ∃ d : Derivation,
    d.tokens = t.jsonTokens ∧ d.literal = t.literal ∧ d.depth = t.depth
  | scalar v, _ => by
      rw [jsonTokens, literal, depth]
      exact exists_scalarDerivation v
  | sequence [], _ => ⟨.sequence 1 .empty 1, rfl, rfl, rfl⟩
  | sequence (t :: ts), h => by
      -- the first item has no comma before it, so it is no part of the further items
      obtain ⟨-, hitems⟩ := (everywhere_sequence _).mp h
      obtain ⟨ht, hts⟩ := List.forall_mem_cons.mp hitems
      obtain ⟨d, hd, hdl, hdd⟩ := exists_derivation t ht
      obtain ⟨m, hm, hml, hmd⟩ := exists_moreItems ts hts
      refine ⟨.sequence 1 (.items d m) 1, ?_, ?_, ?_⟩
      · rw [Derivation.tokens, SequenceBody.tokens, hd, hm, jsonTokens, itemTokens, List.tail_cons]
      · rw [Derivation.literal, SequenceBody.itemList, hdl, hml, literal, itemLiterals]
      · rw [Derivation.depth, SequenceBody.depth, hdd, hmd, depth, depthOfItems]
  | mapping [], _ => ⟨.mapping 1 .empty 1, rfl, rfl, rfl⟩
  | mapping ((k, t) :: rest), h => by
      obtain ⟨⟨-, hkeys⟩, hfields⟩ := (everywhere_mapping _).mp h
      obtain ⟨ht, hrest⟩ := List.forall_mem_cons.mp hfields
      have hproper : ∀ name ∈ Ordered.keys ((k, t) :: rest), isKey name = true :=
        fun name hname => isKey_of_ne (hkeys name hname).1 (hkeys name hname).2.1
      obtain ⟨hk, hmore⟩ := List.forall_mem_cons.mp hproper
      obtain ⟨d, hd, hdl, hdd⟩ := exists_derivation t ht
      obtain ⟨m, hm, hml, hmd⟩ := exists_moreEntries rest hmore hrest
      refine ⟨.mapping 1 (.entries (keyToken k hk) 1 d m) 1, ?_, ?_, ?_⟩
      · rw [Derivation.tokens, MappingBody.tokens, hd, hm, jsonTokens, fieldTokens, List.tail_cons]
        rfl
      · rw [Derivation.literal, MappingBody.entryList, hdl, hml, literal, fieldLiterals]
        rfl
      · rw [Derivation.depth, MappingBody.depth, hdd, hmd, depth, depthOfFields]

theorem exists_moreItems : ∀ ts : List Tree, (∀ t ∈ ts, Everywhere Portable t) →
    ∃ m : MoreItems, m.tokens = itemTokens ts ∧ m.itemList = itemLiterals ts ∧
      m.depth = depthOfItems ts
  | [], _ => ⟨.stop, rfl, rfl, rfl⟩
  | t :: ts, h => by
      obtain ⟨ht, hts⟩ := List.forall_mem_cons.mp h
      obtain ⟨d, hd, hdl, hdd⟩ := exists_derivation t ht
      obtain ⟨m, hm, hml, hmd⟩ := exists_moreItems ts hts
      refine ⟨.item 1 d m, ?_, ?_, ?_⟩
      · rw [MoreItems.tokens, hd, hm, itemTokens]
      · rw [MoreItems.itemList, hdl, hml, itemLiterals]
      · rw [MoreItems.depth, hdd, hmd, depthOfItems]

theorem exists_moreEntries : ∀ fields : List (String × Tree),
    (∀ k ∈ Ordered.keys fields, isKey k = true) → (∀ e ∈ fields, Everywhere Portable e.2) →
    ∃ m : MoreEntries, m.tokens = fieldTokens fields ∧ m.entryList = fieldLiterals fields ∧
      m.depth = depthOfFields fields
  | [], _, _ => ⟨.stop, rfl, rfl, rfl⟩
  | (k, t) :: rest, hkeys, h => by
      obtain ⟨hk, hmore⟩ := List.forall_mem_cons.mp hkeys
      obtain ⟨ht, hrest⟩ := List.forall_mem_cons.mp h
      obtain ⟨d, hd, hdl, hdd⟩ := exists_derivation t ht
      obtain ⟨m, hm, hml, hmd⟩ := exists_moreEntries rest hmore hrest
      refine ⟨.entry 1 (keyToken k hk) 1 d m, ?_, ?_, ?_⟩
      · rw [MoreEntries.tokens, hd, hm, fieldTokens]
        rfl
      · rw [MoreEntries.entryList, hdl, hml, fieldLiterals]
        rfl
      · rw [MoreEntries.depth, hdd, hmd, depthOfFields]

end

/-! ## Its meaning -/

/-- A scalar is read as a constant or as the negation of a natural number. -/
theorem scalarLiteral_cases (v : Scalar) :
    scalarLiteral v = .constant 1 v ∨
      ∃ n : Nat, v = .int (-(n : Int)) ∧ scalarLiteral v = .negate 1 (.constant 1 (.int n)) := by
  cases v with
  | str s => exact .inl rfl
  | bool b => exact .inl rfl
  | int n =>
      cases n with
      | ofNat n => exact .inl rfl
      | negSucc n => exact .inr ⟨n + 1, rfl, rfl⟩

theorem map_name_fieldLiterals (fields : List (String × Tree)) :
    ((fieldLiterals fields).map fun e => e.1.name) = Ordered.keys fields := by
  induction fields with
  | nil => rfl
  | cons e fields ih =>
      rw [fieldLiterals, List.map_cons, ih]
      rfl

mutual

theorem admissible_literal : ∀ t : Tree, Everywhere Portable t →
    Literal.Everywhere Admissible t.literal
  | scalar v, _ => by
      rw [literal]
      rcases scalarLiteral_cases v with hv | ⟨n, -, hv⟩
      · rw [hv]
        trivial
      · rw [hv]
        refine ⟨⟨1, n, rfl, ?_⟩, trivial⟩
        rw [Number.minInt]
        omega
  | sequence items, h => by
      rw [literal, Literal.Everywhere]
      exact ⟨trivial, admissible_itemLiterals items ((everywhere_sequence items).mp h).2⟩
  | mapping fields, h => by
      obtain ⟨⟨hnodup, -⟩, hfields⟩ := (everywhere_mapping fields).mp h
      rw [literal, Literal.Everywhere]
      refine ⟨?_, admissible_fieldLiterals fields hfields⟩
      rw [Admissible, map_name_fieldLiterals]
      exact hnodup

theorem admissible_itemLiterals : ∀ ts : List Tree, (∀ t ∈ ts, Everywhere Portable t) →
    EverywhereInItems Admissible (itemLiterals ts)
  | [], _ => trivial
  | t :: ts, h => by
      obtain ⟨ht, hts⟩ := List.forall_mem_cons.mp h
      exact ⟨admissible_literal t ht, admissible_itemLiterals ts hts⟩

theorem admissible_fieldLiterals : ∀ fields : List (String × Tree),
    (∀ e ∈ fields, Everywhere Portable e.2) →
    EverywhereInEntries Admissible (fieldLiterals fields)
  | [], _ => trivial
  | (k, t) :: rest, h => by
      obtain ⟨ht, hrest⟩ := List.forall_mem_cons.mp h
      exact ⟨admissible_literal t ht, admissible_fieldLiterals rest hrest⟩

end

def IsReference (l : Literal) : Prop :=
  ∃ line segments, l = .reference line segments

theorem not_isReference_scalarLiteral (v : Scalar) : ¬ IsReference (scalarLiteral v) := by
  rintro ⟨line, segments, h⟩
  rcases scalarLiteral_cases v with hv | ⟨n, -, hv⟩
  · rw [hv] at h
    cases h
  · rw [hv] at h
    cases h

theorem isScalar_scalarLiteral (v : Scalar) : (scalarLiteral v).isScalar = true := by
  rcases scalarLiteral_cases v with hv | ⟨n, -, hv⟩
  · rw [hv]
    rfl
  · rw [hv]
    rfl

mutual

/-- JSON has no references. -/
theorem not_isReference_of_mem_outline : ∀ (t : Tree) (steps : List Step) (line : Nat)
    (first : LineRef), ∀ n ∈ outline steps line first t.literal, ¬ IsReference n.literal
  | scalar v, steps, line, first => by
      rw [literal, outline_of_isScalar (isScalar_scalarLiteral v), List.forall_mem_singleton]
      exact not_isReference_scalarLiteral v
  | sequence items, steps, line, first => by
      rw [literal, outline, List.forall_mem_cons]
      exact ⟨nofun, not_isReference_of_mem_outlineItems items steps 0⟩
  | mapping fields, steps, line, first => by
      rw [literal, outline, List.forall_mem_cons]
      exact ⟨nofun, not_isReference_of_mem_outlineEntries fields steps []⟩

theorem not_isReference_of_mem_outlineItems : ∀ (ts : List Tree) (steps : List Step)
    (index : Nat), ∀ n ∈ outlineItems steps index (itemLiterals ts), ¬ IsReference n.literal
  | [], steps, index => by
      rw [itemLiterals, outlineItems]
      exact List.forall_mem_nil _
  | t :: ts, steps, index => by
      rw [itemLiterals, outlineItems, List.forall_mem_append]
      exact ⟨not_isReference_of_mem_outline t _ _ _, not_isReference_of_mem_outlineItems ts steps _⟩

theorem not_isReference_of_mem_outlineEntries : ∀ (fields : List (String × Tree))
    (steps : List Step) (seen : List Key),
    ∀ n ∈ outlineEntries steps seen (fieldLiterals fields), ¬ IsReference n.literal
  | [], steps, seen => by
      rw [fieldLiterals, outlineEntries]
      exact List.forall_mem_nil _
  | (k, t) :: rest, steps, seen => by
      rw [fieldLiterals, outlineEntries, List.forall_mem_append]
      exact ⟨not_isReference_of_mem_outline t _ _ _,
        not_isReference_of_mem_outlineEntries rest steps _⟩

end

theorem wellScoped_literal {t : Tree} (h : Everywhere Portable t) : WellScoped t.literal where
  admissible := admissible_literal t h
  inScope := by
    intro before n after line segments hnodes hn
    have hmem : n ∈ t.literal.nodes := by
      rw [hnodes]
      simp
    exact absurd ⟨line, segments, hn⟩ (not_isReference_of_mem_outline t _ _ _ n hmem)

section Mirrors

variable {s : Scope}

theorem eq_of_denotes {value : String → Scalar → Prop} {v w : Scalar}
    (h : Denotes value (scalarLiteral v) w) : w = v := by
  rcases scalarLiteral_cases v with hv | ⟨n, rfl, hv⟩
  · rw [hv] at h
    cases h
    rfl
  · -- the negation of what the operand is read as
    rw [hv] at h
    cases h with
    | negate hn =>
        cases hn
        rfl

mutual

/-- **A tree that mirrors the literal of a tree is that tree.** -/
theorem eq_of_mirrors : ∀ (t : Tree) {steps : List Step} {u : Tree},
    Mirrors (Known s) steps t.literal u → u = t
  | scalar v, steps, u, h => by
      rw [literal] at h
      obtain ⟨w, rfl, -, hw⟩ := h.exists_scalar (isScalar_scalarLiteral v)
      rw [eq_of_denotes hw]
  | sequence items, steps, u, h => by
      rw [literal] at h
      cases h with
      | sequence h => rw [eq_of_mirrorsItems items h]
      | scalar hl _ => cases hl
  | mapping fields, steps, u, h => by
      rw [literal] at h
      cases h with
      | mapping h => rw [eq_of_mirrorsEntries fields h]
      | scalar hl _ => cases hl

theorem eq_of_mirrorsItems : ∀ (ts : List Tree) {steps : List Step} {index : Nat}
    {us : List Tree}, MirrorsItems (Known s) steps index (itemLiterals ts) us → us = ts
  | [], steps, index, us, h => by
      rw [itemLiterals] at h
      cases h
      rfl
  | t :: ts, steps, index, us, h => by
      rw [itemLiterals] at h
      cases h with
      | cons hv hrest => rw [eq_of_mirrors t hv, eq_of_mirrorsItems ts hrest]

theorem eq_of_mirrorsEntries : ∀ (fields : List (String × Tree)) {steps : List Step}
    {us : List (String × Tree)},
    MirrorsEntries (Known s) steps (fieldLiterals fields) us → us = fields
  | [], steps, us, h => by
      rw [fieldLiterals] at h
      cases h
      rfl
  | (k, t) :: rest, steps, us, h => by
      rw [fieldLiterals] at h
      cases h with
      | cons hv hrest => rw [eq_of_mirrors t hv, eq_of_mirrorsEntries rest hrest]

end

end Mirrors

/-- **The round trip.** A tree of portable nodes that nests no deeper than the parser allows is
what its JSON text is parsed as. -/
theorem parse_toJson {t : Tree} (h : Everywhere Portable t) (hdepth : t.depth ≤ 128) :
    ∃ doc, (Document.parse t.toJson).result = .ok doc ∧ doc.tree = t := by
  obtain ⟨d, htokens, hliteral, hd⟩ := exists_derivation t h
  have hscan := Token.tokenize_toJson h
  have hparse : ofTokens maxDepth (t.jsonTokens ++ [⟨.eof, 1⟩]) = .ok t.literal := by
    rw [← htokens, ← hliteral]
    exact d.ofTokens_run rfl (hd.trans_le hdepth)
  -- the literal is well scoped, so the resolver finds no offence in it
  obtain ⟨-, -, -, -, -, hlex⟩ := exists_lexical_derivation hscan hparse
  have hnone := (firstOffence_nodes_eq_none_iff t.literal).mpr (wellScoped_literal h)
  rcases resolve_cases hlex with ⟨doc, s, hdoc, -, -, -, hmirrors⟩ | ⟨e, -, he⟩
  · refine ⟨doc, ?_, eq_of_mirrors t hmirrors⟩
    exact Document.result_parse_eq_ok_iff.mpr ⟨_, _, hscan, hparse, hdoc⟩
  · rw [hnone] at he
    cases he

/-- A tree with a quote in a key, controls in a text and the smallest integer that is portable. -/
def quotedTree : Tree :=
  .mapping [("say \"hi\"", .sequence [.scalar (.str "a\\b\n\tc"), .scalar (.bool false)]),
    ("n", .scalar (.int (-9223372036854775807))), ("empty", .mapping [])]

/-- The tree is portable, and its text, which is all on one line, is parsed as it. -/
theorem parse_toJson_quotedTree :
    (Everywhere Portable quotedTree ∧ quotedTree.depth = 3) ∧
      quotedTree.toJson = "\x7b\"say \\\"hi\\\"\":[\"a\\\\b\\n\\tc\",false]," ++
        "\"n\":-9223372036854775807,\"empty\":\x7b\x7d\x7d" ∧
      ∃ doc, (Document.parse quotedTree.toJson).result = .ok doc ∧ doc.tree = quotedTree := by
  have hportable : Everywhere Portable quotedTree := by
    simp [quotedTree, Portable, Legible, Ordered.keys, Dotless]
  have hdepth : quotedTree.depth = 3 := by decide
  exact ⟨⟨hportable, hdepth⟩, by decide +kernel, parse_toJson hportable (by rw [hdepth]; decide)⟩

end SiteConf.Tree
