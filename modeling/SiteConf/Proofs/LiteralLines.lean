import SiteConf.Proofs.Addresses
import SiteConf.Proofs.DescentRules
import SiteConf.Proofs.Lines

set_option autoImplicit false

/-! # The lines of literals

The grammar takes the lines of a literal, and those of its errors, from tokens (`ofTokens_lines`);
only an error can be at the end of input. The resolver takes the lines of the table and of its
errors from the literal (`resolve_within`). -/

namespace SiteConf.Literal

open KeyPath

/-! ## Lines taken from tokens -/

theorem line_mem_lines (l : Literal) : l.line ∈ l.lines := by
  rw [lines_eq_cons]
  exact List.mem_cons_self

/-- The line is that of a token with the property which is not the end of input. -/
def OnToken (R : Token → Prop) (n : Nat) : Prop :=
  ∃ t, R t ∧ t.kind ≠ .eof ∧ n = t.line

section Tokens

variable {R : Token → Prop}

theorem forall_mem_linesOfEntries {P : Nat → Prop} {es : List (Key × Literal)}
    (h : ∀ e ∈ es, P e.1.line ∧ ∀ n ∈ e.2.lines, P n) : ∀ n ∈ linesOfEntries es, P n := by
  induction es with
  | nil => exact List.forall_mem_nil _
  | cons e es ih =>
      obtain ⟨⟨hkey, hvalue⟩, hrest⟩ := List.forall_mem_cons.mp h
      exact List.forall_mem_cons.mpr ⟨hkey, List.forall_mem_append.mpr ⟨hvalue, ih hrest⟩⟩

theorem forall_mem_linesOfItems {P : Nat → Prop} {vs : List Literal}
    (h : ∀ v ∈ vs, ∀ n ∈ v.lines, P n) : ∀ n ∈ linesOfItems vs, P n := by
  induction vs with
  | nil => exact List.forall_mem_nil _
  | cons v vs ih =>
      obtain ⟨hvalue, hrest⟩ := List.forall_mem_cons.mp h
      exact List.forall_mem_append.mpr ⟨hvalue, ih hrest⟩

/-- The lines of a literal are those of its first token and of its parts. -/
theorem grows_lines :
    Grows R (fun k => OnToken R k.line) (fun l => ∀ n ∈ l.lines, OnToken R n) where
  key ht hkind _ := ⟨_, ht, hkind, rfl⟩
  mapping ht hkind hes :=
    List.forall_mem_cons.mpr ⟨⟨_, ht, hkind, rfl⟩, forall_mem_linesOfEntries hes⟩
  sequence ht hkind hvs :=
    List.forall_mem_cons.mpr ⟨⟨_, ht, hkind, rfl⟩, forall_mem_linesOfItems hvs⟩
  constant value ht hkind :=
    List.forall_mem_singleton.mpr ⟨_, ht, hkind ▸ constantKind_ne_eof value, rfl⟩
  negate ht hkind hv := List.forall_mem_cons.mpr ⟨⟨_, ht, hkind, rfl⟩, hv⟩
  reference _ ht hkind := List.forall_mem_singleton.mpr ⟨_, ht, hkind, rfl⟩

end Tokens

/-- **The lines of a literal are lines of tokens**, and an error is on the line of a token. -/
theorem ofTokens_lines {limit : Nat} {tokens : List Token} (hne : tokens ≠ []) :
    (∀ l, ofTokens limit tokens = .ok l → ∀ n ∈ l.lines, OnToken (· ∈ tokens) n) ∧
      ∀ e, ofTokens limit tokens = .error e → ∃ t ∈ tokens, e.lines = [some t.line] := by
  obtain ⟨hok, herror⟩ := ofTokens_keeps grows_lines limit hne fun t ht => ht
  refine ⟨hok, fun e he => ?_⟩
  obtain ⟨t, issue, ht, -, rfl⟩ := herror e he
  exact ⟨t, ht, rfl⟩

/-! ## Lines taken from the literal -/

section Outline

variable {P : Nat → Prop}

/-- The lines that a placed literal names have the property. -/
structure Placed.Within (P : Nat → Prop) (n : Placed) : Prop where
  line : P n.line
  first : ∀ f ∈ n.first, P f
  literal : ∀ m ∈ n.literal.lines, P m

theorem firstLine_within {seen : List Key} (hseen : ∀ k ∈ seen, P k.line) (name : String) :
    ∀ f ∈ firstLine seen name, P f := by
  intro f hf
  rw [firstLine] at hf
  obtain ⟨k, hk, rfl⟩ := Option.map_eq_some_iff.mp hf
  exact hseen k (List.mem_of_find?_eq_some hk)

mutual

theorem outline_within : ∀ (l : Literal) (steps : List Tree.Step) {line : Nat} {first : LineRef},
    P line → (∀ f ∈ first, P f) → (∀ m ∈ l.lines, P m) →
    ∀ n ∈ outline steps line first l, n.Within P
  | .mapping l entries, steps, line, first, hline, hfirst, hl => by
      rw [outline]
      refine List.forall_mem_cons.mpr ⟨⟨hline, hfirst, hl⟩, ?_⟩
      rw [lines] at hl
      exact outlineEntries_within entries steps (List.forall_mem_nil _)
        (List.forall_mem_cons.mp hl).2
  | .sequence l items, steps, line, first, hline, hfirst, hl => by
      rw [outline]
      refine List.forall_mem_cons.mpr ⟨⟨hline, hfirst, hl⟩, ?_⟩
      rw [lines] at hl
      exact outlineItems_within items steps 0 (List.forall_mem_cons.mp hl).2
  | .constant l v, steps, line, first, hline, hfirst, hl => by
      rw [outline]
      exact List.forall_mem_singleton.mpr ⟨hline, hfirst, hl⟩
  | .negate l operand, steps, line, first, hline, hfirst, hl => by
      rw [outline]
      exact List.forall_mem_singleton.mpr ⟨hline, hfirst, hl⟩
  | .reference l segments, steps, line, first, hline, hfirst, hl => by
      rw [outline]
      exact List.forall_mem_singleton.mpr ⟨hline, hfirst, hl⟩

theorem outlineEntries_within : ∀ (entries : List (Key × Literal)) (steps : List Tree.Step)
    {seen : List Key}, (∀ k ∈ seen, P k.line) → (∀ m ∈ linesOfEntries entries, P m) →
    ∀ n ∈ outlineEntries steps seen entries, n.Within P
  | [], steps, seen, hseen, hl => by
      rw [outlineEntries]
      exact List.forall_mem_nil _
  | (k, v) :: rest, steps, seen, hseen, hl => by
      rw [linesOfEntries] at hl
      obtain ⟨hk, hl⟩ := List.forall_mem_cons.mp hl
      obtain ⟨hv, hrest⟩ := List.forall_mem_append.mp hl
      have hseen' : ∀ k' ∈ seen ++ [k], P k'.line :=
        List.forall_mem_append.mpr ⟨hseen, List.forall_mem_singleton.mpr hk⟩
      rw [outlineEntries]
      exact List.forall_mem_append.mpr
        ⟨outline_within v _ hk (firstLine_within hseen k.name) hv,
          outlineEntries_within rest steps hseen' hrest⟩

theorem outlineItems_within : ∀ (items : List Literal) (steps : List Tree.Step) (index : Nat),
    (∀ m ∈ linesOfItems items, P m) → ∀ n ∈ outlineItems steps index items, n.Within P
  | [], steps, index, hl => by
      rw [outlineItems]
      exact List.forall_mem_nil _
  | v :: rest, steps, index, hl => by
      rw [linesOfItems] at hl
      obtain ⟨hv, hrest⟩ := List.forall_mem_append.mp hl
      rw [outlineItems]
      exact List.forall_mem_append.mpr
        ⟨outline_within v _ (hv _ (line_mem_lines v)) nofun hv,
          outlineItems_within rest steps (index + 1) hrest⟩

end

/-- What is wrong with the operand of a minus is reported at the minus or inside the operand. -/
theorem badOperand?_within : ∀ (l : Literal) {line : Nat} {e : Error}, P line →
    (∀ m ∈ l.lines, P m) → l.badOperand? line = some e → e.Within P
  | .mapping l entries, line, e, hline, hl, h => by
      cases h
      exact Error.within_singleton rfl (hl _ (line_mem_lines (.mapping l entries)))
  | .sequence l items, line, e, hline, hl, h => by
      cases h
      exact Error.within_singleton rfl (hl _ (line_mem_lines (.sequence l items)))
  | .constant l (.int n), line, e, hline, hl, h => by
      rw [badOperand?, Option.ite_none_right_eq_some] at h
      cases h.2
      exact Error.within_singleton rfl hline
  | .constant l (.str s), line, e, hline, hl, h => by
      cases h
      exact Error.within_singleton rfl hline
  | .constant l (.bool b), line, e, hline, hl, h => by
      cases h
      exact Error.within_singleton rfl hline
  | .negate inner operand, line, e, hline, hl, h => by
      rw [lines] at hl
      obtain ⟨hinner, hoperand⟩ := List.forall_mem_cons.mp hl
      rw [badOperand?] at h
      exact badOperand?_within operand hinner hoperand h
  | .reference l segments, line, e, hline, hl, h => by
      cases h
      exact Error.within_singleton rfl (hl _ (line_mem_lines (.reference l segments)))

theorem offence_within {before : List Placed} {n : Placed} {e : Error} (hn : n.Within P)
    (h : offence before n = some e) : e.Within P := by
  unfold offence at h
  rcases hfirst : n.first with _ | first
  · simp only [hfirst] at h
    have hlines := hn.literal
    cases hliteral : n.literal with
    | mapping l entries | sequence l items | constant l v =>
        rw [hliteral] at h
        cases h
    | negate l operand =>
        rw [hliteral] at h hlines
        rw [lines] at hlines
        obtain ⟨hline, hoperand⟩ := List.forall_mem_cons.mp hlines
        exact badOperand?_within operand hline hoperand h
    | reference l segments =>
        rw [hliteral] at h hlines
        simp only at h
        split at h
        · cases h
        · cases h
          exact Error.within_singleton rfl (hlines l List.mem_cons_self)
  · simp only [hfirst] at h
    cases h
    refine List.forall_mem_cons.mpr ⟨⟨n.line, rfl, hn.line⟩, ?_⟩
    exact List.forall_mem_singleton.mpr ⟨first, rfl, hn.first first hfirst⟩

theorem firstOffence_within {ns : List Placed} (hns : ∀ n ∈ ns, n.Within P)
    {before : List Placed} {e : Error} (h : firstOffence before ns = some e) : e.Within P := by
  induction ns generalizing before with
  | nil => cases h
  | cons n ns ih =>
      obtain ⟨hn, hrest⟩ := List.forall_mem_cons.mp hns
      rw [firstOffence] at h
      rcases hhere : offence before n with _ | e'
      · rw [hhere, Option.none_or] at h
        exact ih hrest h
      · rw [hhere, Option.some_or] at h
        cases h
        exact offence_within hn hhere

end Outline

/-- **Resolving invents no line**: the lines of the table, and those of an error, are lines of the
literal. -/
theorem resolve_within {l : Literal} (hl : Everywhere Lexical l) {P : Nat → Prop}
    (hP : ∀ n ∈ l.lines, P n) :
    (∀ doc, resolve l = .ok doc → ∀ entry ∈ doc.origins.entries, P entry.2) ∧
      ∀ e, resolve l = .error e → e.Within P := by
  have hnodes : ∀ n ∈ nodes l, n.Within P :=
    outline_within l [] (hP _ (line_mem_lines l)) nofun hP
  constructor
  · intro doc hdoc
    rw [Document.entries_of_resolve hl hdoc]
    exact List.forall_mem_map.mpr fun n hn => (hnodes n hn).line
  · intro e he
    rcases resolve_cases hl with ⟨doc, s, hdoc, -⟩ | ⟨e', he', hoffence⟩
    · rw [he] at hdoc
      cases hdoc
    · rw [he] at he'
      cases he'
      exact firstOffence_within hnodes hoffence

end SiteConf.Literal
