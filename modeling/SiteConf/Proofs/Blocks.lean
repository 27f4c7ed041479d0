import SiteConf.Proofs.Lines
import SiteConf.Proofs.Step
import SiteConf.Source.Blocks

set_option autoImplicit false

/-! # Lines in conditional blocks

A line lies in an inactive block when a line before it opens a block whose condition does not hold
and the lines between the two do not close it (`Inactive`). This says what the stack of open
blocks is about without running through the text. Resolving keeps the number of lines, and a line
that it does not blank is no directive and lies in no inactive block (`resolveLines_kept`); all
such lines stay as they are (`resolveLines_text`). -/

namespace SiteConf.Source

/-! ## Open blocks -/

def opensBlock (l : List Char) : Bool :=
  match directive? l with
  | some (.opener _ _) => true
  | _ => false

def closesBlock (l : List Char) : Bool :=
  match directive? l with
  | some .closer => true
  | _ => false

/-- Read inside `depth` blocks, the lines do not close the block around those. -/
def StaysOpen (depth : Nat) (ls : List (List Char)) : Prop :=
  ∀ p, p <+: ls → p.countP closesBlock ≤ p.countP opensBlock + depth

/-- The line after the lines `before` lies in a block whose condition does not hold. -/
def Inactive (conditions : Conditions) (before : List (List Char)) : Prop :=
  ∃ a l b wanted name, before = a ++ l :: b ∧ directive? l = some (.opener wanted name) ∧
    Conditions.agree conditions wanted name = false ∧ StaysOpen 0 b

section StaysOpen

variable {depth : Nat} {l : List Char} {ls : List (List Char)}

/-- What holds of all prefixes holds of those that start with the first line. -/
theorem StaysOpen.cons_prefix (h : StaysOpen depth (l :: ls)) {p : List (List Char)}
    (hp : p <+: ls) :
    p.countP closesBlock + (if closesBlock l then 1 else 0)
      ≤ p.countP opensBlock + (if opensBlock l then 1 else 0) + depth := by
  have hprefix := h (l :: p) ((List.cons_prefix_cons).mpr ⟨rfl, hp⟩)
  rw [List.countP_cons, List.countP_cons] at hprefix
  exact hprefix

theorem StaysOpen.after_opener {wanted : Bool} {name : String}
    (hl : directive? l = some (.opener wanted name)) (h : StaysOpen depth (l :: ls)) :
    StaysOpen (depth + 1) ls := by
  intro p hp
  have hcount := h.cons_prefix hp
  simp only [closesBlock, opensBlock, hl, Bool.false_eq_true, if_false, if_true] at hcount
  omega

theorem StaysOpen.after_closer (hl : directive? l = some .closer)
    (h : StaysOpen depth (l :: ls)) : ∃ outer, depth = outer + 1 ∧ StaysOpen outer ls := by
  have hfirst := h.cons_prefix List.nil_prefix
  simp only [closesBlock, opensBlock, hl, Bool.false_eq_true, if_false, if_true,
    List.countP_nil] at hfirst
  -- the prefix that is the line alone says that there is a block for it to close
  refine ⟨depth - 1, by omega, fun p hp => ?_⟩
  have hcount := h.cons_prefix hp
  simp only [closesBlock, opensBlock, hl, Bool.false_eq_true, if_false, if_true] at hcount
  omega

theorem StaysOpen.after_text (hl : directive? l = none) (h : StaysOpen depth (l :: ls)) :
    StaysOpen depth ls := by
  intro p hp
  have hcount := h.cons_prefix hp
  simp only [closesBlock, opensBlock, hl, Bool.false_eq_true, if_false] at hcount
  omega

/-- A first line that leaves the block open may be put in front. -/
theorem StaysOpen.cons (h : ∀ p, p <+: ls → p.countP closesBlock + (if closesBlock l then 1 else 0)
      ≤ p.countP opensBlock + (if opensBlock l then 1 else 0) + depth) :
    StaysOpen depth (l :: ls) := by
  intro p hp
  cases p with
  | nil => exact Nat.zero_le _
  | cons m p =>
      obtain ⟨rfl, hrest⟩ := List.cons_prefix_cons.mp hp
      have hcount := h p hrest
      rw [List.countP_cons, List.countP_cons]
      exact hcount

theorem StaysOpen.before_opener {wanted : Bool} {name : String}
    (hl : directive? l = some (.opener wanted name)) (h : StaysOpen (depth + 1) ls) :
    StaysOpen depth (l :: ls) := by
  refine StaysOpen.cons fun p hp => ?_
  have hcount := h p hp
  simp only [closesBlock, opensBlock, hl, Bool.false_eq_true, if_false, if_true]
  omega

theorem StaysOpen.before_closer (hl : directive? l = some .closer) (h : StaysOpen depth ls) :
    StaysOpen (depth + 1) (l :: ls) := by
  refine StaysOpen.cons fun p hp => ?_
  have hcount := h p hp
  simp only [closesBlock, opensBlock, hl, Bool.false_eq_true, if_false, if_true]
  omega

theorem StaysOpen.before_text (hl : directive? l = none) (h : StaysOpen depth ls) :
    StaysOpen depth (l :: ls) := by
  refine StaysOpen.cons fun p hp => ?_
  have hcount := h p hp
  simp only [closesBlock, opensBlock, hl, Bool.false_eq_true, if_false]
  omega

end StaysOpen

theorem Inactive.cons {conditions : Conditions} {ls : List (List Char)}
    (h : Inactive conditions ls) (l : List Char) : Inactive conditions (l :: ls) := by
  obtain ⟨a, l', b, wanted, name, rfl, hrest⟩ := h
  exact ⟨l :: a, l', b, wanted, name, rfl, hrest⟩

theorem inactive_nil (conditions : Conditions) : ¬ Inactive conditions [] := by
  rintro ⟨a, l, b, wanted, name, h, -⟩
  cases a <;> cases h

/-- The first line opens the block, or the block is opened later. -/
theorem inactive_cons {conditions : Conditions} {l : List Char} {ls : List (List Char)}
    (h : Inactive conditions (l :: ls)) :
    (∃ wanted name, directive? l = some (.opener wanted name) ∧
      Conditions.agree conditions wanted name = false ∧ StaysOpen 0 ls) ∨
    Inactive conditions ls := by
  obtain ⟨a, l', b, wanted, name, hsplit, hrest⟩ := h
  cases a with
  | nil =>
      obtain ⟨rfl, rfl⟩ := List.cons.inj hsplit
      exact .inl ⟨wanted, name, hrest⟩
  | cons m a =>
      obtain ⟨-, rfl⟩ := List.cons.inj hsplit
      exact .inr ⟨a, l', b, wanted, name, rfl, hrest⟩

/-! ## One line -/

/-- What resolving makes of one line inside open blocks: the blocks that are open behind it, and
the line that stands in its place. -/
inductive LineStep (conditions : Conditions) (line : Nat) :
    List Block → List Char → List Block → List Char → Prop where
  | opener {blocks : List Block} {l : List Char} {wanted : Bool} {name : String}
      (h : directive? l = some (.opener wanted name)) :
      LineStep conditions line blocks l
        (⟨Conditions.agree conditions wanted name, line⟩ :: blocks) []
  | closer {block : Block} {outer : List Block} {l : List Char}
      (h : directive? l = some .closer) : LineStep conditions line (block :: outer) l outer []
  | kept {blocks : List Block} {l : List Char} (h : directive? l = none)
      (hactive : blocks.all (·.active) = true) : LineStep conditions line blocks l blocks l
  | dropped {blocks : List Block} {l : List Char} (h : directive? l = none)
      (hactive : blocks.all (·.active) = false) : LineStep conditions line blocks l blocks []

section Resolve

variable {conditions : Conditions} {line : Nat} {blocks : List Block} {l : List Char}
  {ls out : List (List Char)}

/-- What a run that returns has done with its first line. -/
theorem exists_lineStep (h : resolveLines conditions line blocks (l :: ls) = .ok out) :
    ∃ blocks' here rest, LineStep conditions line blocks l blocks' here ∧
      resolveLines conditions (line + 1) blocks' ls = .ok rest ∧ out = here :: rest := by
  unfold resolveLines at h
  rcases hl : directive? l with _ | (⟨wanted, name⟩ | _ | _)
  · simp only [hl] at h
    obtain ⟨rest, hrest, rfl⟩ := Step.exists_of_map_eq_ok h
    by_cases hactive : blocks.all (·.active) = true
    · rw [if_pos hactive]
      exact ⟨_, _, rest, .kept hl hactive, hrest, rfl⟩
    · rw [if_neg hactive]
      exact ⟨_, _, rest, .dropped hl (by simpa using hactive), hrest, rfl⟩
  · simp only [hl] at h
    obtain ⟨rest, hrest, rfl⟩ := Step.exists_of_map_eq_ok h
    exact ⟨_, _, rest, .opener hl, hrest, rfl⟩
  · cases blocks with
    | nil =>
        simp only [hl] at h
        cases h
    | cons block outer =>
        simp only [hl] at h
        obtain ⟨rest, hrest, rfl⟩ := Step.exists_of_map_eq_ok h
        exact ⟨_, _, rest, .closer hl, hrest, rfl⟩
  · simp only [hl] at h
    cases h

/-- A line that stands as it was is no directive, and all blocks around it are active. -/
theorem LineStep.kept_of_ne_nil {blocks' : List Block} {here : List Char}
    (h : LineStep conditions line blocks l blocks' here) (hne : here ≠ []) :
    here = l ∧ directive? l = none ∧ ∀ b ∈ blocks, b.active = true := by
  cases h with
  | opener | closer | dropped => exact absurd rfl hne
  | kept h hactive => exact ⟨rfl, h, List.all_eq_true.mp hactive⟩

/-- A block around a line that the line does not close is around the next line, one block further
out or further in if the line is a directive. -/
theorem LineStep.stack {blocks' : List Block} {here : List Char}
    (h : LineStep conditions line blocks l blocks' here) {k : Nat} {b : Block}
    (hb : blocks[k]? = some b) (hopen : StaysOpen k (l :: ls)) :
    ∃ k', blocks'[k']? = some b ∧ StaysOpen k' ls := by
  cases h with
  | opener hl => exact ⟨k + 1, hb, hopen.after_opener hl⟩
  | closer hl =>
      obtain ⟨outer, rfl, houter⟩ := hopen.after_closer hl
      exact ⟨outer, hb, houter⟩
  | kept hl | dropped hl => exact ⟨k, hb, hopen.after_text hl⟩

theorem LineStep.block_of_opener {blocks' : List Block} {here : List Char} {wanted : Bool}
    {name : String} (h : LineStep conditions line blocks l blocks' here)
    (hl : directive? l = some (.opener wanted name)) :
    blocks'[0]? = some ⟨Conditions.agree conditions wanted name, line⟩ := by
  cases h with
  | opener hl' =>
      rw [hl] at hl'
      cases hl'
      rfl
  | closer hl' =>
      rw [hl] at hl'
      cases hl'
  | kept hl' | dropped hl' =>
      rw [hl] at hl'
      cases hl'

/-- As long as the line behind the first one lies in no inactive block, the blocks that are open
there and stay open are active, if those around the first line are. -/
theorem LineStep.active_behind {blocks' : List Block} {here : List Char}
    (h : LineStep conditions line blocks l blocks' here)
    (hinactive : ¬ Inactive conditions (l :: ls))
    (hblocks : ∀ (k : Nat) b, blocks[k]? = some b → StaysOpen k (l :: ls) → b.active = true)
    {k : Nat} {b : Block} (hb : blocks'[k]? = some b) (hopen : StaysOpen k ls) :
    b.active = true := by
  cases h with
  | opener hl =>
      cases k with
      | zero =>
          -- the block that the line opens
          cases hb
          by_contra hagree
          refine hinactive ⟨[], l, ls, _, _, rfl, hl, ?_, hopen⟩
          simpa using hagree
      | succ k => exact hblocks k b hb (hopen.before_opener hl)
  | closer hl => exact hblocks (k + 1) b hb (hopen.before_closer hl)
  | kept hl | dropped hl => exact hblocks k b hb (hopen.before_text hl)

theorem LineStep.eq_of_text {blocks' : List Block} {here : List Char}
    (h : LineStep conditions line blocks l blocks' here) (hl : directive? l = none)
    (hactive : ∀ b ∈ blocks, b.active = true) : here = l := by
  cases h with
  | opener hl' | closer hl' =>
      rw [hl] at hl'
      cases hl'
  | kept => rfl
  | dropped _ hdropped =>
      rw [List.all_eq_true.mpr hactive] at hdropped
      cases hdropped

/-! ## All lines -/

theorem length_resolveLines (h : resolveLines conditions line blocks ls = .ok out) :
    out.length = ls.length := by
  induction ls generalizing line blocks out with
  | nil =>
      rw [resolveLines] at h
      rcases hlast : blocks.getLast? with _ | first
      · simp only [hlast] at h
        cases h
        rfl
      · simp only [hlast] at h
        cases h
  | cons l ls ih =>
      obtain ⟨blocks', here, rest, -, hrest, rfl⟩ := exists_lineStep h
      rw [List.length_cons, List.length_cons, ih hrest]

/-- **What is not blanked is text of an active part.** A line that stands in the output is a line
of the input and no directive, it lies in no inactive block that was opened on the way, and the
blocks that were open at the start and are still open are active. -/
theorem resolveLines_kept (h : resolveLines conditions line blocks ls = .ok out) {i : Nat}
    {here : List Char} (hi : out[i]? = some here) (hne : here ≠ []) :
    ls[i]? = some here ∧ directive? here = none ∧ ¬ Inactive conditions (ls.take i) ∧
      ∀ (k : Nat) b, blocks[k]? = some b → StaysOpen k (ls.take i) → b.active = true := by
  induction ls generalizing line blocks out i with
  | nil =>
      have hlength := length_resolveLines h
      have hlt : i < out.length := (List.getElem?_eq_some_iff.mp hi).1
      rw [hlength] at hlt
      cases hlt
  | cons l ls ih =>
      obtain ⟨blocks', first, rest, hstep, hrest, rfl⟩ := exists_lineStep h
      cases i with
      | zero =>
          obtain rfl : first = here := by simpa using hi
          obtain ⟨rfl, hl, hactive⟩ := hstep.kept_of_ne_nil hne
          refine ⟨rfl, hl, inactive_nil conditions, fun k b hb _ => ?_⟩
          exact hactive b (List.mem_of_getElem? hb)
      | succ i =>
          obtain ⟨hline, htext, hinactive, hblocks⟩ := ih hrest hi
          rw [List.take_succ_cons]
          refine ⟨hline, htext, fun hin => ?_, fun k b hb hopen => ?_⟩
          · rcases inactive_cons hin with ⟨wanted, name, hl, hagree, hopen⟩ | hin
            · -- the block that the line opens would be active
              have hactive := hblocks 0 _ (hstep.block_of_opener hl) hopen
              exact absurd hactive (by simp [hagree])
            · exact hinactive hin
          · -- a block that was open at the start is still open behind the first line
            obtain ⟨k', hb', hopen'⟩ := hstep.stack hb hopen
            exact hblocks k' b hb' hopen'

/-- **Text of an active part is kept.** A line that is no directive and lies in no inactive block
stands in the output as it stands in the input, as long as the blocks that were open at the start
and are still open are active. -/
theorem resolveLines_text (h : resolveLines conditions line blocks ls = .ok out) {i : Nat}
    {here l : List Char} (hi : out[i]? = some here) (hl : ls[i]? = some l)
    (htext : directive? l = none) (hinactive : ¬ Inactive conditions (ls.take i))
    (hblocks : ∀ (k : Nat) b, blocks[k]? = some b → StaysOpen k (ls.take i) → b.active = true) :
    here = l := by
  induction ls generalizing line blocks out i with
  | nil => cases hl
  | cons first ls ih =>
      obtain ⟨blocks', here', rest, hstep, hrest, rfl⟩ := exists_lineStep h
      cases i with
      | zero =>
          obtain rfl : here' = here := by simpa using hi
          obtain rfl : first = l := by simpa using hl
          refine hstep.eq_of_text htext fun b hb => ?_
          obtain ⟨k, hk⟩ := List.mem_iff_getElem?.mp hb
          refine hblocks k b hk fun p hp => ?_
          rw [List.prefix_nil.mp hp]
          exact Nat.zero_le _
      | succ i =>
          rw [List.take_succ_cons] at hinactive hblocks
          refine ih hrest hi hl (fun hin => hinactive (hin.cons first)) fun k b hb hopen => ?_
          exact hstep.active_behind hinactive hblocks hb hopen

/-- A run that fails names a line that it has come to, or on which a block was opened. -/
theorem resolveLines_within {P : Nat → Prop} {e : Error}
    (h : resolveLines conditions line blocks ls = .error e) (hblocks : ∀ b ∈ blocks, P b.line)
    (hlines : ∀ n, line ≤ n → n < line + ls.length → P n) : e.Within P := by
  induction ls generalizing line blocks with
  | nil =>
      rw [resolveLines] at h
      rcases hlast : blocks.getLast? with _ | first
      · simp only [hlast] at h
        cases h
      · simp only [hlast] at h
        cases h
        exact Error.within_singleton rfl (hblocks first (List.mem_of_getLast? hlast))
  | cons l ls ih =>
      have hhere : P line := by
        apply hlines
        · omega
        · rw [List.length_cons]
          omega
      have hlater : ∀ n, line + 1 ≤ n → n < line + 1 + ls.length → P n := by
        intro n hlo hhi
        apply hlines
        · omega
        · rw [List.length_cons]
          omega
      -- an error further down is passed on
      have hmap : ∀ {here : List Char} {blocks' : List Block}, (∀ b ∈ blocks', P b.line) →
          (resolveLines conditions (line + 1) blocks' ls).map (here :: ·) = .error e →
          e.Within P := by
        intro here blocks' hblocks' herror
        exact ih (Step.eq_error_of_map herror) hblocks' hlater
      unfold resolveLines at h
      rcases hl : directive? l with _ | (⟨wanted, name⟩ | _ | _)
      · simp only [hl] at h
        exact hmap hblocks h
      · simp only [hl] at h
        exact hmap (List.forall_mem_cons.mpr ⟨hhere, hblocks⟩) h
      · cases blocks with
        | nil =>
            simp only [hl] at h
            cases h
            exact Error.within_singleton rfl hhere
        | cons block outer =>
            simp only [hl] at h
            exact hmap (List.forall_mem_cons.mp hblocks).2 h
      · simp only [hl] at h
        cases h
        exact Error.within_singleton rfl hhere

end Resolve

end SiteConf.Source
