import SiteConf.Error
import SiteConf.Text.Lines
import Mathlib

set_option autoImplicit false

/-! # Line numbers

How the lines of a text lie in it: a text has one line more than newlines, lines that hold no
newline are what `lines` makes of the text that joins them, and a character that is no newline
lies on the line whose number is the number of newlines before it. And the lines that an error
names. -/

namespace SiteConf

namespace Text

/-! ## Lines of a text -/

theorem lines_newline (cs : List Char) : lines ('\n' :: cs) = [] :: lines cs := by
  rw [lines, if_pos rfl]

theorem exists_lines_eq_cons (cs : List Char) : ∃ l ls, lines cs = l :: ls := by
  cases cs with
  | nil => exact ⟨[], [], rfl⟩
  | cons c cs =>
      by_cases hc : c = '\n'
      · subst hc
        exact ⟨[], lines cs, lines_newline cs⟩
      · rw [lines, if_neg hc]
        rcases lines cs with _ | ⟨l, ls⟩
        · exact ⟨[c], [], rfl⟩
        · exact ⟨c :: l, ls, rfl⟩

theorem lines_cons_of_ne {c : Char} {cs l : List Char} {ls : List (List Char)} (hc : c ≠ '\n')
    (h : lines cs = l :: ls) : lines (c :: cs) = (c :: l) :: ls := by
  rw [lines, if_neg hc, h]

theorem length_lines (cs : List Char) : (lines cs).length = cs.count '\n' + 1 := by
  induction cs with
  | nil => rfl
  | cons c cs ih =>
      by_cases hc : c = '\n'
      · subst hc
        rw [lines_newline, List.length_cons, ih, List.count_cons_self]
      · obtain ⟨l, ls, h⟩ := exists_lines_eq_cons cs
        rw [lines_cons_of_ne hc h, List.count_cons_of_ne hc, ← ih, h]
        rfl

theorem newline_not_mem_of_mem_lines {cs : List Char} : ∀ l ∈ lines cs, '\n' ∉ l := by
  induction cs with
  | nil =>
      intro l hl
      obtain rfl : l = [] := by simpa [lines] using hl
      simp
  | cons c cs ih =>
      obtain ⟨l, ls, h⟩ := exists_lines_eq_cons cs
      rw [h] at ih
      obtain ⟨hl, hls⟩ := List.forall_mem_cons.mp ih
      by_cases hc : c = '\n'
      · subst hc
        rw [lines_newline, h]
        exact List.forall_mem_cons.mpr ⟨by simp, List.forall_mem_cons.mpr ⟨hl, hls⟩⟩
      · rw [lines_cons_of_ne hc h]
        refine List.forall_mem_cons.mpr ⟨?_, hls⟩
        simp [hl, Ne.symm hc]

/-- Text without a newline goes to the first line of what follows. -/
theorem lines_append_of_not_mem {l cs m : List Char} {ms : List (List Char)} (hl : '\n' ∉ l)
    (h : lines cs = m :: ms) : lines (l ++ cs) = (l ++ m) :: ms := by
  induction l with
  | nil => exact h
  | cons c l ih =>
      have hc : c ≠ '\n' := fun heq => hl (heq ▸ List.mem_cons_self)
      exact lines_cons_of_ne hc (ih fun hmem => hl (List.mem_cons_of_mem _ hmem))

/-- **Lines without newlines are the lines of the text that joins them.** -/
theorem lines_unlines {ls : List (List Char)} (hne : ls ≠ []) (h : ∀ l ∈ ls, '\n' ∉ l) :
    lines (unlines ls) = ls := by
  induction ls with
  | nil => exact absurd rfl hne
  | cons l ls ih =>
      obtain ⟨hl, hls⟩ := List.forall_mem_cons.mp h
      cases ls with
      | nil =>
          have hempty : lines [] = [[]] := rfl
          have hline := lines_append_of_not_mem hl hempty
          rw [List.append_nil] at hline
          exact hline
      | cons m ls =>
          have hrest : lines ('\n' :: unlines (m :: ls)) = [] :: m :: ls := by
            rw [lines_newline, ih (List.cons_ne_nil _ _) hls]
          rw [unlines, lines_append_of_not_mem hl hrest, List.append_nil]

/-- A text is what joins its lines. -/
theorem unlines_lines (cs : List Char) : unlines (lines cs) = cs := by
  induction cs with
  | nil => rfl
  | cons c cs ih =>
      obtain ⟨l, ls, h⟩ := exists_lines_eq_cons cs
      rw [h] at ih
      by_cases hc : c = '\n'
      · subst hc
        rw [lines_newline, h, unlines, ih]
        rfl
      · rw [lines_cons_of_ne hc h]
        cases ls with
        | nil =>
            rw [unlines] at ih ⊢
            rw [ih]
        | cons m ls =>
            rw [unlines] at ih ⊢
            rw [List.cons_append, ih]

/-- The first line of a text stands at its start. -/
theorem isPrefix_of_lines {cs l : List Char} {ls : List (List Char)} (h : lines cs = l :: ls) :
    l <+: cs := by
  have hcs := unlines_lines cs
  rw [h] at hcs
  cases ls with
  | nil => exact ⟨[], by rw [List.append_nil]; exact hcs⟩
  | cons m ls => exact ⟨_, hcs⟩

theorem unlines_append (out l : List Char) (ls : List (List Char)) :
    unlines ((out ++ l) :: ls) = out ++ unlines (l :: ls) := by
  cases ls with
  | nil => rfl
  | cons m ls => rw [unlines, unlines, List.append_assoc]

/-- Joining lines puts a newline between any two of them. -/
theorem count_unlines {ls : List (List Char)} (hne : ls ≠ []) :
    (unlines ls).count '\n' + 1 = (ls.map (List.count '\n')).sum + ls.length := by
  induction ls with
  | nil => exact absurd rfl hne
  | cons l ls ih =>
      cases ls with
      | nil => simp [unlines]
      | cons m ls =>
          have hrest := ih (List.cons_ne_nil _ _)
          rw [unlines, List.count_append, List.count_cons_self, List.map_cons, List.sum_cons,
            List.length_cons]
          omega

/-- Lines that are as many as those of the text that joins them hold no newline, and are the lines
of that text. -/
theorem lines_unlines_of_length {ls : List (List Char)} (hne : ls ≠ [])
    (h : (lines (unlines ls)).length = ls.length) : lines (unlines ls) = ls := by
  apply lines_unlines hne
  intro l hl hmem
  have hsum : (ls.map (List.count '\n')).sum = 0 := by
    have hcount := count_unlines hne
    rw [length_lines] at h
    omega
  have hzero : l.count '\n' = 0 :=
    List.sum_eq_zero_iff.mp hsum _ (List.mem_map_of_mem hl)
  exact absurd hmem (List.count_eq_zero.mp hzero)

/-- The number is that of a line of the text. -/
def HasLine (text : String) (n : Nat) : Prop :=
  1 ≤ n ∧ n ≤ lineCount text

/-- **A character lies on the line that the newlines before it say.** -/
theorem exists_line_of_char {c : Char} (hc : c ≠ '\n') (before after : List Char) :
    ∃ l, (lines (before ++ c :: after))[before.count '\n']? = some l ∧ c ∈ l := by
  induction before with
  | nil =>
      obtain ⟨l, ls, h⟩ := exists_lines_eq_cons after
      refine ⟨c :: l, ?_, List.mem_cons_self⟩
      rw [List.nil_append, lines_cons_of_ne hc h]
      rfl
  | cons d before ih =>
      obtain ⟨l, hl, hmem⟩ := ih
      by_cases hd : d = '\n'
      · subst hd
        refine ⟨l, ?_, hmem⟩
        rw [List.cons_append, lines_newline, List.count_cons_self, List.getElem?_cons_succ, hl]
      · obtain ⟨m, ms, h⟩ := exists_lines_eq_cons (before ++ c :: after)
        rw [List.cons_append, lines_cons_of_ne hd h, List.count_cons_of_ne hd]
        rw [h] at hl
        -- the first line gets one character more, the others stay
        cases hcount : before.count '\n' with
        | zero =>
            rw [hcount] at hl
            obtain rfl : m = l := by simpa using hl
            exact ⟨d :: m, rfl, List.mem_cons_of_mem _ hmem⟩
        | succ n =>
            rw [hcount] at hl
            exact ⟨l, hl, hmem⟩

end Text

/-! ## Lines of an error -/

def Error.lines : Error → List LineRef
  | .unbalanced line _ => [line]
  | .undefinedPlaceholder _ line => [line]
  | .badSyntax line _ => [line]
  | .duplicate _ line firstLine => [line, firstLine]
  | .unresolved _ line => [line]
  | .noWriter _ line => [line]
  | .writerFailed _ line _ => [line]
  | _ => []

/-- All lines that the error names are known and have the property. -/
def Error.Within (P : Nat → Prop) (e : Error) : Prop :=
  ∀ r ∈ e.lines, ∃ n, r = some n ∧ P n

theorem Error.within_singleton {P : Nat → Prop} {e : Error} {n : Nat} (h : e.lines = [some n])
    (hn : P n) : e.Within P := by
  rw [Error.Within, h]
  exact List.forall_mem_singleton.mpr ⟨n, rfl, hn⟩

theorem Error.Within.imp {P Q : Nat → Prop} {e : Error} (h : e.Within P)
    (himp : ∀ n, P n → Q n) : e.Within Q := by
  intro r hr
  obtain ⟨n, hn, hP⟩ := h r hr
  exact ⟨n, hn, himp n hP⟩

end SiteConf
