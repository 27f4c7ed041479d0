import SiteConf.Proofs.Braces
import SiteConf.Proofs.Lines
import SiteConf.Text.Blank
import SiteConf.Writer.Emitter
import Mathlib

set_option autoImplicit false

/-! # Lines that nest

Emitted lines nest when each of them has matching braces, or opens a block with a brace at its end,
or is a lone brace that closes a block at the level at which it was opened (`Nest`). In a text of
such lines all braces match (`Nest.balanced`), and a line that is a lone closing brace is indented
like the line whose last brace it closes (`Nest.aligned`). -/

namespace SiteConf.Text

/-- The text begins with a character that is neither blank nor a closing brace. -/
def Solid (cs : List Char) : Prop :=
  ∃ c rest, cs = c :: rest ∧ isBlank c = false ∧ c ≠ '}'

theorem not_solid_nil : ¬ Solid [] := by
  rintro ⟨c, rest, h, -⟩
  cases h

theorem solid_cons {c : Char} {rest : List Char} :
    Solid (c :: rest) ↔ isBlank c = false ∧ c ≠ '}' := by
  constructor
  · rintro ⟨c', rest', h, hc⟩
    cases h
    exact hc
  · exact fun hc => ⟨c, rest, rfl, hc⟩

theorem Solid.append {cs : List Char} (h : Solid cs) (ds : List Char) : Solid (cs ++ ds) := by
  obtain ⟨c, rest, rfl, hc⟩ := h
  exact ⟨c, rest ++ ds, rfl, hc⟩

instance : (cs : List Char) → Decidable (Solid cs)
  | [] => isFalse not_solid_nil
  | _ :: _ => decidable_of_iff _ solid_cons.symm

/-- Every line that is a lone closing brace is indented like an earlier line that ends with an
opening brace, and this is the brace that it closes: the braces of the lines between them match. -/
def Aligned (lines : List (List Char)) : Prop :=
  ∀ j l, lines[j]? = some l → trim l = ['}'] →
    ∃ i l', i < j ∧ lines[i]? = some l' ∧ l'.getLast? = some '{' ∧
      l'.takeWhile isBlank = l.takeWhile isBlank ∧
      Balanced ((lines.take j).drop (i + 1)).flatten

section Blanks

variable {blanks rest : List Char} {c : Char}

theorem isBlank_of_mem_replicate (n : Nat) : ∀ b ∈ List.replicate n ' ', isBlank b = true := by
  intro b hb
  rw [(List.mem_replicate.mp hb).2]
  rfl

theorem takeWhile_blanks (hblanks : ∀ b ∈ blanks, isBlank b = true) (hc : isBlank c = false) :
    (blanks ++ c :: rest).takeWhile isBlank = blanks := by
  rw [List.takeWhile_append_of_pos hblanks, List.takeWhile_cons_of_neg (by simp [hc]),
    List.append_nil]

/-- Trimming keeps the first character that is not blank. -/
theorem head?_trim (hblanks : ∀ b ∈ blanks, isBlank b = true) (hc : isBlank c = false) :
    (trim (blanks ++ c :: rest)).head? = some c := by
  have hstart : trimStart (blanks ++ c :: rest) = c :: rest := by
    rw [trimStart, List.dropWhile_append_of_pos hblanks, List.dropWhile_cons_of_neg (by simp [hc])]
  have hkeep : ∃ kept, trimEnd (c :: rest) = c :: kept := by
    rw [trimEnd, List.reverse_cons, List.dropWhile_append]
    split
    · exact ⟨[], by rw [List.dropWhile_cons_of_neg (by simp [hc])]; rfl⟩
    · rw [List.reverse_append]
      exact ⟨_, rfl⟩
  rw [trim, hstart]
  obtain ⟨kept, hkept⟩ := hkeep
  rw [hkept]
  rfl

end Blanks

end SiteConf.Text

namespace SiteConf.Writer

open Text

/-! ## Rows -/

/-- A line that is emitted: the level to which it is indented, and what stands on it. -/
structure Row where
  level : Nat
  content : String

/-- The characters of a row, with its indentation. -/
def Row.chars (r : Row) : List Char :=
  List.replicate (2 * r.level) ' ' ++ r.content.toList

def Emitter.rows (rs : List Row) (e : Emitter) : Emitter :=
  rs.foldl (fun e r => e.line r.level r.content) e

theorem Emitter.rows_append (rs ss : List Row) (e : Emitter) :
    e.rows (rs ++ ss) = (e.rows rs).rows ss :=
  List.foldl_append

theorem toList_indent {e : Emitter} (hunit : e.unit = "  ") (level : Nat) :
    (e.indent level).toList = List.replicate (2 * level) ' ' := by
  rw [Emitter.indent, hunit, String.toList_join]
  induction level with
  | zero => rfl
  | succ level ih =>
      rw [List.replicate_succ, List.flatMap_cons, ih, Nat.mul_succ, Nat.add_comm,
        List.replicate_add]
      rfl

theorem toList_text_rows {e : Emitter} (hunit : e.unit = "  ") (rs : List Row) :
    (e.rows rs).text.toList = e.text.toList ++ rs.flatMap fun r => r.chars ++ ['\n'] := by
  induction rs generalizing e with
  | nil => simp [Emitter.rows]
  | cons r rs ih =>
      have hrest : (e.rows (r :: rs)) = (e.line r.level r.content).rows rs := rfl
      have hunit' : (e.line r.level r.content).unit = "  " := hunit
      rw [hrest, ih hunit', Emitter.line]
      simp only [String.toList_append, toList_indent hunit, Row.chars, List.flatMap_cons,
        List.append_assoc]
      rfl

/-! ## Nesting -/

/-- The line has matching braces, and is no lone brace. -/
structure PlainLine (content : String) : Prop where
  inline : Inline content.toList
  solid : Solid content.toList

/-- The line ends with a brace that it does not close. -/
def OpeningLine (content : String) : Prop :=
  ∃ head, content.toList = head ++ ['{'] ∧ Inline head ∧ Solid head

def ClosingLine (content : String) : Prop :=
  content = "\x7d"

inductive Nest : List Row → Prop where
  | nil : Nest []
  | plain {r : Row} (h : PlainLine r.content) : Nest [r]
  | block {o c : Row} {inside : List Row} (hopen : OpeningLine o.content)
      (hclose : ClosingLine c.content) (hlevel : o.level = c.level) (h : Nest inside) :
      Nest (o :: (inside ++ [c]))
  | append {rs ss : List Row} (hrs : Nest rs) (hss : Nest ss) : Nest (rs ++ ss)

section Nest

variable {rs : List Row}

theorem ClosingLine.chars {r : Row} (h : ClosingLine r.content) :
    r.chars = List.replicate (2 * r.level) ' ' ++ ['}'] := by
  rw [Row.chars, h]
  rfl

theorem OpeningLine.solid {content : String} (h : OpeningLine content) :
    Solid content.toList := by
  obtain ⟨head, hhead, -, hsolid⟩ := h
  rw [hhead]
  exact hsolid.append ['{']

theorem not_closingLine_of_solid {content : String} (h : Solid content.toList) :
    ¬ ClosingLine content := by
  intro hclose
  obtain ⟨c, rest, hcs, -, hc⟩ := h
  rw [hclose] at hcs
  cases hcs
  exact hc rfl

/-- Whatever stands between the rows, if it has no braces, all braces match. -/
theorem Nest.balanced (h : Nest rs) (sep : List Char) (hopen : '{' ∉ sep) (hclose : '}' ∉ sep) :
    Balanced (rs.flatMap fun r => r.chars ++ sep) := by
  have hsep : Balanced sep := balanced_of_not_mem hopen hclose
  have hblanks (n : Nat) : Balanced (List.replicate n ' ') := by
    refine balanced_of_not_mem ?_ ?_ <;> simp [List.mem_replicate]
  induction h with
  | nil => exact balanced_of_not_mem List.not_mem_nil List.not_mem_nil
  | @plain r h =>
      rw [List.flatMap_singleton, Row.chars]
      exact ((hblanks _).append h.inline.balanced).append hsep
  | @block o c inside hopens hcloses hlevel hinside ih =>
      obtain ⟨head, hhead, hinline, -⟩ := hopens
      have hinner := (hsep.append ih).append (hblanks (2 * c.level))
      have hall := (((hblanks (2 * o.level)).append hinline.balanced).append hinner.braces).append
        hsep
      rw [List.flatMap_cons, List.flatMap_append, List.flatMap_singleton, hcloses.chars,
        Row.chars, hhead]
      simpa using hall
  | append hrs hss ihrs ihss =>
      rw [List.flatMap_append]
      exact ihrs.append ihss

/-- Where a row stands in one of two lists: in the first, or after all of it. -/
theorem append_eq_append_cons {ss before after : List Row} {c : Row}
    (h : rs ++ ss = before ++ c :: after) :
    (∃ rest, rs = before ++ c :: rest) ∨ ∃ more, before = rs ++ more ∧ ss = more ++ c :: after := by
  rcases List.append_eq_append_iff.mp h with ⟨more, hbefore, hss⟩ | ⟨rest, hrs, hrest⟩
  · exact .inr ⟨more, hbefore, hss⟩
  · cases rest with
    | nil => exact .inr ⟨[], by simpa using hrs.symm, hrest.symm⟩
    | cons c' rest =>
        cases hrest
        exact .inl ⟨rest, hrs⟩

/-- A row that closes a block comes after one that opens it, on the same level, and the rows
between them nest. -/
theorem Nest.exists_opens (h : Nest rs) {before after : List Row} {c : Row}
    (hrs : rs = before ++ c :: after) (hc : ClosingLine c.content) :
    ∃ first o inside, before = first ++ o :: inside ∧ OpeningLine o.content ∧
      o.level = c.level ∧ Nest inside := by
  induction h generalizing before after with
  | nil => cases before <;> cases hrs
  | @plain r h =>
      have hmem : c ∈ [r] := hrs ▸ List.mem_append_right before List.mem_cons_self
      obtain rfl := List.mem_singleton.mp hmem
      exact absurd hc (not_closingLine_of_solid h.solid)
  | @block o c' inside hopens hcloses hlevel hinside ih =>
      cases before with
      | nil =>
          cases hrs
          exact absurd hc (not_closingLine_of_solid hopens.solid)
      | cons o' before =>
          rw [List.cons_append, List.cons.injEq] at hrs
          obtain ⟨rfl, hrs⟩ := hrs
          rcases append_eq_append_cons hrs with ⟨rest, hin⟩ | ⟨more, hbefore, hlast⟩
          · obtain ⟨first, o', between, rfl, hbetween⟩ := ih hin
            exact ⟨o :: first, o', between, rfl, hbetween⟩
          · -- The row is the one that closes the block itself.
            cases more with
            | nil =>
                cases hlast
                exact ⟨[], o, inside, by rw [hbefore, List.append_nil]; rfl, hopens, hlevel,
                  hinside⟩
            | cons _ more => cases more <;> cases hlast
  | append hrs' hss ihrs ihss =>
      rcases append_eq_append_cons hrs with ⟨rest, hin⟩ | ⟨more, rfl, hin⟩
      · exact ihrs hin
      · obtain ⟨first, o, inside, rfl, hinside⟩ := ihss hin
        exact ⟨_ ++ first, o, inside, (List.append_assoc ..).symm, hinside⟩

/-! ## The lines of a text -/

theorem newline_not_mem_chars {r : Row} (h : '\n' ∉ r.content.toList) : '\n' ∉ r.chars := by
  rw [Row.chars, List.mem_append, List.mem_replicate]
  exact not_or.mpr ⟨fun h => absurd h.2 (by decide), h⟩

/-- No row that nests runs over a line. -/
theorem Nest.newline_not_mem (h : Nest rs) : ∀ r ∈ rs, '\n' ∉ r.chars := by
  intro r hr
  apply newline_not_mem_chars
  induction h with
  | nil => exact absurd hr List.not_mem_nil
  | plain h =>
      obtain rfl := List.mem_singleton.mp hr
      exact h.inline.newline
  | @block o c inside hopens hcloses hlevel hinside ih =>
      rw [List.mem_cons, List.mem_append, List.mem_singleton] at hr
      rcases hr with rfl | hr | rfl
      · obtain ⟨head, hhead, hinline, -⟩ := hopens
        have hnewline := hinline.newline
        rw [hhead]
        simp [hnewline]
      · exact ih hr
      · rw [hcloses]
        decide
  | append hrs hss ihrs ihss => exact (List.mem_append.mp hr).elim ihrs ihss

theorem lines_rows (h : ∀ r ∈ rs, '\n' ∉ r.chars) :
    lines (rs.flatMap fun r => r.chars ++ ['\n']) = rs.map Row.chars ++ [[]] := by
  induction rs with
  | nil => rfl
  | cons r rs ih =>
      obtain ⟨hr, hrs⟩ := List.forall_mem_cons.mp h
      rw [List.flatMap_cons, List.append_assoc, List.singleton_append,
        lines_append_of_not_mem hr (lines_newline _), ih hrs, List.append_nil]
      rfl

/-- A row that nests begins like a line of text, or closes a block. -/
theorem Nest.solid_or_closes (h : Nest rs) :
    ∀ r ∈ rs, Solid r.content.toList ∨ ClosingLine r.content := by
  intro r hr
  induction h with
  | nil => exact absurd hr List.not_mem_nil
  | plain h =>
      obtain rfl := List.mem_singleton.mp hr
      exact .inl h.solid
  | block hopens hcloses hlevel hinside ih =>
      rw [List.mem_cons, List.mem_append, List.mem_singleton] at hr
      rcases hr with rfl | hr | rfl
      · exact .inl hopens.solid
      · exact ih hr
      · exact .inr hcloses
  | append hrs hss ihrs ihss => exact (List.mem_append.mp hr).elim ihrs ihss

/-- A row that begins like a line of text is no lone brace, whatever its indentation. -/
theorem trim_chars_ne {r : Row} (h : Solid r.content.toList) : trim r.chars ≠ ['}'] := by
  obtain ⟨c, rest, hcs, hblank, hc⟩ := h
  intro htrim
  have hhead := congrArg List.head? htrim
  rw [Row.chars, hcs, head?_trim (isBlank_of_mem_replicate _) hblank] at hhead
  exact hc (Option.some.inj hhead)

theorem takeWhile_chars {r : Row} {c : Char} {rest : List Char} (h : r.content.toList = c :: rest)
    (hc : isBlank c = false) : r.chars.takeWhile isBlank = List.replicate (2 * r.level) ' ' := by
  rw [Row.chars, h, takeWhile_blanks (isBlank_of_mem_replicate _) hc]

theorem Nest.aligned (h : Nest rs) : Aligned (rs.map Row.chars ++ [[]]) := by
  intro j l hl htrim
  have hj : j < rs.length := by
    by_contra hj
    rw [List.getElem?_append_right (by simpa using hj)] at hl
    obtain rfl := List.mem_singleton.mp (List.mem_of_getElem? hl)
    cases htrim
  have hsplit : rs = rs.take j ++ rs[j] :: rs.drop (j + 1) := by
    rw [List.getElem_cons_drop, List.take_append_drop]
  rw [List.getElem?_append_left (by simpa using hj), List.getElem?_map,
    List.getElem?_eq_getElem hj] at hl
  obtain rfl := Option.some.inj hl
  have hcloses : ClosingLine (rs[j]).content :=
    (h.solid_or_closes _ (List.getElem_mem hj)).resolve_left fun hs => trim_chars_ne hs htrim
  obtain ⟨first, o, inside, hbefore, hopens, hlevel, hinside⟩ := h.exists_opens hsplit hcloses
  obtain ⟨c, rest, hcs, hblank, -⟩ := hopens.solid
  obtain ⟨head, hhead, -⟩ := hopens
  -- Before the line stand the lines of `first`, the one that opens the block, and `inside`.
  have htake : (rs.map Row.chars ++ [[]]).take j
      = first.map Row.chars ++ o.chars :: inside.map Row.chars := by
    rw [List.take_append_of_le_length (by simpa using hj.le), ← List.map_take, hbefore,
      List.map_append, List.map_cons]
  have hlength : j = first.length + (inside.length + 1) := by
    have hlengths := congrArg List.length hbefore
    rw [List.length_take_of_le hj.le, List.length_append] at hlengths
    exact hlengths
  have hi : first.length < j := by omega
  refine ⟨first.length, o.chars, hi, ?_, ?_, ?_, ?_⟩
  · rw [← List.getElem?_take_of_lt hi, htake, List.getElem?_append_right (by simp)]
    simp
  · rw [Row.chars, hhead, ← List.append_assoc, List.getLast?_concat]
  · rw [takeWhile_chars hcs hblank, hlevel, hcloses.chars,
      takeWhile_blanks (isBlank_of_mem_replicate _) (by decide)]
  · have hbalanced := hinside.balanced [] List.not_mem_nil List.not_mem_nil
    have hdrop : (first.map Row.chars).drop (first.length + 1) = [] :=
      List.drop_eq_nil_of_le (by simp)
    rw [htake, List.drop_append, hdrop]
    simpa [List.flatMap_def] using hbalanced

end Nest

end SiteConf.Writer
