import SiteConf.Proofs.Directives
import SiteConf.Proofs.LineLocality

set_option autoImplicit false

/-! # The structure of conditional blocks

Openers and closers match like brackets: `Nested` is the grammar of lines in which every opener
has its closer. The openers that have no closer yet are what the stack of open blocks holds
(`pending`), and a text is resolved exactly if it is nested and every opener has one name
(`resolveBlocks_by_nesting`).

`pending` leaves the conditions out, since which blocks are open does not depend on them. What it
says of the lines is proved by two inductions: `Unclosed` describes the lines that have led to a
stack, and `closesOut_or_suffix` describes the lines that come. -/

namespace SiteConf.Source

open Text

/-! ## Matching -/

/-- Lines in which openers and closers match. -/
inductive Nested : List (List Char) → Prop where
  | nil : Nested []
  | text {l : List Char} {ls : List (List Char)} (hopener : ¬ IsOpener l) (hcloser : ¬ IsCloser l)
      (hls : Nested ls) : Nested (l :: ls)
  | block {o c : List Char} {body rest : List (List Char)} (ho : IsOpener o)
      (hbody : Nested body) (hc : IsCloser c) (hrest : Nested rest) :
      Nested (o :: (body ++ c :: rest))

/-- The lines behind an opener hold the closer that matches it. -/
def ClosedIn (ls : List (List Char)) : Prop :=
  ∃ body c rest, ls = body ++ c :: rest ∧ Nested body ∧ IsCloser c

/-- The lines before a closer hold the opener that it matches. -/
def OpenedIn (ls : List (List Char)) : Prop :=
  ∃ before o body, ls = before ++ o :: body ∧ IsOpener o ∧ Nested body

/-- The line at index `i` lies in a block on the condition: the opener is before it, and the closer
that matches the opener is behind it. -/
def Encloses (ls : List (List Char)) (i : Nat) (wanted : Bool) (name : String) : Prop :=
  ∃ before o body c rest, ls = before ++ o :: (body ++ c :: rest) ∧ OpensOn wanted name o ∧
    Nested body ∧ IsCloser c ∧ before.length < i ∧ i ≤ before.length + body.length

/-- The line at index `i` cannot stand where it does: it is an opener without exactly one name, or
a closer that matches no opener. -/
def OffendsAt (ls : List (List Char)) (i : Nat) (e : Error) : Prop :=
  ∃ l, ls[i]? = some l ∧
    ((IsOpener l ∧ (∀ wanted name, ¬ OpensOn wanted name l) ∧
        e = .badSyntax (some (i + 1)) .conditionName) ∨
      (IsCloser l ∧ ¬ OpenedIn (ls.take i) ∧ e = .unbalanced (some (i + 1)) .strayEnd))

/-- The line at index `i` is an opener without a closer. -/
def NeverClosed (ls : List (List Char)) (i : Nat) : Prop :=
  ∃ l, ls[i]? = some l ∧ IsOpener l ∧ ¬ ClosedIn (ls.drop (i + 1))

theorem eq_take_append_cons_drop {ls : List (List Char)} {i : Nat} {l : List Char}
    (h : ls[i]? = some l) : ls = ls.take i ++ l :: ls.drop (i + 1) := by
  obtain ⟨hlt, hget⟩ := List.getElem?_eq_some_iff.mp h
  rw [← hget, List.getElem_cons_drop, List.take_append_drop]

theorem Nested.append {ls ms : List (List Char)} (hls : Nested ls) (hms : Nested ms) :
    Nested (ls ++ ms) := by
  induction hls with
  | nil => exact hms
  | text hopener hcloser _ ih => exact .text hopener hcloser ih
  | block ho hbody hc _ _ ihrest =>
      rw [List.cons_append, List.append_assoc, List.cons_append]
      exact .block ho hbody hc ihrest

/-- Lines that match do not decide whether a block around them is closed. -/
theorem Nested.staysOpen_iff {body rest : List (List Char)} (h : Nested body)
    (hwell : ∀ l ∈ body, directive? l ≠ some .malformed) {depth : Nat} :
    StaysOpen depth (body ++ rest) ↔ StaysOpen depth rest := by
  induction h generalizing depth rest with
  | nil => rfl
  | text hopener hcloser _ ih =>
      have hl := directive?_eq_none_iff.mpr ⟨hopener, hcloser⟩
      obtain ⟨-, hwell⟩ := List.forall_mem_cons.mp hwell
      rw [List.cons_append]
      constructor
      · intro hopen
        exact (ih hwell).mp (hopen.after_text hl)
      · intro hopen
        exact ((ih hwell).mpr hopen).before_text hl
  | @block o c body rest' ho _ hc _ ihbody ihrest =>
      obtain ⟨hfirst, hwell⟩ := List.forall_mem_cons.mp hwell
      obtain ⟨hbody, hrest⟩ := List.forall_mem_append.mp hwell
      obtain ⟨-, hrest⟩ := List.forall_mem_cons.mp hrest
      obtain ⟨wanted, name, hname⟩ : ∃ wanted name, directive? o = some (.opener wanted name) := by
        by_contra hnone
        push Not at hnone
        exact hfirst (directive?_eq_malformed_iff.mpr
          ⟨ho, fun wanted name h => hnone wanted name (directive?_eq_opener_iff.mpr h)⟩)
      have hclose := directive?_of_isCloser hc
      rw [List.cons_append, List.append_assoc, List.cons_append]
      constructor
      · intro hopen
        obtain ⟨outer, houter, hopen⟩ :=
          ((ihbody hbody).mp (hopen.after_opener hname)).after_closer hclose
        cases houter
        exact (ihrest hrest).mp hopen
      · intro hopen
        have hinner := ((ihrest hrest).mpr hopen).before_closer hclose
        exact ((ihbody hbody).mpr hinner).before_opener hname

/-! ## The stack of open blocks -/

/-- The indices of the openers that are still open behind the lines, the last one first, for lines
from `index` on inside the openers `opened`. A closer without an opener gives nothing. -/
def pending (index : Nat) (opened : List Nat) : List (List Char) → Option (List Nat)
  | [] => some opened
  | l :: ls =>
      match directive? l with
      | none => pending (index + 1) opened ls
      | some .closer =>
          match opened with
          | _ :: outer => pending (index + 1) outer ls
          | [] => none
      | some _ => pending (index + 1) (index :: opened) ls

section Pending

variable {index k : Nat} {opened final : List Nat} {l : List Char} {ls : List (List Char)}

theorem pending_text (hopener : ¬ IsOpener l) (hcloser : ¬ IsCloser l) :
    pending index opened (l :: ls) = pending (index + 1) opened ls := by
  simp only [pending, directive?_eq_none_iff.mpr ⟨hopener, hcloser⟩]

theorem pending_opener (h : IsOpener l) :
    pending index opened (l :: ls) = pending (index + 1) (index :: opened) ls := by
  obtain ⟨wanted, names, hnames⟩ := h
  rcases hnames' : opening wanted names with ⟨held, name⟩ | _ | _
  · simp only [pending, directive?_of_opening hnames, hnames']
  · exact absurd hnames' opening_ne_closer
  · simp only [pending, directive?_of_opening hnames, hnames']

theorem pending_closer (h : IsCloser l) :
    pending index opened (l :: ls)
      = match opened with
        | _ :: outer => pending (index + 1) outer ls
        | [] => none := by
  cases opened <;> simp only [pending, directive?_of_isCloser h]

theorem pending_append (p : List (List Char)) :
    pending index opened (p ++ ls)
      = (pending index opened p).bind fun opened' => pending (index + p.length) opened' ls := by
  induction p generalizing index opened with
  | nil => rfl
  | cons l p ih =>
      rw [List.cons_append, List.length_cons, show index + (p.length + 1) = index + 1 + p.length by
        omega]
      rcases directive_cases l
        with ⟨wanted, names, hnames, -⟩ | ⟨hcloser, -⟩ | ⟨hopener, hcloser, -⟩
      · rw [pending_opener ⟨wanted, names, hnames⟩, pending_opener ⟨wanted, names, hnames⟩, ih]
      · rw [pending_closer hcloser, pending_closer hcloser]
        cases opened with
        | nil => rfl
        | cons first outer => exact ih
      · rw [pending_text hopener hcloser, pending_text hopener hcloser, ih]

/-- Lines that match leave the stack as it was. -/
theorem Nested.pending {body : List (List Char)} (h : Nested body) :
    pending index opened body = some opened := by
  induction h generalizing index opened with
  | nil => rfl
  | text hopener hcloser _ ih => rw [pending_text hopener hcloser, ih]
  | block ho _ hc _ ihbody ihrest =>
      rw [pending_opener ho, pending_append, ihbody, Option.bind_some, pending_closer hc]
      exact ihrest

/-- What is open behind the lines was open before, or was opened on one of them. -/
theorem of_mem_pending (h : pending index opened ls = some final) (hk : k ∈ final) :
    k ∈ opened ∨ index ≤ k := by
  induction ls generalizing index opened with
  | nil =>
      cases h
      exact .inl hk
  | cons l ls ih =>
      rcases directive_cases l
        with ⟨wanted, names, hnames, -⟩ | ⟨hcloser, -⟩ | ⟨hopener, hcloser, -⟩
      · rw [pending_opener ⟨wanted, names, hnames⟩] at h
        rcases ih h with hmem | hlt
        · exact (List.mem_cons.mp hmem).symm.imp_right fun heq => heq.ge
        · exact .inr (by omega)
      · rw [pending_closer hcloser] at h
        cases opened with
        | nil => cases h
        | cons first outer => exact (ih h).imp (List.mem_cons_of_mem first) (by omega)
      · rw [pending_text hopener hcloser] at h
        exact (ih h).imp_right (by omega)

/-- The stack is in the order of the lines. -/
theorem pairwise_pending (h : pending index opened ls = some final)
    (hopened : (index :: opened).Pairwise (· > ·)) : final.Pairwise (· > ·) := by
  induction ls generalizing index opened with
  | nil =>
      cases h
      exact (List.pairwise_cons.mp hopened).2
  | cons l ls ih =>
      obtain ⟨hlt, hsorted⟩ := List.pairwise_cons.mp hopened
      rcases directive_cases l
        with ⟨wanted, names, hnames, -⟩ | ⟨hcloser, -⟩ | ⟨hopener, hcloser, -⟩
      · rw [pending_opener ⟨wanted, names, hnames⟩] at h
        refine ih h (List.pairwise_cons.mpr ⟨fun x hx => ?_, hopened⟩)
        rcases List.mem_cons.mp hx with rfl | hx
        · exact Nat.lt_succ_self x
        · exact Nat.lt_succ_of_lt (hlt x hx)
      · rw [pending_closer hcloser] at h
        cases opened with
        | nil => cases h
        | cons first outer =>
            obtain ⟨-, houter⟩ := List.pairwise_cons.mp hsorted
            refine ih h (List.pairwise_cons.mpr ⟨fun x hx => ?_, houter⟩)
            exact Nat.lt_succ_of_lt (hlt x (List.mem_cons_of_mem first hx))
      · rw [pending_text hopener hcloser] at h
        refine ih h (List.pairwise_cons.mpr ⟨fun x hx => ?_, hsorted⟩)
        exact Nat.lt_succ_of_lt (hlt x hx)

/-! ## What the lines before have opened -/

/-- Lines whose openers without a closer are those at the given indices: what is between them
matches. -/
inductive Unclosed : List (List Char) → List Nat → Prop where
  | nested {p : List (List Char)} (h : Nested p) : Unclosed p []
  | opener {p : List (List Char)} {opened : List Nat} {o : List Char} {body : List (List Char)}
      (hp : Unclosed p opened) (ho : IsOpener o) (hbody : Nested body) :
      Unclosed (p ++ o :: body) (p.length :: opened)

theorem Unclosed.append {p body : List (List Char)} (h : Unclosed p opened) (hbody : Nested body) :
    Unclosed (p ++ body) opened := by
  cases h with
  | nested hp => exact .nested (hp.append hbody)
  | opener hp ho hinner =>
      rw [List.append_assoc, List.cons_append]
      exact .opener hp ho (hinner.append hbody)

theorem Unclosed.after {p : List (List Char)} (hp : Unclosed p opened)
    (h : pending p.length opened ls = some final) : Unclosed (p ++ ls) final := by
  induction ls generalizing p opened with
  | nil =>
      cases h
      rw [List.append_nil]
      exact hp
  | cons l ls ih =>
      have hlength : (p ++ [l]).length = p.length + 1 := by simp
      rw [← List.singleton_append, ← List.append_assoc]
      rcases directive_cases l
        with ⟨wanted, names, hnames, -⟩ | ⟨hcloser, -⟩ | ⟨hopener, hcloser, -⟩
      · rw [pending_opener ⟨wanted, names, hnames⟩, ← hlength] at h
        exact ih (.opener hp ⟨wanted, names, hnames⟩ .nil) h
      · rw [pending_closer hcloser] at h
        cases hp with
        | nested => cases h
        | @opener q outer o body hq ho hbody =>
            -- the line closes the block of the last opener, and the whole block matches
            refine ih ?_ (by rw [hlength]; exact h)
            rw [List.append_assoc, List.cons_append]
            exact hq.append (.block ho hbody hcloser .nil)
      · rw [pending_text hopener hcloser, ← hlength] at h
        exact ih (hp.append (.text hopener hcloser .nil)) h

theorem nested_iff_pending : Nested ls ↔ pending 0 [] ls = some [] := by
  refine ⟨Nested.pending, fun h => ?_⟩
  have hunclosed := (Unclosed.nested .nil).after h
  rw [List.nil_append] at hunclosed
  cases hunclosed
  assumption

/-- A closer has an opener if and only if the stack before it is not empty. -/
theorem openedIn_iff (h : pending 0 [] ls = some opened) : OpenedIn ls ↔ opened ≠ [] := by
  constructor
  · rintro ⟨before, o, body, rfl, ho, hbody⟩ rfl
    rw [pending_append] at h
    obtain ⟨opened, -, hrest⟩ := Option.bind_eq_some_iff.mp h
    rw [pending_opener ho, hbody.pending] at hrest
    cases hrest
  · intro hne
    have hunclosed := (Unclosed.nested .nil).after h
    rw [List.nil_append] at hunclosed
    cases hunclosed with
    | nested => exact absurd rfl hne
    | opener hp ho hbody => exact ⟨_, _, _, rfl, ho, hbody⟩

/-! ## What the lines behind close -/

/-- The lines close the blocks around them up to the block outside of `depth` others. -/
def ClosesOut : Nat → List (List Char) → Prop
  | 0, ls => ClosedIn ls
  | depth + 1, ls => ∃ body c rest, ls = body ++ c :: rest ∧ Nested body ∧ IsCloser c ∧
      ClosesOut depth rest

theorem ClosesOut.of_closer {depth : Nat} (hl : IsCloser l) (h : ClosesOut depth ls) :
    ClosesOut (depth + 1) (l :: ls) :=
  ⟨[], l, ls, rfl, .nil, hl, h⟩

/-- Lines that match may be put in front. -/
theorem ClosesOut.append_left {depth : Nat} {body : List (List Char)} (hbody : Nested body)
    (h : ClosesOut depth ls) : ClosesOut depth (body ++ ls) := by
  cases depth with
  | zero =>
      obtain ⟨inner, c, rest, rfl, hinner, hc⟩ := h
      exact ⟨body ++ inner, c, rest, by rw [List.append_assoc], hbody.append hinner, hc⟩
  | succ depth =>
      obtain ⟨inner, c, rest, rfl, hinner, hc, hrest⟩ := h
      exact ⟨body ++ inner, c, rest, by rw [List.append_assoc], hbody.append hinner, hc, hrest⟩

theorem ClosesOut.of_opener {depth : Nat} (hl : IsOpener l) (h : ClosesOut (depth + 1) ls) :
    ClosesOut depth (l :: ls) := by
  obtain ⟨body, c, rest, rfl, hbody, hc, hrest⟩ := h
  have hblock : Nested (l :: (body ++ [c])) := .block hl hbody hc .nil
  have hout := hrest.append_left hblock
  rw [List.cons_append, List.append_assoc] at hout
  exact hout

/-- **A block is closed by the lines or stays on the stack.** -/
theorem closesOut_or_suffix (above : List Nat) {below : List Nat}
    (h : pending index (above ++ k :: below) ls = some final) :
    ClosesOut above.length ls ∨ k :: below <:+ final := by
  induction ls generalizing index above with
  | nil =>
      cases h
      exact .inr (List.suffix_append above _)
  | cons l ls ih =>
      rcases directive_cases l
        with ⟨wanted, names, hnames, -⟩ | ⟨hcloser, -⟩ | ⟨hopener, hcloser, -⟩
      · rw [pending_opener ⟨wanted, names, hnames⟩, ← List.cons_append] at h
        exact (ih _ h).imp_left fun hout => hout.of_opener ⟨wanted, names, hnames⟩
      · rw [pending_closer hcloser] at h
        cases above with
        | nil => exact .inl ⟨[], l, ls, rfl, .nil, hcloser⟩
        | cons first above => exact (ih above h).imp_left fun hout => hout.of_closer hcloser
      · rw [pending_text hopener hcloser] at h
        exact (ih above h).imp_left fun hout => hout.append_left (.text hopener hcloser .nil)

/-- What stays on the stack is an opener that the lines do not close. -/
theorem exists_opener_of_mem_pending (h : pending index opened ls = some final)
    (hopened : ∀ x ∈ opened, x < index) (hk : k ∈ final) (hlt : index ≤ k) :
    ∃ before o rest, ls = before ++ o :: rest ∧ k = index + before.length ∧ IsOpener o ∧
      ¬ ClosedIn rest := by
  induction ls generalizing index opened with
  | nil =>
      cases h
      exact absurd (hopened k hk) (by omega)
  | cons l ls ih =>
      -- a later opener is one of the whole
      have hlater : (∃ before o rest, ls = before ++ o :: rest ∧ k = index + 1 + before.length ∧
          IsOpener o ∧ ¬ ClosedIn rest) →
          ∃ before o rest, l :: ls = before ++ o :: rest ∧ k = index + before.length ∧
            IsOpener o ∧ ¬ ClosedIn rest := by
        rintro ⟨before, o, rest, rfl, hindex, hrest⟩
        refine ⟨l :: before, o, rest, rfl, ?_, hrest⟩
        rw [List.length_cons]
        omega
      rcases directive_cases l
        with ⟨wanted, names, hnames, -⟩ | ⟨hcloser, -⟩ | ⟨hopener, hcloser, -⟩
      · rw [pending_opener ⟨wanted, names, hnames⟩] at h
        rcases Nat.eq_or_lt_of_le hlt with rfl | hlt
        · refine ⟨[], l, ls, rfl, rfl, ⟨wanted, names, hnames⟩, ?_⟩
          rintro ⟨body, c, rest, rfl, hbody, hc⟩
          rw [pending_append, hbody.pending, Option.bind_some, pending_closer hc] at h
          rcases of_mem_pending h hk with hmem | hle
          · exact absurd (hopened _ hmem) (by omega)
          · omega
        · refine hlater (ih h (fun x hx => ?_) hlt)
          rcases List.mem_cons.mp hx with rfl | hx
          · exact Nat.lt_succ_self x
          · exact Nat.lt_succ_of_lt (hopened x hx)
      · rw [pending_closer hcloser] at h
        cases opened with
        | nil => cases h
        | cons first outer =>
            have hne : index ≠ k := by
              rintro rfl
              rcases of_mem_pending h hk with hmem | hle
              · exact absurd (hopened _ (List.mem_cons_of_mem first hmem)) (by omega)
              · omega
            refine hlater (ih h (fun x hx => ?_) (by omega))
            exact Nat.lt_succ_of_lt (hopened x (List.mem_cons_of_mem first hx))
      · rw [pending_text hopener hcloser] at h
        have hne : index ≠ k := by
          rintro rfl
          rcases of_mem_pending h hk with hmem | hle
          · exact absurd (hopened _ hmem) (by omega)
          · omega
        exact hlater (ih h (fun x hx => Nat.lt_succ_of_lt (hopened x hx)) (by omega))

/-- **The openers on the stack at the end are those that are never closed.** -/
theorem mem_pending_iff (h : pending 0 [] ls = some final) : k ∈ final ↔ NeverClosed ls k := by
  constructor
  · intro hk
    obtain ⟨before, o, rest, rfl, hindex, ho, hrest⟩ :=
      exists_opener_of_mem_pending h (List.forall_mem_nil _) hk (Nat.zero_le k)
    obtain rfl : k = before.length := by omega
    refine ⟨o, by simp, ho, ?_⟩
    rw [List.drop_append, List.drop_eq_nil_of_le (by omega), show before.length + 1 - before.length
      = 1 by omega]
    exact hrest
  · rintro ⟨o, hk, ho, hclosed⟩
    have hlt : k < ls.length := (List.getElem?_eq_some_iff.mp hk).1
    rw [eq_take_append_cons_drop hk, pending_append] at h
    obtain ⟨opened, -, hrest⟩ := Option.bind_eq_some_iff.mp h
    rw [pending_opener ho, List.length_take, Nat.min_eq_left hlt.le, Nat.zero_add] at hrest
    rcases closesOut_or_suffix [] hrest with hout | hsuffix
    · exact absurd hout hclosed
    · exact hsuffix.subset List.mem_cons_self

end Pending

/-! ## Runs -/

/-- How a run over the lines breaks off: at an opener without exactly one name, at a closer without
an opener, or at the end with openers left. -/
inductive Breaks (index : Nat) (opened : List Nat) (ls : List (List Char)) : Error → Prop where
  | malformed {p rest : List (List Char)} {l : List Char} {opened' : List Nat}
      (hls : ls = p ++ l :: rest) (hwell : ∀ m ∈ p, directive? m ≠ some .malformed)
      (hp : pending index opened p = some opened') (hl : directive? l = some .malformed) :
      Breaks index opened ls (.badSyntax (some (index + p.length + 1)) .conditionName)
  | stray {p rest : List (List Char)} {l : List Char} (hls : ls = p ++ l :: rest)
      (hwell : ∀ m ∈ p, directive? m ≠ some .malformed) (hp : pending index opened p = some [])
      (hl : directive? l = some .closer) :
      Breaks index opened ls (.unbalanced (some (index + p.length + 1)) .strayEnd)
  | unclosed {final : List Nat} {last : Nat} (hwell : ∀ m ∈ ls, directive? m ≠ some .malformed)
      (h : pending index opened ls = some final) (hlast : final.getLast? = some last) :
      Breaks index opened ls (.unbalanced (some (last + 1)) (.neverClosed final.length))

section Runs

variable {conditions : Conditions} {index : Nat} {blocks : List Block}
  {ls out : List (List Char)} {e : Error}

/-- A run that breaks off behind a line breaks off with the line. -/
theorem Breaks.cons {opened opened' : List Nat} {l : List Char}
    (h : Breaks (index + 1) opened' ls e)
    (hl : directive? l ≠ some .malformed)
    (hstep : ∀ p, pending index opened (l :: p) = pending (index + 1) opened' p) :
    Breaks index opened (l :: ls) e := by
  cases h with
  | @malformed p rest m final hls hwell hp hm =>
      rw [show index + 1 + p.length + 1 = index + (l :: p).length + 1 by
        rw [List.length_cons]; omega]
      exact .malformed (by rw [hls]; rfl) (List.forall_mem_cons.mpr ⟨hl, hwell⟩)
        ((hstep p).trans hp) hm
  | @stray p rest m hls hwell hp hm =>
      rw [show index + 1 + p.length + 1 = index + (l :: p).length + 1 by
        rw [List.length_cons]; omega]
      exact .stray (by rw [hls]; rfl) (List.forall_mem_cons.mpr ⟨hl, hwell⟩)
        ((hstep p).trans hp) hm
  | unclosed hwell h hlast =>
      exact .unclosed (List.forall_mem_cons.mpr ⟨hl, hwell⟩) ((hstep ls).trans h) hlast

/-- **A run that fails breaks off** where the stack of its blocks says. -/
theorem breaks_of_resolveLines (opened : List Nat)
    (hblocks : blocks.map (·.line) = opened.map (· + 1))
    (h : resolveLines conditions (index + 1) blocks ls = .error e) :
    Breaks index opened ls e := by
  induction ls generalizing index opened blocks with
  | nil =>
      rw [resolveLines] at h
      rcases hlast : blocks.getLast? with _ | first
      · simp only [hlast] at h
        cases h
      · simp only [hlast] at h
        cases h
        have hlines := congrArg List.getLast? hblocks
        rw [List.getLast?_map, List.getLast?_map, hlast] at hlines
        obtain ⟨last, hopened, hline⟩ := Option.map_eq_some_iff.mp hlines.symm
        have hlength : blocks.length = opened.length := by
          have hlen := congrArg List.length hblocks
          rwa [List.length_map, List.length_map] at hlen
        rw [show first.line = last + 1 from hline.symm, hlength]
        exact .unclosed (List.forall_mem_nil _) rfl hopened
  | cons l ls ih =>
      unfold resolveLines at h
      rcases hl : directive? l with _ | (⟨wanted, name⟩ | _ | _)
      · simp only [hl] at h
        obtain ⟨hopener, hcloser⟩ := directive?_eq_none_iff.mp hl
        refine (ih opened hblocks (Step.eq_error_of_map h)).cons (by simp [hl]) fun p => ?_
        exact pending_text hopener hcloser
      · simp only [hl] at h
        have hblocks' :
            (⟨Conditions.agree conditions wanted name, index + 1⟩ :: blocks).map (·.line)
              = (index :: opened).map (· + 1) := by
          rw [List.map_cons, List.map_cons, hblocks]
        refine (ih _ hblocks' (Step.eq_error_of_map h)).cons (by simp [hl]) fun p => ?_
        exact pending_opener (directive?_eq_opener_iff.mp hl).isOpener
      · have hcloser := directive?_eq_closer_iff.mp hl
        cases opened with
        | nil =>
            obtain rfl : blocks = [] := by simpa using hblocks
            simp only [hl] at h
            cases h
            exact .stray (p := []) rfl (List.forall_mem_nil _) rfl hl
        | cons first outer =>
            cases blocks with
            | nil => cases hblocks
            | cons block blocks =>
                simp only [hl] at h
                have hbreaks := ih outer (List.cons.inj hblocks).2 (Step.eq_error_of_map h)
                exact hbreaks.cons (by simp [hl]) fun p => pending_closer hcloser
      · simp only [hl] at h
        cases h
        exact .malformed (p := []) rfl (List.forall_mem_nil _) rfl hl

/-- A run that returns has met well-formed directives only, and closed all blocks. -/
theorem pending_of_resolveLines (opened : List Nat)
    (hblocks : blocks.map (·.line) = opened.map (· + 1))
    (h : resolveLines conditions (index + 1) blocks ls = .ok out) :
    (∀ l ∈ ls, directive? l ≠ some .malformed) ∧ pending index opened ls = some [] := by
  induction ls generalizing index opened blocks out with
  | nil =>
      rw [resolveLines] at h
      cases blocks with
      | nil =>
          obtain rfl : opened = [] := by simpa using hblocks.symm
          exact ⟨List.forall_mem_nil _, rfl⟩
      | cons block blocks =>
          rw [List.getLast?_cons] at h
          cases h
  | cons l ls ih =>
      obtain ⟨blocks', here, rest, hstep, hrest, -⟩ := exists_lineStep h
      rw [List.forall_mem_cons]
      cases hstep with
      | @opener _ _ wanted name hl =>
          have hblocks' : (⟨Conditions.agree conditions wanted name, index + 1⟩ :: blocks).map
              (·.line) = (index :: opened).map (· + 1) := by
            rw [List.map_cons, List.map_cons, hblocks]
          obtain ⟨hwell, hpending⟩ := ih _ hblocks' hrest
          refine ⟨⟨by simp [hl], hwell⟩, ?_⟩
          rw [pending_opener (directive?_eq_opener_iff.mp hl).isOpener, hpending]
      | closer hl =>
          cases opened with
          | nil => cases hblocks
          | cons first outer =>
              obtain ⟨hwell, hpending⟩ := ih outer (List.cons.inj hblocks).2 hrest
              refine ⟨⟨by simp [hl], hwell⟩, ?_⟩
              rw [pending_closer (directive?_eq_closer_iff.mp hl)]
              exact hpending
      | kept hl | dropped hl =>
          obtain ⟨hwell, hpending⟩ := ih opened hblocks hrest
          obtain ⟨hopener, hcloser⟩ := directive?_eq_none_iff.mp hl
          refine ⟨⟨by simp [hl], hwell⟩, ?_⟩
          rw [pending_text hopener hcloser, hpending]

theorem resolveLines_of_text (hls : ∀ l ∈ ls, directive? l = none) :
    resolveLines conditions index [] ls = .ok ls := by
  induction ls generalizing index with
  | nil => rfl
  | cons l ls ih =>
      obtain ⟨hl, hls⟩ := List.forall_mem_cons.mp hls
      unfold resolveLines
      simp only [hl, ih hls]
      rfl

/-- Lines that a run has passed do not offend. -/
theorem not_offendsAt {p rest : List (List Char)} {final : List Nat} {i : Nat}
    (hwell : ∀ l ∈ p, directive? l ≠ some .malformed) (hp : pending 0 [] p = some final)
    (hi : i < p.length) : ¬ OffendsAt (p ++ rest) i e := by
  rintro ⟨l, hl, hoffence⟩
  rw [List.getElem?_append_left hi] at hl
  rcases hoffence with ⟨hopener, hnames, -⟩ | ⟨hcloser, hopened, -⟩
  · exact hwell l (List.mem_of_getElem? hl) (directive?_eq_malformed_iff.mpr ⟨hopener, hnames⟩)
  · -- the stack before the closer is not empty
    rw [eq_take_append_cons_drop hl, pending_append] at hp
    obtain ⟨opened, htake, hrest⟩ := Option.bind_eq_some_iff.mp hp
    rw [pending_closer hcloser] at hrest
    apply hopened
    rw [List.take_append_of_le_length hi.le, openedIn_iff htake]
    rintro rfl
    cases hrest

end Runs

/-! ## Enclosing blocks -/

/-- A text line of a nested text lies in an inactive block if and only if a block whose condition
does not hold encloses it. -/
theorem inactive_take_iff {conditions : Conditions} {ls : List (List Char)} {i : Nat}
    {l : List Char} (hnested : Nested ls) (hwell : ∀ l ∈ ls, directive? l ≠ some .malformed)
    (hl : ls[i]? = some l) (htext : directive? l = none) :
    Inactive conditions (ls.take i) ↔
      ∃ wanted name, Encloses ls i wanted name ∧ conditions.contains name ≠ wanted := by
  have hlt : i < ls.length := (List.getElem?_eq_some_iff.mp hl).1
  have hsplit := eq_take_append_cons_drop hl
  have hlength : (ls.take i).length = i := by
    rw [List.length_take, Nat.min_eq_left hlt.le]
  have hagree : ∀ wanted name, Conditions.agree conditions wanted name = false ↔
      conditions.contains name ≠ wanted := by
    intro wanted name
    rw [Conditions.agree, beq_eq_false_iff_ne]
  constructor
  · rintro ⟨before, o, b, wanted, name, htake, ho, hcondition, hopen⟩
    have hopens := directive?_eq_opener_iff.mp ho
    rw [htake, List.append_assoc, List.cons_append] at hsplit
    have hwellb : ∀ m ∈ b, directive? m ≠ some .malformed := by
      intro m hm
      refine hwell m ((List.take_subset i ls) ?_)
      rw [htake]
      exact List.mem_append_right _ (List.mem_cons_of_mem o hm)
    -- the block is closed somewhere, since all blocks are
    have hclosed : ClosedIn (b ++ l :: ls.drop (i + 1)) := by
      have hpending : pending 0 [] ls = some [] := hnested.pending
      rw [hsplit, pending_append] at hpending
      obtain ⟨opened, -, hrest⟩ := Option.bind_eq_some_iff.mp hpending
      rw [pending_opener hopens.isOpener] at hrest
      rcases closesOut_or_suffix [] hrest with hout | hsuffix
      · exact hout
      · exact absurd (List.suffix_nil.mp hsuffix) (List.cons_ne_nil _ _)
    obtain ⟨body, c, rest, hbody, hnestedBody, hc⟩ := hclosed
    refine ⟨wanted, name, ⟨before, o, body, c, rest, ?_, hopens, hnestedBody, hc, ?_, ?_⟩,
      (hagree wanted name).mp hcondition⟩
    · rw [← hbody, ← hsplit]
    · rw [← hlength, htake, List.length_append, List.length_cons]
      omega
    · -- a closer before the line would have closed the block
      by_contra hlate
      rw [htake, List.length_append, List.length_cons] at hlength
      rcases List.append_eq_append_iff.mp hbody with ⟨more, hmore, hrest⟩ | ⟨more, hmore, hrest⟩
      · rw [hmore, List.length_append] at hlate
        cases more with
        | nil =>
            obtain ⟨rfl, -⟩ := List.cons.inj hrest
            rw [directive?_of_isCloser hc] at htext
            cases htext
        | cons m more =>
            rw [List.length_cons] at hlate
            omega
      · cases more with
        | nil =>
            obtain ⟨rfl, -⟩ := List.cons.inj hrest
            rw [directive?_of_isCloser hc] at htext
            cases htext
        | cons m more =>
            obtain ⟨rfl, -⟩ := List.cons.inj hrest
            have hwellBody : ∀ m ∈ body, directive? m ≠ some .malformed := by
              intro m hm
              refine hwellb m ?_
              rw [hmore]
              exact List.mem_append_left _ hm
            rw [hmore, hnestedBody.staysOpen_iff hwellBody] at hopen
            obtain ⟨outer, houter, -⟩ := hopen.after_closer (directive?_of_isCloser hc)
            cases houter
  · rintro ⟨wanted, name, ⟨before, o, body, c, rest, rfl, ho, hbody, hc, hlo, hhi⟩, hcondition⟩
    refine ⟨before, o, body.take (i - before.length - 1), wanted, name, ?_,
      directive?_eq_opener_iff.mpr ho, (hagree wanted name).mpr hcondition, ?_⟩
    · obtain ⟨j, rfl⟩ : ∃ j, i = before.length + (j + 1) := ⟨i - before.length - 1, by omega⟩
      rw [List.take_length_add_append, List.take_succ_cons,
        List.take_append_of_le_length (by omega)]
      congr 3
      omega
    · -- as long as the block goes on, it stays open
      have hwellBody : ∀ m ∈ body, directive? m ≠ some .malformed := by
        intro m hm
        apply hwell
        simp [hm]
      have hopen : StaysOpen 0 (body ++ []) := by
        rw [hbody.staysOpen_iff hwellBody]
        intro p hp
        rw [List.prefix_nil.mp hp]
        exact Nat.zero_le _
      rw [List.append_nil] at hopen
      intro p hp
      exact hopen p (hp.trans (List.take_prefix _ _))

/-! ## Resolving a text -/

/-- A line stays when it is no directive and all blocks that enclose it are on conditions that are
as wanted. -/
def Stays (conditions : Conditions) (ls : List (List Char)) (i : Nat) (l : List Char) : Prop :=
  ¬ IsOpener l ∧ ¬ IsCloser l ∧
    ∀ wanted name, Encloses ls i wanted name → conditions.contains name = wanted

/-- The error is that of the first line that offends. -/
def FirstOffence (ls : List (List Char)) (e : Error) : Prop :=
  ∃ i, OffendsAt ls i e ∧ ∀ j < i, ∀ e', ¬ OffendsAt ls j e'

/-- The error names the first opener that is never closed, and the number of such openers. -/
def LeftOpen (ls : List (List Char)) (e : Error) : Prop :=
  ∃ first more, (first :: more).Pairwise (· < ·) ∧
    (∀ i, i ∈ first :: more ↔ NeverClosed ls i) ∧
    e = .unbalanced (some (first + 1)) (.neverClosed (first :: more).length)

section Meaning

variable {conditions : Conditions} {ls out : List (List Char)} {e : Error}

theorem forall_ne_malformed_iff :
    (∀ l ∈ ls, directive? l ≠ some .malformed) ↔
      ∀ l ∈ ls, IsOpener l → ∃ wanted name, OpensOn wanted name l := by
  refine forall₂_congr fun l _ => ?_
  rw [Ne, directive?_eq_malformed_iff, not_and]
  refine forall_congr' fun _ => ?_
  push Not
  rfl

theorem resolveLines_eq_ok_iff (conditions : Conditions) :
    (∃ out, resolveLines conditions 1 [] ls = .ok out) ↔
      (∀ l ∈ ls, directive? l ≠ some .malformed) ∧ Nested ls := by
  rw [nested_iff_pending]
  constructor
  · rintro ⟨out, h⟩
    exact pending_of_resolveLines [] rfl h
  · rintro ⟨hwell, hpending⟩
    rcases h : resolveLines conditions 1 [] ls with e | out
    · -- nothing is left that the run could break off at
      exfalso
      cases breaks_of_resolveLines [] rfl h with
      | malformed hls _ _ hl => exact hwell _ (by rw [hls]; simp) hl
      | stray hls _ hp hl =>
          rw [hls, pending_append, hp, Option.bind_some,
            pending_closer (directive?_eq_closer_iff.mp hl)] at hpending
          cases hpending
      | unclosed _ hfinal hlast =>
          rw [hpending] at hfinal
          cases hfinal
          cases hlast
    · exact ⟨out, rfl⟩

theorem getElem?_of_stays (h : resolveLines conditions 1 [] ls = .ok out) {i : Nat}
    {l : List Char} (hl : ls[i]? = some l) :
    (Stays conditions ls i l → out[i]? = some l) ∧
      (¬ Stays conditions ls i l → out[i]? = some []) := by
  obtain ⟨hwell, hnested⟩ := (resolveLines_eq_ok_iff conditions).mp ⟨out, h⟩
  have hactive : ∀ htext : directive? l = none, Stays conditions ls i l ↔
      ¬ Inactive conditions (ls.take i) := by
    intro htext
    obtain ⟨hopener, hcloser⟩ := directive?_eq_none_iff.mp htext
    rw [inactive_take_iff hnested hwell hl htext]
    constructor
    · rintro ⟨-, -, hencloses⟩ ⟨wanted, name, hin, hne⟩
      exact hne (hencloses wanted name hin)
    · intro hnone
      refine ⟨hopener, hcloser, fun wanted name hin => ?_⟩
      by_contra hne
      exact hnone ⟨wanted, name, hin, hne⟩
  rcases getElem?_resolveLines h hl with ⟨hblank, hi⟩ | ⟨⟨htext, hinactive⟩, hi⟩
  · refine ⟨fun hstays => ?_, fun _ => hi⟩
    have htext := directive?_eq_none_iff.mpr ⟨hstays.1, hstays.2.1⟩
    rcases hblank with hsome | hin
    · rw [htext] at hsome
      cases hsome
    · exact absurd hin ((hactive htext).mp hstays)
  · exact ⟨fun _ => hi, fun hstays => absurd ((hactive htext).mpr hinactive) hstays⟩

/-- A run that breaks off reports the first line that offends, or the openers that are left. -/
theorem Breaks.reported (h : Breaks 0 [] ls e) :
    FirstOffence ls e ∨ (∀ j e', ¬ OffendsAt ls j e') ∧ LeftOpen ls e := by
  cases h with
  | @malformed p rest l opened hls hwell hp hl =>
      subst hls
      refine .inl ⟨p.length, ⟨l, by simp, .inl ?_⟩, fun j hj e' => not_offendsAt hwell hp hj⟩
      obtain ⟨hopener, hnames⟩ := directive?_eq_malformed_iff.mp hl
      exact ⟨hopener, hnames, by rw [Nat.zero_add]⟩
  | @stray p rest l hls hwell hp hl =>
      subst hls
      refine .inl ⟨p.length, ⟨l, by simp, .inr ?_⟩, fun j hj e' => not_offendsAt hwell hp hj⟩
      refine ⟨directive?_eq_closer_iff.mp hl, ?_, by rw [Nat.zero_add]⟩
      rw [List.take_left, openedIn_iff hp]
      exact fun hne => hne rfl
  | @unclosed final last hwell hfinal hlast =>
      refine .inr ⟨fun j e' hoffence => ?_, ?_⟩
      · obtain ⟨l, hl, -⟩ := id hoffence
        rw [← List.append_nil ls] at hoffence
        exact not_offendsAt hwell hfinal (List.getElem?_eq_some_iff.mp hl).1 hoffence
      · -- the stack has the last opener first
        obtain ⟨more, hmore⟩ : ∃ more, final.reverse = last :: more := by
          rw [List.getLast?_eq_head?_reverse] at hlast
          rcases hreverse : final.reverse with _ | ⟨first, more⟩
          · rw [hreverse] at hlast
            cases hlast
          · rw [hreverse] at hlast
            cases hlast
            exact ⟨more, rfl⟩
        refine ⟨last, more, ?_, fun i => ?_, ?_⟩
        · rw [← hmore, List.pairwise_reverse]
          exact pairwise_pending hfinal (List.pairwise_singleton _ _)
        · rw [← hmore, List.mem_reverse, mem_pending_iff hfinal]
        · rw [← hmore, List.length_reverse]

end Meaning

/-- **Blocks mean what their nesting says.** A text is resolved if and only if every opener has
exactly one name and openers and closers match. Then the result has the lines of the text, each
as it was if it stays and empty otherwise; it holds no directive, and resolving it again changes
nothing, whatever the conditions. A text that is not resolved is refused at the first line that
offends, and if no line does, at the first opener that is never closed. -/
theorem resolveBlocks_by_nesting (conditions : Conditions) (text : String) :
    ((∃ out, resolveBlocks conditions text = .ok out) ↔
      (∀ l ∈ lines text.toList, IsOpener l → ∃ wanted name, OpensOn wanted name l) ∧
        Nested (lines text.toList)) ∧
    (∀ out, resolveBlocks conditions text = .ok out →
      lineCount out = lineCount text ∧
      (∀ i l, (lines text.toList)[i]? = some l →
        (Stays conditions (lines text.toList) i l → (lines out.toList)[i]? = some l) ∧
        (¬ Stays conditions (lines text.toList) i l → (lines out.toList)[i]? = some [])) ∧
      (∀ l ∈ lines out.toList, ¬ IsOpener l ∧ ¬ IsCloser l) ∧
      ∀ others : Conditions, resolveBlocks others out = .ok out) ∧
    ∀ e, resolveBlocks conditions text = .error e →
      FirstOffence (lines text.toList) e ∨
        (∀ j e', ¬ OffendsAt (lines text.toList) j e') ∧ LeftOpen (lines text.toList) e := by
  refine ⟨?_, fun out h => ?_, fun e h => ?_⟩
  · rw [← forall_ne_malformed_iff, ← resolveLines_eq_ok_iff conditions]
    constructor
    · rintro ⟨out, h⟩
      exact ⟨_, exists_of_resolveBlocks_ok h⟩
    · rintro ⟨out, h⟩
      exact ⟨_, by rw [resolveBlocks, h]; rfl⟩
  · have hlines := exists_of_resolveBlocks_ok h
    have htext : ∀ l ∈ lines out.toList, directive? l = none := by
      intro l hl
      obtain ⟨i, hi⟩ := List.mem_iff_getElem?.mp hl
      by_cases hblank : l = []
      · rw [hblank]
        rfl
      · exact (resolveLines_kept hlines hi hblank).2.1
    refine ⟨lineCount_of_resolveBlocks_ok h, fun i l hl => getElem?_of_stays hlines hl, ?_, ?_⟩
    · exact fun l hl => directive?_eq_none_iff.mp (htext l hl)
    · intro others
      rw [resolveBlocks, resolveLines_of_text htext]
      show Except.ok (String.ofList (unlines (lines out.toList))) = Except.ok out
      rw [unlines_lines, String.ofList_toList]
  · rw [resolveBlocks] at h
    exact (breaks_of_resolveLines [] rfl (Step.eq_error_of_map h)).reported

/-- A block inside of another, with white space around its directives. -/
def twoBlocks : String :=
  "#ifdef A\n #ifndef  B\nx\n\t#endif \ny\n#endif"

/-- The inner block is on a condition that is not as wanted, so its line goes and the line behind
it stays. An opener without a name is refused also when a block is open. -/
theorem resolveBlocks_by_nesting_twoBlocks :
    resolveBlocks ["A", "B"] twoBlocks = .ok "\n\n\n\ny\n" ∧
      Nested (lines twoBlocks.toList) ∧
      resolveBlocks [] "\n\n\n\ny\n" = .ok "\n\n\n\ny\n" ∧
      FirstOffence (lines "#ifdef A\n#ifdef\n#endif".toList)
        (.badSyntax (some 2) .conditionName) := by
  have hout : resolveBlocks ["A", "B"] twoBlocks = .ok "\n\n\n\ny\n" := by decide +kernel
  obtain ⟨hresolved, hmeaning, -⟩ := resolveBlocks_by_nesting ["A", "B"] twoBlocks
  obtain ⟨-, -, -, hagain⟩ := hmeaning _ hout
  have herror : resolveBlocks [] "#ifdef A\n#ifdef\n#endif"
      = .error (.badSyntax (some 2) .conditionName) := by decide +kernel
  obtain ⟨-, -, hreported⟩ := resolveBlocks_by_nesting [] "#ifdef A\n#ifdef\n#endif"
  refine ⟨hout, (hresolved.mp ⟨_, hout⟩).2, hagain [], ?_⟩
  rcases hreported _ herror with hfirst | ⟨-, first, more, -, -, hleft⟩
  · exact hfirst
  · cases hleft

end SiteConf.Source
