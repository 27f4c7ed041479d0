import SiteConf.Source.Blocks
import SiteConf.Proofs.KeyPath
import Mathlib

set_option autoImplicit false

/-! # Directives by their words

A directive is read off the words of its line: the first word is the keyword, and an opener has
one more. White space around and between the words plays no part, and a word that only starts with
a keyword is not that keyword (`directive?_eq`). -/

namespace SiteConf

namespace Text

/-! ## Words -/

theorem wordsFrom_append {w : List Char} (hw : ∀ c ∈ w, isBlank c = false)
    (run rest : List Char) : wordsFrom run (w ++ rest) = wordsFrom (run ++ w) rest := by
  induction w generalizing run with
  | nil => rw [List.nil_append, List.append_nil]
  | cons c w ih =>
      obtain ⟨hc, hw⟩ := List.forall_mem_cons.mp hw
      rw [List.cons_append, wordsFrom, hc, if_neg Bool.false_ne_true, ih hw, List.append_assoc]
      rfl

/-- White space at the end separates nothing. -/
theorem wordsFrom_append_blanks {blanks : List Char} (hblanks : ∀ c ∈ blanks, isBlank c = true)
    (run cs : List Char) : wordsFrom run (cs ++ blanks) = wordsFrom run cs := by
  induction cs generalizing run with
  | nil =>
      induction blanks generalizing run with
      | nil => rfl
      | cons c blanks ih =>
          obtain ⟨hc, hblanks⟩ := List.forall_mem_cons.mp hblanks
          have hempty : wordsFrom [] blanks = [] := ih hblanks []
          rw [List.nil_append, wordsFrom.eq_2, if_pos hc, hempty, wordsFrom]
  | cons c cs ih =>
      rw [List.cons_append, wordsFrom, wordsFrom, ih, ih]

theorem words_dropWhile_isBlank (cs : List Char) : words (cs.dropWhile isBlank) = words cs := by
  induction cs with
  | nil => rfl
  | cons c cs ih =>
      by_cases hc : isBlank c = true
      · rw [List.dropWhile_cons_of_pos hc, ih, words, words, wordsFrom, if_pos hc]
        rfl
      · rw [List.dropWhile_cons_of_neg hc]

/-- Trimming a text does not change its words. -/
theorem words_trim (cs : List Char) : words (trim cs) = words cs := by
  have hsplit : trimStart cs = trimEnd (trimStart cs)
      ++ ((trimStart cs).reverse.takeWhile isBlank).reverse := by
    rw [trimEnd, ← List.reverse_append, List.takeWhile_append_dropWhile, List.reverse_reverse]
  have hblanks : ∀ c ∈ ((trimStart cs).reverse.takeWhile isBlank).reverse, isBlank c = true := by
    intro c hc
    exact List.mem_takeWhile_imp (List.mem_reverse.mp hc)
  calc words (trim cs)
      = words (trimStart cs) := by
        rw [trim, words, words]
        nth_rewrite 2 [hsplit]
        rw [wordsFrom_append_blanks hblanks]
    _ = words cs := words_dropWhile_isBlank cs

/-- The first word of a text that starts with it ends at the first white space. -/
theorem words_eq_cons {cs : List Char} (hcs : cs.takeWhile (!isBlank ·) ≠ []) :
    words cs = cs.takeWhile (!isBlank ·) :: words (cs.dropWhile (!isBlank ·)) := by
  have hword : ∀ c ∈ cs.takeWhile (!isBlank ·), isBlank c = false := by
    intro c hc
    simpa using List.mem_takeWhile_imp hc
  nth_rewrite 1 [← List.takeWhile_append_dropWhile (p := fun c => !isBlank c) (l := cs)]
  rw [words, wordsFrom_append hword, List.nil_append]
  rcases hrest : cs.dropWhile (!isBlank ·) with _ | ⟨c, rest⟩
  · rw [wordsFrom, if_neg (by simpa using hcs)]
    rfl
  · have hc : isBlank c = true := by
      have hhead := List.head?_dropWhile_not (!isBlank ·) cs
      simpa [hrest] using hhead
    rw [wordsFrom, if_pos hc, if_neg (by simpa using hcs), words, wordsFrom, if_pos hc]
    rfl

theorem takeWhile_trim_eq_nil_iff (cs : List Char) :
    (trim cs).takeWhile (!isBlank ·) = [] ↔ trim cs = [] := by
  constructor
  · intro h
    rcases htrim : trim cs with _ | ⟨c, rest⟩
    · rfl
    · -- the first character of a trimmed text is not white space
      exfalso
      have hprefix : trim cs <+: trimStart cs := by
        refine ⟨((trimStart cs).reverse.takeWhile isBlank).reverse, ?_⟩
        rw [trim, trimEnd, ← List.reverse_append, List.takeWhile_append_dropWhile,
          List.reverse_reverse]
      obtain ⟨more, hmore⟩ := hprefix
      rw [htrim, List.cons_append] at hmore
      have hc : isBlank c = false := by
        have hhead := List.head?_dropWhile_not isBlank cs
        rw [show cs.dropWhile isBlank = trimStart cs from rfl, ← hmore] at hhead
        exact hhead
      rw [htrim, List.takeWhile_cons_of_pos (by simp [hc])] at h
      cases h
  · intro h
    rw [h]
    rfl

end Text

namespace Source

open Text

/-! ## Keywords -/

/-- A keyword stands on a line when it is the word that the line starts with. -/
theorem afterKeyword?_eq {keyword : List Char} (hkeyword : keyword.all (!isBlank ·) = true)
    (line : List Char) :
    afterKeyword? keyword line
      = if line.takeWhile (!isBlank ·) = keyword then some (line.dropWhile (!isBlank ·))
        else none := by
  have hall : ∀ c ∈ keyword, (!isBlank c) = true := List.all_eq_true.mp hkeyword
  have hword : ∀ rest : List Char, (∀ c ∈ rest.head?, isBlank c = true) →
      (keyword ++ rest).takeWhile (!isBlank ·) = keyword ∧
        (keyword ++ rest).dropWhile (!isBlank ·) = rest := by
    intro rest hrest
    rw [List.takeWhile_append_of_pos hall, List.dropWhile_append_of_pos hall]
    cases rest with
    | nil => simp
    | cons c rest => simp [hrest c rfl]
  unfold afterKeyword?
  rcases hdrop : dropHead? keyword line with _ | (_ | ⟨c, rest⟩)
  · -- the line does not start with the characters of the keyword
    rw [if_neg]
    intro htake
    have hline : line = keyword ++ line.dropWhile (!isBlank ·) := by
      rw [← htake, List.takeWhile_append_dropWhile]
    rw [dropHead?_eq_some_iff.mpr hline] at hdrop
    cases hdrop
  · have hline := dropHead?_eq_some_iff.mp hdrop
    obtain ⟨htake, hrest⟩ := hword [] (by simp)
    rw [hline, if_pos htake, hrest]
  · have hline := dropHead?_eq_some_iff.mp hdrop
    by_cases hc : isBlank c = true
    · obtain ⟨htake, hrest⟩ := hword (c :: rest) (by simpa using hc)
      rw [hline, if_pos htake, hrest]
      simp only [hc, if_true]
    · -- the word goes on behind the characters of the keyword
      rw [if_neg]
      · exact if_neg hc
      · rw [hline, List.takeWhile_append_of_pos hall,
          List.takeWhile_cons_of_pos (by simpa using hc)]
        simp

/-! ## Lines that open and close blocks -/

/-- The word that opens a block, for a condition that is wanted to hold or wanted to fail. -/
def openingWord (wanted : Bool) : List Char :=
  if wanted then "#ifdef".toList else "#ifndef".toList

def closingWord : List Char :=
  "#endif".toList

/-- The line starts with a word that opens a block. -/
def IsOpener (l : List Char) : Prop :=
  ∃ wanted names, words l = openingWord wanted :: names

/-- The line opens a block and has exactly one name. -/
def OpensOn (wanted : Bool) (name : String) (l : List Char) : Prop :=
  words l = [openingWord wanted, name.toList]

def IsCloser (l : List Char) : Prop :=
  ∃ more, words l = closingWord :: more

/-- The directive that an opening word makes with the names behind it. -/
def opening (wanted : Bool) : List (List Char) → Directive
  | [name] => .opener wanted (String.ofList name)
  | _ => .malformed

theorem openingWord_ne_closingWord (wanted : Bool) : openingWord wanted ≠ closingWord := by
  revert wanted
  decide

theorem not_isCloser_of_isOpener {l : List Char} (h : IsOpener l) : ¬ IsCloser l := by
  rintro ⟨more, hmore⟩
  obtain ⟨wanted, names, hnames⟩ := h
  rw [hnames] at hmore
  exact openingWord_ne_closingWord wanted (List.cons.inj hmore).1

theorem OpensOn.isOpener {wanted : Bool} {name : String} {l : List Char}
    (h : OpensOn wanted name l) : IsOpener l :=
  ⟨wanted, _, h⟩

/-- **The directive on a line is read off its words.** -/
theorem directive?_eq (l : List Char) :
    directive? l
      = match words l with
        | [] => none
        | word :: names =>
            if word = openingWord true then some (opening true names)
            else if word = openingWord false then some (opening false names)
            else if word = closingWord then some .closer
            else none := by
  have hopening : ∀ wanted, (openingWord wanted).all (!isBlank ·) = true := by decide +kernel
  have hclosing : closingWord.all (!isBlank ·) = true := by decide +kernel
  have hifdef : afterKeyword? "#ifdef".toList (trim l) = _ := afterKeyword?_eq (hopening true) _
  have hifndef : afterKeyword? "#ifndef".toList (trim l) = _ :=
    afterKeyword?_eq (hopening false) _
  have hendif : afterKeyword? "#endif".toList (trim l) = _ := afterKeyword?_eq hclosing _
  rw [directive?, hifdef, hifndef, hendif, ← words_trim l]
  by_cases hword : (trim l).takeWhile (!isBlank ·) = []
  · -- no word, so no keyword
    rw [(takeWhile_trim_eq_nil_iff l).mp hword]
    rfl
  · have hopener : ∀ wanted rest, openerOf wanted rest = opening wanted (words rest) := by
      intro wanted rest
      unfold openerOf opening
      rfl
    rw [words_eq_cons hword]
    simp only [← hopener]
    split_ifs <;> rfl

section Directive

variable {l : List Char} {wanted : Bool} {name : String}

theorem opening_eq_opener_iff {names : List (List Char)} {held : Bool} :
    opening held names = .opener wanted name ↔ held = wanted ∧ names = [name.toList] := by
  unfold opening
  split
  · rename_i n
    rw [Directive.opener.injEq, List.singleton_inj]
    refine and_congr_right fun _ => ?_
    rw [← String.toList_inj, String.toList_ofList]
  · rename_i hnames
    constructor
    · rintro ⟨⟩
    · intro h
      exact absurd h.2 (hnames _)

theorem opening_ne_closer {names : List (List Char)} : opening wanted names ≠ .closer := by
  unfold opening
  split <;> rintro ⟨⟩

theorem directive?_of_opening {names : List (List Char)}
    (h : words l = openingWord wanted :: names) :
    directive? l = some (opening wanted names) := by
  rw [directive?_eq, h]
  cases wanted
  · exact (if_neg (by decide)).trans (if_pos rfl)
  · exact if_pos rfl

theorem directive?_of_isCloser (h : IsCloser l) : directive? l = some .closer := by
  obtain ⟨more, hmore⟩ := h
  rw [directive?_eq, hmore]
  exact (if_neg (by decide)).trans ((if_neg (by decide)).trans (if_pos rfl))

theorem directive?_eq_none_iff : directive? l = none ↔ ¬ IsOpener l ∧ ¬ IsCloser l := by
  constructor
  · intro h
    refine ⟨fun ⟨wanted, names, hnames⟩ => ?_, fun hcloser => ?_⟩
    · rw [directive?_of_opening hnames] at h
      cases h
    · rw [directive?_of_isCloser hcloser] at h
      cases h
  · rintro ⟨hopener, hcloser⟩
    rw [directive?_eq]
    rcases hwords : words l with _ | ⟨word, names⟩
    · rfl
    · have hopening : ∀ wanted, word ≠ openingWord wanted := by
        rintro wanted rfl
        exact hopener ⟨wanted, names, hwords⟩
      have hclosing : word ≠ closingWord := by
        rintro rfl
        exact hcloser ⟨names, hwords⟩
      exact (if_neg (hopening true)).trans ((if_neg (hopening false)).trans (if_neg hclosing))

/-- Lines with an opening word and lines with the closing word are all the directives. -/
theorem directive_cases (l : List Char) :
    (∃ wanted names, words l = openingWord wanted :: names ∧
      directive? l = some (opening wanted names)) ∨
    (IsCloser l ∧ directive? l = some .closer) ∨
    (¬ IsOpener l ∧ ¬ IsCloser l ∧ directive? l = none) := by
  by_cases hopener : IsOpener l
  · obtain ⟨wanted, names, hnames⟩ := hopener
    exact .inl ⟨wanted, names, hnames, directive?_of_opening hnames⟩
  · by_cases hcloser : IsCloser l
    · exact .inr (.inl ⟨hcloser, directive?_of_isCloser hcloser⟩)
    · exact .inr (.inr ⟨hopener, hcloser, directive?_eq_none_iff.mpr ⟨hopener, hcloser⟩⟩)

theorem directive?_eq_opener_iff :
    directive? l = some (.opener wanted name) ↔ OpensOn wanted name l := by
  constructor
  · intro h
    rcases directive_cases l with ⟨held, names, hnames, hl⟩ | ⟨-, hl⟩ | ⟨-, -, hl⟩
    · rw [hl, Option.some.injEq, opening_eq_opener_iff] at h
      obtain ⟨rfl, rfl⟩ := h
      exact hnames
    · rw [hl] at h
      cases h
    · rw [hl] at h
      cases h
  · intro h
    rw [directive?_of_opening h, Option.some.injEq, opening_eq_opener_iff]
    exact ⟨rfl, rfl⟩

theorem directive?_eq_closer_iff : directive? l = some .closer ↔ IsCloser l := by
  refine ⟨fun h => ?_, directive?_of_isCloser⟩
  rcases directive_cases l with ⟨held, names, -, hl⟩ | ⟨hcloser, -⟩ | ⟨-, -, hl⟩
  · rw [hl, Option.some.injEq] at h
    exact absurd h opening_ne_closer
  · exact hcloser
  · rw [hl] at h
    cases h

/-- A line with an opening word is refused when it does not have exactly one name. -/
theorem directive?_eq_malformed_iff :
    directive? l = some .malformed ↔ IsOpener l ∧ ∀ wanted name, ¬ OpensOn wanted name l := by
  constructor
  · intro h
    refine ⟨?_, fun wanted name hname => ?_⟩
    · rcases directive_cases l with ⟨held, names, hnames, -⟩ | ⟨-, hl⟩ | ⟨-, -, hl⟩
      · exact ⟨held, names, hnames⟩
      · rw [hl] at h
        cases h
      · rw [hl] at h
        cases h
    · rw [directive?_eq_opener_iff.mpr hname] at h
      cases h
  · rintro ⟨⟨wanted, names, hnames⟩, hnone⟩
    rcases hl : directive? l with _ | (⟨held, name⟩ | _ | _)
    · exact absurd ⟨wanted, names, hnames⟩ (directive?_eq_none_iff.mp hl).1
    · exact absurd (directive?_eq_opener_iff.mp hl) (hnone held name)
    · exact absurd (directive?_eq_closer_iff.mp hl)
        (not_isCloser_of_isOpener ⟨wanted, names, hnames⟩)
    · rfl

end Directive

end Source

end SiteConf
