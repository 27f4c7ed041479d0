import SiteConf.Proofs.Lines
import SiteConf.Proofs.Markers

set_option autoImplicit false

/-! # Substitution replaces all markers at once

Markers are substituted line by line. What comes out is the same as if the whole text had been
scanned once from left to right: `Scanned` says which occurrences such a scan finds, each as the
characters since the one before and its name, and it finds them in exactly one way
(`existsUnique_scanned`). The values of the names stand in the places of the occurrences, all other
characters are kept, and nothing that a value brings is looked at again; a name without a value is
reported for its first occurrence, with the line (`substitute_at_once`).

The proof goes from the scan to the lines. `fillFrom` is substitution from some line on, and there
is one equation for each thing that the scan can pass: a newline, another character that starts no
marker, a marker. -/

namespace SiteConf.Source

open Text

/-! ## Occurrences in a text -/

/-- An occurrence of a marker: what stands between the occurrence before it, or the start of the
text, and the marker, and the name. -/
structure Occurrence where
  gap : List Char
  name : List Char
  deriving DecidableEq, Repr

/-- The characters up to the end of the occurrence. -/
def Occurrence.text (o : Occurrence) : List Char :=
  o.gap ++ spelled o.name

/-- The occurrences that are found in a text from left to right, and what stands behind the last
one. The next occurrence is the leftmost: no marker starts in the gap before it. -/
inductive Scanned : List Char → List Occurrence → List Char → Prop where
  | done {cs : List Char} (h : ∀ after, after <:+ cs → ¬ StartsWithMarker after) :
      Scanned cs [] cs
  | found {gap name rest tail : List Char} {occs : List Occurrence} (hname : IsName name)
      (hgap : ∀ after, after <:+ gap → after ≠ [] →
        ¬ StartsWithMarker (after ++ (spelled name ++ rest)))
      (hrest : Scanned rest occs tail) :
      Scanned (gap ++ (spelled name ++ rest)) (⟨gap, name⟩ :: occs) tail

/-- The text in which values stand in the places of the occurrences. -/
def replaced (occs : List Occurrence) (values : List Placeholder.Value) (tail : List Char) :
    List Char :=
  (List.zipWith (fun o value => o.gap ++ value.text.toList) occs values).flatten ++ tail

/-! ## Substitution from a line on -/

/-- Substitutes the markers of a text whose first line has number `line`. -/
def fillFrom (placeholders : Placeholders) (line : Nat) (cs : List Char) :
    Except Error (List Char) :=
  (fillLines placeholders line (lines cs)).map unlines

theorem substitute_eq (placeholders : Placeholders) (text : String) :
    substitute placeholders text = (fillFrom placeholders 1 text.toList).map String.ofList := by
  rw [substitute, fillFrom]
  cases fillLines placeholders 1 (lines text.toList) <;> rfl

section

variable {placeholders : Placeholders} {line : Nat} {cs : List Char}

/-- Text that stands at the start of the first line, and whose pieces become `out`, is replaced by
`out` in the whole. -/
theorem fillFrom_append {text out : List Char} (hline : '\n' ∉ text)
    (hfill : ∀ l ls, lines cs = l :: ls →
      fill placeholders line (pieces (text ++ l)) =
        (fill placeholders line (pieces l)).map (out ++ ·)) :
    fillFrom placeholders line (text ++ cs) = (fillFrom placeholders line cs).map (out ++ ·) := by
  obtain ⟨l, ls, hlines⟩ := exists_lines_eq_cons cs
  rw [fillFrom, fillFrom, hlines, lines_append_of_not_mem hline hlines, fillLines, fillLines,
    hfill l ls hlines]
  -- an error of the first line or of a later one is that of the whole, with `text` or without
  rcases fill placeholders line (pieces l) with e | here
  · rfl
  · rcases fillLines placeholders (line + 1) ls with e | later
    · rfl
    · exact congrArg Except.ok (unlines_append out here later)

theorem fillFrom_nil : fillFrom placeholders line [] = .ok [] := rfl

theorem fillFrom_newline :
    fillFrom placeholders line ('\n' :: cs) =
      (fillFrom placeholders (line + 1) cs).map ('\n' :: ·) := by
  have hempty : fill placeholders line (pieces []) = .ok [] := rfl
  obtain ⟨l, ls, hlines⟩ := exists_lines_eq_cons cs
  rw [fillFrom, fillFrom, lines_newline, hlines, fillLines, hempty, fillLines]
  rcases fill placeholders (line + 1) (pieces l) with e | here
  · rfl
  · rcases fillLines placeholders (line + 1 + 1) ls with e | later <;> rfl

/-- A character that starts no marker of the text starts none of its line, which is shorter. -/
theorem marker?_line {l : List Char} (h : ¬ StartsWithMarker cs) (hl : l <+: cs) :
    marker? l = none := by
  apply marker?_eq_none
  rintro ⟨name, hname, hspelled⟩
  exact h ⟨name, hname, hspelled.trans hl⟩

theorem fillFrom_plain {c : Char} (hc : c ≠ '\n') (h : ¬ StartsWithMarker (c :: cs)) :
    fillFrom placeholders line (c :: cs) = (fillFrom placeholders line cs).map (c :: ·) := by
  have hline : '\n' ∉ [c] := by simpa using Ne.symm hc
  change fillFrom placeholders line ([c] ++ cs) =
    (fillFrom placeholders line cs).map ([c] ++ ·)
  apply fillFrom_append hline
  intro l ls hlines
  have hstart : c :: l <+: c :: cs :=
    List.cons_prefix_cons.mpr ⟨rfl, isPrefix_of_lines hlines⟩
  exact congrArg (fill placeholders line) (pieces_plain (marker?_line h hstart))

theorem newline_not_mem_spelled {name : List Char} (h : IsName name) : '\n' ∉ spelled name := by
  have hname : '\n' ∉ name := fun hmem => absurd (isNameChar_iff.mpr (h.2 _ hmem)) (by decide)
  simpa [spelled] using hname

theorem fillFrom_spelled {name : List Char} {value : Placeholder.Value} (h : IsName name)
    (hvalue : Ordered.get? (String.ofList name) placeholders = some value) :
    fillFrom placeholders line (spelled name ++ cs) =
      (fillFrom placeholders line cs).map (value.text.toList ++ ·) := by
  apply fillFrom_append (newline_not_mem_spelled h)
  intro l ls _
  rw [pieces_spelled h, fill, hvalue]

theorem fillFrom_undefined {name : List Char} (h : IsName name)
    (hvalue : Ordered.get? (String.ofList name) placeholders = none) :
    fillFrom placeholders line (spelled name ++ cs) =
      .error (.undefinedPlaceholder (String.ofList name) (some line)) := by
  obtain ⟨l, ls, hlines⟩ := exists_lines_eq_cons cs
  rw [fillFrom, lines_append_of_not_mem (newline_not_mem_spelled h) hlines, fillLines,
    pieces_spelled h, fill, hvalue]
  rfl

/-- Characters that start no marker are kept, and their newlines are counted. -/
theorem fillFrom_gap {gap rest : List Char}
    (h : ∀ after, after <:+ gap → after ≠ [] → ¬ StartsWithMarker (after ++ rest)) :
    fillFrom placeholders line (gap ++ rest) =
      (fillFrom placeholders (line + gap.count '\n') rest).map (gap ++ ·) := by
  induction gap generalizing line with
  | nil =>
      rw [List.nil_append, List.count_nil, Nat.add_zero]
      cases fillFrom placeholders line rest <;> rfl
  | cons c gap ih =>
      have hc : ¬ StartsWithMarker (c :: (gap ++ rest)) :=
        h _ List.suffix_rfl (List.cons_ne_nil _ _)
      have hrest := fun line => @ih line fun after hafter =>
        h after (hafter.trans (List.suffix_cons c gap))
      -- a newline moves on to the next line, any other character stays on this one
      by_cases hnew : c = '\n'
      · subst hnew
        have hcount : line + 1 + gap.count '\n' = line + ('\n' :: gap).count '\n' := by
          rw [List.count_cons_self]
          omega
        rw [List.cons_append, fillFrom_newline, hrest, hcount]
        cases fillFrom placeholders (line + ('\n' :: gap).count '\n') rest <;> rfl
      · rw [List.cons_append, fillFrom_plain hnew hc, hrest, List.count_cons_of_ne hnew]
        cases fillFrom placeholders (line + gap.count '\n') rest <;> rfl

theorem fillFrom_of_no_marker (h : ∀ after, after <:+ cs → ¬ StartsWithMarker after) :
    fillFrom placeholders line cs = .ok cs := by
  have hgap : ∀ after, after <:+ cs → after ≠ [] → ¬ StartsWithMarker (after ++ []) := by
    intro after hafter _
    rw [List.append_nil]
    exact h after hafter
  calc fillFrom placeholders line cs
      = fillFrom placeholders line (cs ++ []) := by rw [List.append_nil]
    _ = (fillFrom placeholders (line + cs.count '\n') []).map (cs ++ ·) := fillFrom_gap hgap
    _ = .ok cs := by rw [fillFrom_nil, Except.map, List.append_nil]

end

/-! ## What the scan finds -/

/-- Up to the first marker, or to the end, no marker starts. -/
theorem exists_first (cs : List Char) :
    (∀ after, after <:+ cs → ¬ StartsWithMarker after) ∨
      ∃ gap name rest, cs = gap ++ (spelled name ++ rest) ∧ IsName name ∧
        ∀ after, after <:+ gap → after ≠ [] →
          ¬ StartsWithMarker (after ++ (spelled name ++ rest)) := by
  induction cs with
  | nil =>
      refine .inl fun after hafter => ?_
      rintro ⟨name, _, hspelled⟩
      rw [List.suffix_nil.mp hafter] at hspelled
      exact List.cons_ne_nil _ _ (List.prefix_nil.mp hspelled)
  | cons c cs ih =>
      by_cases hc : StartsWithMarker (c :: cs)
      · obtain ⟨name, hname, rest, hrest⟩ := hc
        refine .inr ⟨[], name, rest, hrest.symm, hname, fun after hafter hne => ?_⟩
        exact absurd (List.suffix_nil.mp hafter) hne
      · rcases ih with hnone | ⟨gap, name, rest, rfl, hname, hgap⟩
        · refine .inl fun after hafter => ?_
          rcases List.suffix_cons_iff.mp hafter with rfl | hafter
          · exact hc
          · exact hnone after hafter
        · refine .inr ⟨c :: gap, name, rest, rfl, hname, fun after hafter hne => ?_⟩
          rcases List.suffix_cons_iff.mp hafter with rfl | hafter
          · exact hc
          · exact hgap after hafter hne

theorem exists_scanned (cs : List Char) : ∃ occs tail, Scanned cs occs tail := by
  induction hn : cs.length using Nat.strong_induction_on generalizing cs with
  | _ n ih =>
      rcases exists_first cs with hnone | ⟨gap, name, rest, rfl, hname, hgap⟩
      · exact ⟨[], cs, .done hnone⟩
      · -- a marker has characters, so less is left to scan
        have hlt : rest.length < n := by
          rw [← hn]
          simp only [spelled, List.length_append, List.length_cons]
          omega
        obtain ⟨occs, tail, hrest⟩ := ih rest.length hlt rest rfl
        exact ⟨⟨gap, name⟩ :: occs, tail, .found hname hgap hrest⟩

theorem spelled_append_inj {name name' rest rest' : List Char} (hname : IsName name)
    (hname' : IsName name') (h : spelled name ++ rest = spelled name' ++ rest') :
    name = name' ∧ rest = rest' := by
  have hmarker := marker?_spelled hname rest
  rw [h, marker?_spelled hname' rest'] at hmarker
  obtain rfl := Option.some.inj hmarker
  exact ⟨rfl, List.append_cancel_left h⟩

/-- Of two gaps before a marker in one text, the one in which no marker starts is not the longer
one. -/
theorem eq_nil_of_gap {gap more name name' rest rest' : List Char} (hname : IsName name)
    (hgap : ∀ after, after <:+ gap ++ more → after ≠ [] →
      ¬ StartsWithMarker (after ++ (spelled name' ++ rest')))
    (h : spelled name ++ rest = more ++ (spelled name' ++ rest')) : more = [] := by
  by_contra hne
  apply hgap more (List.suffix_append gap more) hne
  rw [← h]
  exact startsWithMarker_spelled hname rest

theorem Scanned.unique {cs tail tail' : List Char} {occs occs' : List Occurrence}
    (h : Scanned cs occs tail) (h' : Scanned cs occs' tail') : occs = occs' ∧ tail = tail' := by
  induction h generalizing occs' tail' with
  | @done cs hnone =>
      cases h' with
      | done => exact ⟨rfl, rfl⟩
      | @found gap name rest _ _ hname _ _ =>
          exact absurd (startsWithMarker_spelled hname rest) (hnone _ (List.suffix_append gap _))
  | @found gap name rest tail occs hname hgap _ ih =>
      generalize hcs : gap ++ (spelled name ++ rest) = cs at h'
      cases h' with
      | done hnone =>
          subst hcs
          exact absurd (startsWithMarker_spelled hname rest) (hnone _ (List.suffix_append gap _))
      | @found gap' name' rest' _ occs' hname' hgap' hrest' =>
          -- neither gap is longer than the other
          have hgaps : gap = gap' ∧ spelled name ++ rest = spelled name' ++ rest' := by
            rcases List.append_eq_append_iff.mp hcs with ⟨more, rfl, hmore⟩ | ⟨more, rfl, hmore⟩
            · obtain rfl := eq_nil_of_gap hname hgap' hmore
              exact ⟨(List.append_nil gap).symm, hmore⟩
            · obtain rfl := eq_nil_of_gap hname' hgap hmore
              exact ⟨List.append_nil gap', hmore.symm⟩
          obtain ⟨rfl, hrest⟩ := hgaps
          obtain ⟨rfl, rfl⟩ := spelled_append_inj hname hname' hrest
          obtain ⟨rfl, rfl⟩ := ih hrest'
          exact ⟨rfl, rfl⟩

/-- **A text is scanned in exactly one way.** -/
theorem existsUnique_scanned (cs : List Char) :
    ∃! scan : List Occurrence × List Char, Scanned cs scan.1 scan.2 := by
  obtain ⟨occs, tail, h⟩ := exists_scanned cs
  refine ⟨(occs, tail), h, ?_⟩
  rintro ⟨occs', tail'⟩ h'
  obtain ⟨rfl, rfl⟩ := h'.unique h
  rfl

/-! ## Substitution along the scan -/

def Occurrence.value? (placeholders : Placeholders) (o : Occurrence) : Option Placeholder.Value :=
  Ordered.get? (String.ofList o.name) placeholders

/-- The values of the occurrences' names, in their order. -/
def Valued (placeholders : Placeholders) (occs : List Occurrence)
    (values : List Placeholder.Value) : Prop :=
  occs.map (Occurrence.value? placeholders) = values.map some

/-- After the occurrences before it, this is the first one whose name has no value. -/
structure FirstUndefined (placeholders : Placeholders) (occs before : List Occurrence)
    (o : Occurrence) : Prop where
  isPrefix : before ++ [o] <+: occs
  defined : ∀ b ∈ before, (b.value? placeholders).isSome
  undefined : o.value? placeholders = none

/-- The error for an undefined occurrence in a text that starts with line `line`. -/
def undefinedError (line : Nat) (before : List Occurrence) (o : Occurrence) : Error :=
  .undefinedPlaceholder (String.ofList o.name)
    (some (line + (before.flatMap Occurrence.text ++ o.gap).count '\n'))

section

variable {placeholders : Placeholders} {cs tail : List Char} {occs before : List Occurrence}
  {o : Occurrence} {values : List Placeholder.Value}

/-- What substitution gives where all names have values. -/
theorem Scanned.fillFrom_eq_ok (h : Scanned cs occs tail) (line : Nat)
    (hvalues : Valued placeholders occs values) :
    fillFrom placeholders line cs = .ok (replaced occs values tail) := by
  induction h generalizing line values with
  | done hnone =>
      obtain rfl : values = [] := by simpa [Valued] using hvalues.symm
      exact fillFrom_of_no_marker hnone
  | @found gap name rest tail occs hname hgap _ ih =>
      rcases values with _ | ⟨value, values⟩
      · simp [Valued] at hvalues
      · obtain ⟨hvalue, hvalues⟩ := List.cons_eq_cons.mp hvalues
        rw [fillFrom_gap hgap, fillFrom_spelled hname hvalue, ih _ hvalues]
        simp [replaced, Except.map]

/-- What it gives where a name has none. -/
theorem Scanned.fillFrom_eq_error (h : Scanned cs occs tail) (line : Nat)
    (hfirst : FirstUndefined placeholders occs before o) :
    fillFrom placeholders line cs = .error (undefinedError line before o) := by
  obtain ⟨hoccs, hbefore, ho⟩ := hfirst
  induction h generalizing line before with
  | done => simp at hoccs
  | @found gap name rest tail occs hname hgap _ ih =>
      cases before with
      | nil =>
          obtain ⟨rfl, -⟩ := List.cons_prefix_cons.mp hoccs
          rw [fillFrom_gap hgap, fillFrom_undefined hname ho]
          rfl
      | cons b before =>
          obtain ⟨rfl, hrest⟩ := List.cons_prefix_cons.mp hoccs
          obtain ⟨hb, hbefore⟩ := List.forall_mem_cons.mp hbefore
          obtain ⟨value, hvalue⟩ := Option.isSome_iff_exists.mp hb
          -- the marker lies on one line
          have hcount : (spelled name).count '\n' = 0 :=
            List.count_eq_zero.mpr (newline_not_mem_spelled hname)
          rw [fillFrom_gap hgap, fillFrom_spelled hname hvalue, ih _ hrest hbefore]
          simp only [Except.map, undefinedError, List.flatMap_cons, Occurrence.text,
            List.count_append, hcount, Nat.add_assoc, Nat.add_zero]

theorem Valued.isSome (h : Valued placeholders occs values) :
    ∀ o ∈ occs, (o.value? placeholders).isSome := by
  intro o ho
  have hmem : o.value? placeholders ∈ values.map some := h ▸ List.mem_map_of_mem ho
  obtain ⟨value, -, hvalue⟩ := List.mem_map.mp hmem
  rw [← hvalue]
  rfl

theorem valued_or_undefined (placeholders : Placeholders) (occs : List Occurrence) :
    (∃ values, Valued placeholders occs values) ∨
      ∃ before o, FirstUndefined placeholders occs before o := by
  induction occs with
  | nil => exact .inl ⟨[], rfl⟩
  | cons o occs ih =>
      rcases ho : o.value? placeholders with _ | value
      · exact .inr ⟨[], o, List.prefix_append [o] occs, by simp, ho⟩
      · rcases ih with ⟨values, hvalues⟩ | ⟨before, o', hstart, hbefore, ho'⟩
        · exact .inl ⟨value :: values, List.cons_eq_cons.mpr ⟨ho, hvalues⟩⟩
        · refine .inr ⟨o :: before, o', List.cons_prefix_cons.mpr ⟨rfl, hstart⟩, ?_, ho'⟩
          exact List.forall_mem_cons.mpr ⟨by rw [ho]; rfl, hbefore⟩

theorem exists_valued_iff :
    (∃ values, Valued placeholders occs values) ↔ ∀ o ∈ occs, (o.value? placeholders).isSome := by
  refine ⟨fun ⟨_, hvalues⟩ => hvalues.isSome, fun hdefined => ?_⟩
  rcases valued_or_undefined placeholders occs with hvalues | ⟨before, o, hfirst⟩
  · exact hvalues
  · have ho := hdefined o (hfirst.isPrefix.subset (by simp))
    rw [hfirst.undefined] at ho
    cases ho

end

section

variable {placeholders : Placeholders} {text : String} {tail : List Char} {occs : List Occurrence}

theorem Scanned.substitute_eq_ok (h : Scanned text.toList occs tail)
    {values : List Placeholder.Value} (hvalues : Valued placeholders occs values) :
    substitute placeholders text = .ok (String.ofList (replaced occs values tail)) := by
  rw [substitute_eq, h.fillFrom_eq_ok 1 hvalues, Except.map]

theorem Scanned.substitute_eq_error (h : Scanned text.toList occs tail)
    {before : List Occurrence} {o : Occurrence}
    (hfirst : FirstUndefined placeholders occs before o) :
    substitute placeholders text = .error (undefinedError 1 before o) := by
  rw [substitute_eq, h.fillFrom_eq_error 1 hfirst, Except.map]

-- one of the two conditions holds, and their answers differ: so each is also necessary

theorem Scanned.substitute_eq_ok_iff (h : Scanned text.toList occs tail) (out : String) :
    substitute placeholders text = .ok out ↔
      ∃ values, Valued placeholders occs values ∧
        out = String.ofList (replaced occs values tail) := by
  constructor
  · intro hout
    rcases valued_or_undefined placeholders occs with ⟨values, hvalues⟩ | ⟨before, o, hfirst⟩
    · exact ⟨values, hvalues, Except.ok.inj (hout.symm.trans (h.substitute_eq_ok hvalues))⟩
    · cases hout.symm.trans (h.substitute_eq_error hfirst)
  · rintro ⟨values, hvalues, rfl⟩
    exact h.substitute_eq_ok hvalues

theorem Scanned.substitute_eq_error_iff (h : Scanned text.toList occs tail) (e : Error) :
    substitute placeholders text = .error e ↔
      ∃ before o, FirstUndefined placeholders occs before o ∧ e = undefinedError 1 before o := by
  constructor
  · intro he
    rcases valued_or_undefined placeholders occs with ⟨values, hvalues⟩ | ⟨before, o, hfirst⟩
    · cases he.symm.trans (h.substitute_eq_ok hvalues)
    · exact ⟨before, o, hfirst, Except.error.inj (he.symm.trans (h.substitute_eq_error hfirst))⟩
  · rintro ⟨before, o, hfirst, rfl⟩
    exact h.substitute_eq_error hfirst

end

/-- **Substitution is one replacement of all markers.** A text has one scan. Substitution gives a
text if and only if all names of its occurrences have values; it is then the text with the values
in the places of the occurrences. Else it reports the first occurrence whose name has no value,
and the line of that occurrence. -/
theorem substitute_at_once (placeholders : Placeholders) (text : String) :
    (∃! scan : List Occurrence × List Char, Scanned text.toList scan.1 scan.2) ∧
      ∀ occs tail, Scanned text.toList occs tail →
        ((∃ out, substitute placeholders text = .ok out) ↔
          ∀ o ∈ occs, (o.value? placeholders).isSome) ∧
        (∀ out, substitute placeholders text = .ok out ↔
          ∃ values, Valued placeholders occs values ∧
            out = String.ofList (replaced occs values tail)) ∧
        ∀ e, substitute placeholders text = .error e ↔
          ∃ before o, FirstUndefined placeholders occs before o ∧
            e = undefinedError 1 before o := by
  refine ⟨existsUnique_scanned text.toList, fun occs tail h =>
    ⟨?_, h.substitute_eq_ok_iff, h.substitute_eq_error_iff⟩⟩
  rw [← exists_valued_iff]
  constructor
  · rintro ⟨out, hout⟩
    obtain ⟨values, hvalues, -⟩ := (h.substitute_eq_ok_iff out).mp hout
    exact ⟨values, hvalues⟩
  · rintro ⟨values, hvalues⟩
    exact ⟨_, h.substitute_eq_ok hvalues⟩

/-- Values that complete a marker with what follows them. -/
def signPlaceholders : Placeholders :=
  [("A", .str "@@"), ("B", .int 7)]

/-- Two texts whose markers share their signs with other text. The second has a name without a
value in its second line. -/
theorem substitute_at_once_signPlaceholders :
    substitute signPlaceholders "@@@A@@B@@\n@@B@@" = .ok "@@@B@@\n7" ∧
      substitute signPlaceholders "@@A@@\n@@@@Z@@@@Y@@" =
        .error (.undefinedPlaceholder "Z" (some 2)) := by
  have hshared : Scanned
      (['@'] ++ (spelled ['A'] ++ (['B', '@', '@', '\n'] ++ (spelled ['B'] ++ []))))
      [⟨['@'], ['A']⟩, ⟨['B', '@', '@', '\n'], ['B']⟩] [] := by
    refine .found (by decide) ?_ (.found (by decide) ?_ (.done ?_)) <;>
      simp only [← List.mem_tails] <;> decide
  have hundefined : Scanned
      ([] ++ (spelled ['A'] ++ (['\n', '@', '@'] ++ (spelled ['Z'] ++
        ([] ++ (spelled ['Y'] ++ []))))))
      [⟨[], ['A']⟩, ⟨['\n', '@', '@'], ['Z']⟩, ⟨[], ['Y']⟩] [] := by
    refine .found (by decide) ?_ (.found (by decide) ?_ (.found (by decide) ?_ (.done ?_))) <;>
      simp only [← List.mem_tails] <;> decide
  refine ⟨?_, ?_⟩
  · exact (((substitute_at_once signPlaceholders "@@@A@@B@@\n@@B@@").2 _ _ hshared).2.1 _).mpr
      ⟨[.str "@@", .int 7], by rfl, by rfl⟩
  · exact (((substitute_at_once signPlaceholders "@@A@@\n@@@@Z@@@@Y@@").2 _ _ hundefined).2.2 _).mpr
      ⟨[⟨[], ['A']⟩], ⟨['\n', '@', '@'], ['Z']⟩, ⟨by simp, by decide, by rfl⟩, by rfl⟩

end SiteConf.Source
