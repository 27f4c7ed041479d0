import SiteConf.Source.Markers
import Mathlib

set_option autoImplicit false

/-! # Markers in a text

What a marker is, said without a scanner: two signs, a name, two signs. `marker?` finds the name of
the marker that stands at the start of a text (`isSome_marker?_iff`), and the pieces of a text are
its markers and the characters that start none (`pieces_spelled`, `pieces_plain`). -/

namespace SiteConf.Source

/-! ## Names and markers -/

/-- The characters of names: the letters and digits of ASCII, and the underscore. -/
def NameChar (c : Char) : Prop :=
  ('A' ≤ c ∧ c ≤ 'Z') ∨ ('a' ≤ c ∧ c ≤ 'z') ∨ ('0' ≤ c ∧ c ≤ '9') ∨ c = '_'

/-- Names have at least one character. -/
def IsName (name : List Char) : Prop :=
  name ≠ [] ∧ ∀ c ∈ name, NameChar c

def spelled (name : List Char) : List Char :=
  '@' :: '@' :: (name ++ ['@', '@'])

/-- A marker stands at the start of the text. -/
def StartsWithMarker (cs : List Char) : Prop :=
  ∃ name, IsName name ∧ spelled name <+: cs

theorem isNameChar_iff {c : Char} : isNameChar c = true ↔ NameChar c := by
  simp only [isNameChar, NameChar, Char.isAlphanum, Char.isAlpha, Char.isUpper, Char.isLower,
    Char.isDigit, Char.le_def, Bool.or_eq_true, Bool.and_eq_true, decide_eq_true_eq, beq_iff_eq,
    ge_iff_le, or_assoc]

instance : DecidablePred IsName := fun name =>
  decidable_of_iff (name ≠ [] ∧ name.all isNameChar = true)
    (by rw [IsName, List.all_eq_true]; simp only [isNameChar_iff])

theorem not_nameChar_at : isNameChar '@' = false := by decide

theorem takeWhile_name {name : List Char} (h : ∀ c ∈ name, NameChar c) (rest : List Char) :
    (name ++ '@' :: rest).takeWhile isNameChar = name := by
  have hname : ∀ c ∈ name, isNameChar c = true := fun c hc => isNameChar_iff.mpr (h c hc)
  rw [List.takeWhile_append_of_pos hname, List.takeWhile_cons_of_neg (by simp [not_nameChar_at]),
    List.append_nil]

theorem dropWhile_name {name : List Char} (h : ∀ c ∈ name, NameChar c) (rest : List Char) :
    (name ++ '@' :: rest).dropWhile isNameChar = '@' :: rest := by
  have hname : ∀ c ∈ name, isNameChar c = true := fun c hc => isNameChar_iff.mpr (h c hc)
  rw [List.dropWhile_append_of_pos hname, List.dropWhile_cons_of_neg (by simp [not_nameChar_at])]

theorem marker?_spelled {name : List Char} (h : IsName name) (rest : List Char) :
    marker? (spelled name ++ rest) = some name := by
  have hsplit : spelled name ++ rest = '@' :: '@' :: (name ++ '@' :: '@' :: rest) := by
    simp [spelled]
  have hne : name.isEmpty = false := by simpa using h.1
  rw [hsplit, marker?, takeWhile_name h.2, dropWhile_name h.2]
  simp [hne]

theorem exists_of_marker? {cs name : List Char} (h : marker? cs = some name) :
    IsName name ∧ ∃ rest, cs = spelled name ++ rest := by
  unfold marker? at h
  split at h
  · rename_i rest
    dsimp only at h
    split at h
    · rename_i rest' hdrop
      split at h
      · cases h
      · rename_i hne
        obtain rfl := Option.some.inj h
        refine ⟨⟨by simpa using hne, fun c hc => ?_⟩, rest', ?_⟩
        · exact isNameChar_iff.mp (List.mem_takeWhile_imp hc)
        · have hrest := List.takeWhile_append_dropWhile (p := isNameChar) (l := rest)
          rw [hdrop] at hrest
          simp [spelled, hrest]
    · cases h
  · cases h

theorem startsWithMarker_spelled {name : List Char} (h : IsName name) (rest : List Char) :
    StartsWithMarker (spelled name ++ rest) :=
  ⟨name, h, List.prefix_append _ _⟩

theorem isSome_marker?_iff {cs : List Char} :
    (marker? cs).isSome = true ↔ StartsWithMarker cs := by
  rw [Option.isSome_iff_exists]
  constructor
  · rintro ⟨name, hmarker⟩
    obtain ⟨hname, rest, rfl⟩ := exists_of_marker? hmarker
    exact startsWithMarker_spelled hname rest
  · rintro ⟨name, hname, rest, rfl⟩
    exact ⟨name, marker?_spelled hname rest⟩

theorem marker?_eq_none {cs : List Char} (h : ¬ StartsWithMarker cs) : marker? cs = none := by
  rwa [← isSome_marker?_iff, Option.not_isSome_iff_eq_none] at h

instance : DecidablePred StartsWithMarker := fun _ =>
  decidable_of_iff _ isSome_marker?_iff

theorem marker?_cons_of_ne {c : Char} (hc : c ≠ '@') (cs : List Char) :
    marker? (c :: cs) = none := by
  apply marker?_eq_none
  rintro ⟨name, _, rest, hspelled⟩
  exact hc (List.cons.inj hspelled).1.symm

/-! ## The pieces of a text -/


/-- The characters that were announced are passed over. -/
theorem piecesFrom_append (passed rest : List Char) :
    piecesFrom passed.length (passed ++ rest) = pieces rest := by
  induction passed with
  | nil => rfl
  | cons c passed ih => rw [List.length_cons, List.cons_append, piecesFrom, ih]

theorem pieces_spelled {name : List Char} (h : IsName name) (rest : List Char) :
    pieces (spelled name ++ rest) = .marker name :: pieces rest := by
  have hmarker : marker? ('@' :: ('@' :: (name ++ ['@', '@']) ++ rest)) = some name :=
    marker?_spelled h rest
  have hlength : name.length + 3 = ('@' :: (name ++ ['@', '@'])).length := by simp
  rw [spelled, List.cons_append, pieces, piecesFrom, hmarker]
  dsimp only
  rw [hlength, piecesFrom_append]

theorem pieces_plain {c : Char} {cs : List Char} (h : marker? (c :: cs) = none) :
    pieces (c :: cs) = .plain c :: pieces cs := by
  rw [pieces, piecesFrom, h]
  rfl

end SiteConf.Source
