import SiteConf.Proofs.Lexemes
import Mathlib

set_option autoImplicit false

/-! # Signed decimal numerals

What integer a text denotes, by the value of its digits: `Denotes` says it without the reader.
The reader accepts exactly the numerals of integers that fit in 64 bits (`readInt?_eq_some_iff`),
and an integer that is written out denotes itself (`denotes_showInt`). -/

namespace SiteConf.Number

/-! ## The value of digits -/

/-- The number that a run of digits stands for in the positional system. -/
def positional (run : List Char) : Nat :=
  Nat.ofDigits 10 (run.reverse.map digitValue)

theorem ofDigits_eq_positional (run : List Char) : ofDigits run = positional run := by
  induction run using List.reverseRecOn with
  | nil => rfl
  | append_singleton run c ih =>
      have hlast : positional (run ++ [c]) = digitValue c + 10 * positional run := by
        rw [positional, List.reverse_append, List.reverse_singleton, List.singleton_append,
          List.map_cons, Nat.ofDigits_cons]
        rfl
      rw [ofDigits_append_singleton, ih, hlast, Nat.add_comm]

theorem positional_digits (n : Nat) : positional (digits n) = n := by
  rw [← ofDigits_eq_positional]
  exact ofDigits_digitsUpTo (Nat.lt_succ_self n)

theorem digits_ne_nil (n : Nat) : digits n ≠ [] := by
  rw [digits, digitsUpTo]
  split <;> simp

/-! ## Numerals -/

/-- The characters are decimal digits, and there are some. -/
def IsRun (run : List Char) : Prop :=
  run ≠ [] ∧ ∀ c ∈ run, c.isDigit = true

theorem isRun_digits (n : Nat) : IsRun (digits n) :=
  ⟨digits_ne_nil n, fun _ hc => Token.isDigit_of_mem_digits hc⟩

/-- The text is the numeral of the integer: a run of digits, after one sign at most. -/
inductive Denotes : List Char → Int → Prop where
  | plain {run : List Char} (hrun : IsRun run) : Denotes run (positional run)
  | plus {run : List Char} (hrun : IsRun run) : Denotes ('+' :: run) (positional run)
  | minus {run : List Char} (hrun : IsRun run) : Denotes ('-' :: run) (-(positional run : Int))

/-- The integer of a run of digits, if it is a run and the integer fits. -/
def readRun? (value : Nat → Int) (run : List Char) : Option Int :=
  if !run.isEmpty && run.all Char.isDigit then
    if fits (value (ofDigits run)) then some (value (ofDigits run)) else none
  else none

theorem readRun?_eq_some_iff {value : Nat → Int} {run : List Char} {n : Int} :
    readRun? value run = some n ↔ IsRun run ∧ n = value (positional run) ∧ fits n = true := by
  have hrun : (!run.isEmpty && run.all Char.isDigit) = true ↔ IsRun run := by
    rw [IsRun, Bool.and_eq_true, List.all_eq_true]
    simp
  rw [readRun?, ofDigits_eq_positional]
  by_cases h : IsRun run
  · rw [if_pos (hrun.mpr h)]
    by_cases hfits : fits (value (positional run)) = true
    · rw [if_pos hfits, Option.some_inj]
      constructor
      · rintro rfl
        exact ⟨h, rfl, hfits⟩
      · rintro ⟨-, rfl, -⟩
        rfl
    · rw [if_neg hfits]
      constructor
      · rintro ⟨⟩
      · rintro ⟨-, rfl, hn⟩
        exact absurd hn hfits
  · rw [if_neg (mt hrun.mp h)]
    constructor
    · rintro ⟨⟩
    · rintro ⟨hr, -⟩
      exact absurd hr h

theorem readInt?_minus (run : List Char) :
    readInt? ('-' :: run) = readRun? (fun k => -(k : Int)) run := rfl

theorem readInt?_plus (run : List Char) : readInt? ('+' :: run) = readRun? (fun k => k) run := rfl

theorem readInt?_unsigned {cs : List Char} (h : ∀ c ∈ cs.head?, c ≠ '-' ∧ c ≠ '+') :
    readInt? cs = readRun? (fun k => k) cs := by
  unfold readInt?
  split
  · exact absurd rfl (h '-' rfl).1
  · exact absurd rfl (h '+' rfl).2
  · rfl

/-- A digit is no sign. -/
theorem IsRun.head_ne_sign {run : List Char} (h : IsRun run) :
    ∀ c ∈ run.head?, c ≠ '-' ∧ c ≠ '+' := by
  intro c hc
  have hdigit := h.2 c (List.mem_of_mem_head? hc)
  constructor
  · rintro rfl
    exact absurd hdigit (by decide)
  · rintro rfl
    exact absurd hdigit (by decide)

/-- **The reader accepts the numerals of integers that fit.** -/
theorem readInt?_eq_some_iff {cs : List Char} {n : Int} :
    readInt? cs = some n ↔ Denotes cs n ∧ fits n = true := by
  constructor
  · intro h
    by_cases hunsigned : ∀ c ∈ cs.head?, c ≠ '-' ∧ c ≠ '+'
    · rw [readInt?_unsigned hunsigned, readRun?_eq_some_iff] at h
      obtain ⟨hrun, rfl, hfits⟩ := h
      exact ⟨.plain hrun, hfits⟩
    · rcases cs with _ | ⟨c, run⟩
      · exact absurd (by simp) hunsigned
      · have hsign : c = '-' ∨ c = '+' := by
          simpa [or_iff_not_imp_left] using hunsigned
        rcases hsign with rfl | rfl
        · rw [readInt?_minus, readRun?_eq_some_iff] at h
          obtain ⟨hrun, rfl, hfits⟩ := h
          exact ⟨.minus hrun, hfits⟩
        · rw [readInt?_plus, readRun?_eq_some_iff] at h
          obtain ⟨hrun, rfl, hfits⟩ := h
          exact ⟨.plus hrun, hfits⟩
  · rintro ⟨hdenotes, hfits⟩
    cases hdenotes with
    | plain hrun =>
        rw [readInt?_unsigned hrun.head_ne_sign]
        exact readRun?_eq_some_iff.mpr ⟨hrun, rfl, hfits⟩
    | plus hrun =>
        rw [readInt?_plus]
        exact readRun?_eq_some_iff.mpr ⟨hrun, rfl, hfits⟩
    | minus hrun =>
        rw [readInt?_minus]
        exact readRun?_eq_some_iff.mpr ⟨hrun, rfl, hfits⟩

/-! ## Written integers -/

theorem toList_showInt_ofNat (m : Nat) : (showInt (Int.ofNat m)).toList = digits m := by
  rw [showInt, showNat, String.toList_ofList]

theorem toList_showInt_negSucc (m : Nat) :
    (showInt (Int.negSucc m)).toList = '-' :: digits (m + 1) := by
  simp [showInt, showNat, String.toList_append]

theorem toList_showInt_neg {m : Nat} (h : 0 < m) :
    (showInt (-(m : Int))).toList = '-' :: digits m := by
  obtain ⟨m, rfl⟩ := Nat.exists_eq_add_one_of_ne_zero (Nat.ne_of_gt h)
  rw [← toList_showInt_negSucc]
  rfl

/-- An integer that is written out denotes itself. -/
theorem denotes_showInt (n : Int) : Denotes (showInt n).toList n := by
  cases n with
  | ofNat m =>
      have h := Denotes.plain (isRun_digits m)
      rw [positional_digits] at h
      rw [toList_showInt_ofNat]
      exact h
  | negSucc m =>
      have h := Denotes.minus (isRun_digits (m + 1))
      rw [positional_digits] at h
      rw [toList_showInt_negSucc]
      exact h

end SiteConf.Number
