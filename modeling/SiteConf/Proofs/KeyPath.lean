import SiteConf.Origins
import SiteConf.Tree
import Mathlib

set_option autoImplicit false

/-! # Key paths as lists of segments

A key path is a text, but it stands for a list of segments. As long as no segment holds a dot the
text determines the list (`KeyPath.ofSegments_injective`), and `Origins.under?`, which looks at
texts, tells exactly the lists that extend a list (`Origins.under?_ofSegments`). Indices are
written in decimal, so they hold no dot and different indices are different segments. -/

namespace SiteConf

/-! ## Decimal indices -/

namespace Number

theorem digitChar_spec : ∀ n < 10, digitValue (digitChar n) = n ∧ digitChar n ≠ '.' := by
  decide

theorem ofDigits_append_singleton (cs : List Char) (c : Char) :
    ofDigits (cs ++ [c]) = 10 * ofDigits cs + digitValue c := by
  rw [ofDigits, List.foldl_append]
  rfl

/-- Reading the digits of a number gives the number back. -/
theorem ofDigits_digitsUpTo {fuel n : Nat} (h : n < fuel) : ofDigits (digitsUpTo fuel n) = n := by
  induction fuel generalizing n with
  | zero => omega
  | succ fuel ih =>
      rw [digitsUpTo]
      by_cases hn : n < 10
      · rw [if_pos hn]
        have hd := (digitChar_spec n hn).1
        show 10 * 0 + digitValue (digitChar n) = n
        omega
      · have hmod := (digitChar_spec (n % 10) (Nat.mod_lt n (by decide))).1
        have hdiv := ih (n := n / 10) (by omega)
        rw [if_neg hn, ofDigits_append_singleton, hdiv, hmod]
        omega

theorem exists_digitChar_of_mem_digitsUpTo {fuel n : Nat} {c : Char}
    (h : c ∈ digitsUpTo fuel n) : ∃ k < 10, c = digitChar k := by
  induction fuel generalizing n with
  | zero => cases h
  | succ fuel ih =>
      rw [digitsUpTo] at h
      by_cases hn : n < 10
      · rw [if_pos hn, List.mem_singleton] at h
        exact ⟨n, hn, h⟩
      · rw [if_neg hn, List.mem_append, List.mem_singleton] at h
        rcases h with h | h
        · exact ih h
        · exact ⟨n % 10, Nat.mod_lt n (by decide), h⟩

theorem showNat_injective {m n : Nat} (h : showNat m = showNat n) : m = n := by
  have hdigits : digits m = digits n := String.ofList_injective h
  rw [← ofDigits_digitsUpTo (Nat.lt_succ_self m), ← ofDigits_digitsUpTo (Nat.lt_succ_self n)]
  exact congrArg ofDigits hdigits

end Number

/-! ## Paths without dots in their segments -/

/-- The text holds no dot, so it can be a segment of a path. -/
def Dotless (s : String) : Prop :=
  '.' ∉ s.toList

theorem dotless_showNat (n : Nat) : Dotless (Number.showNat n) := by
  rw [Dotless, Number.showNat, String.toList_ofList]
  intro hdot
  obtain ⟨k, hk, hc⟩ := Number.exists_digitChar_of_mem_digitsUpTo hdot
  exact (Number.digitChar_spec k hk).2 hc.symm

namespace KeyPath

/-- No segment of the path holds a dot. -/
abbrev Plain (p : List String) : Prop :=
  ∀ s ∈ p, Dotless s

theorem plain_append {p q : List String} : Plain (p ++ q) ↔ Plain p ∧ Plain q :=
  List.forall_mem_append

theorem plain_append_showNat {p : List String} (hp : Plain p) (n : Nat) :
    Plain (p ++ [Number.showNat n]) :=
  plain_append.mpr ⟨hp, List.forall_mem_singleton.mpr (dotless_showNat n)⟩

def chars (p : List String) : List Char :=
  p.flatMap fun s => '.' :: s.toList

theorem chars_cons (s : String) (p : List String) :
    chars (s :: p) = '.' :: (s.toList ++ chars p) := by
  simp [chars]

theorem toList_foldl_child (p : List String) (a : String) :
    (p.foldl child a).toList = a.toList ++ chars p := by
  induction p generalizing a with
  | nil => simp [chars]
  | cons s p ih =>
      rw [List.foldl_cons, ih, child, chars_cons]
      simp [String.toList_append]

theorem toList_ofSegments (p : List String) : (ofSegments p).toList = chars p := by
  rw [ofSegments, toList_foldl_child, root, String.toList_empty, List.nil_append]

theorem ofSegments_append (p q : List String) :
    ofSegments (p ++ q) = ofSegments p ++ ofSegments q := by
  apply String.toList_injective
  rw [String.toList_append, toList_ofSegments, toList_ofSegments, toList_ofSegments, chars,
    List.flatMap_append]
  rfl

theorem child_ofSegments (p : List String) (key : String) :
    child (ofSegments p) key = ofSegments (p ++ [key]) := by
  rw [ofSegments, ofSegments, List.foldl_append]
  rfl

theorem item_ofSegments (p : List String) (index : Nat) :
    item (ofSegments p) index = ofSegments (p ++ [Number.showNat index]) :=
  child_ofSegments p (Number.showNat index)

/-- A rest that is empty or starts with a dot. -/
def Boundary (cs : List Char) : Prop :=
  cs = [] ∨ ∃ rest, cs = '.' :: rest

theorem boundary_chars (p : List String) : Boundary (chars p) := by
  cases p with
  | nil => exact .inl rfl
  | cons s p => exact .inr ⟨_, chars_cons s p⟩

theorem boundary_append_chars (p : List String) {cs : List Char} (h : Boundary cs) :
    Boundary (chars p ++ cs) := by
  cases p with
  | nil => exact h
  | cons s p => exact .inr ⟨s.toList ++ chars p ++ cs, by rw [chars_cons, List.cons_append]⟩

/-- Two texts without dots that are followed by boundaries end at the same place. -/
theorem eq_of_append_boundary {a b x y : List Char} (ha : '.' ∉ a) (hb : '.' ∉ b)
    (hx : Boundary x) (hy : Boundary y) (h : a ++ x = b ++ y) : a = b ∧ x = y := by
  induction a generalizing b with
  | nil =>
      cases b with
      | nil => exact ⟨rfl, h⟩
      | cons c b =>
          rcases hx with rfl | ⟨rest, rfl⟩
          · cases h
          · cases h
            exact absurd List.mem_cons_self hb
  | cons c a ih =>
      cases b with
      | nil =>
          rcases hy with rfl | ⟨rest, rfl⟩
          · cases h
          · cases h
            exact absurd List.mem_cons_self ha
      | cons c' b =>
          rw [List.cons_append, List.cons_append, List.cons.injEq] at h
          obtain ⟨hab, hxy⟩ := ih (fun hc => ha (List.mem_cons_of_mem _ hc))
            (fun hc => hb (List.mem_cons_of_mem _ hc)) h.2
          exact ⟨by rw [h.1, hab], hxy⟩

/-- What follows the text of a path at a boundary, inside the text of another path, is the text
of the segments by which the second path extends the first. -/
theorem exists_append_of_chars {p q : List String} (hp : Plain p)
    (hq : Plain q) {cs : List Char} (hcs : Boundary cs) (h : chars p ++ cs = chars q) :
    ∃ r, q = p ++ r ∧ cs = chars r := by
  induction p generalizing q with
  | nil => exact ⟨q, rfl, h⟩
  | cons s p ih =>
      cases q with
      | nil => rw [chars_cons] at h; cases h
      | cons s' q =>
          rw [chars_cons, chars_cons, List.cons_append, List.append_assoc,
            List.cons.injEq] at h
          obtain ⟨hs, hrest⟩ := eq_of_append_boundary (hp s List.mem_cons_self)
            (hq s' List.mem_cons_self) (boundary_append_chars p hcs) (boundary_chars q) h.2
          obtain ⟨r, rfl, hr⟩ := ih (fun t ht => hp t (List.mem_cons_of_mem _ ht))
            (fun t ht => hq t (List.mem_cons_of_mem _ ht)) hrest
          exact ⟨r, by rw [String.toList_injective hs, List.cons_append], hr⟩

/-- **The text of a path determines its segments.** -/
theorem ofSegments_injective {p q : List String} (hp : Plain p)
    (hq : Plain q) (h : ofSegments p = ofSegments q) : p = q := by
  have hchars : chars p ++ [] = chars q := by
    rw [List.append_nil, ← toList_ofSegments, ← toList_ofSegments, h]
  obtain ⟨r, rfl, hr⟩ := exists_append_of_chars hp hq (.inl rfl) hchars
  cases r with
  | nil => rw [List.append_nil]
  | cons s r => rw [chars_cons] at hr; cases hr

end KeyPath

/-! ## The path of a node -/

def Tree.Step.segment : Tree.Step → String
  | .key name => name
  | .index position => Number.showNat position

/-- The segments of the node that the steps lead to. -/
abbrev KeyPath.segments (steps : List Tree.Step) : List String :=
  steps.map Tree.Step.segment

def KeyPath.ofSteps (steps : List Tree.Step) : String :=
  KeyPath.ofSegments (KeyPath.segments steps)

theorem KeyPath.ofSteps_append_key (steps : List Tree.Step) (name : String) :
    KeyPath.ofSteps (steps ++ [.key name]) = KeyPath.child (KeyPath.ofSteps steps) name := by
  rw [ofSteps, ofSteps, child_ofSegments, segments, segments, List.map_append]
  rfl

theorem KeyPath.ofSteps_append_index (steps : List Tree.Step) (position : Nat) :
    KeyPath.ofSteps (steps ++ [.index position])
      = KeyPath.item (KeyPath.ofSteps steps) position := by
  rw [ofSteps, ofSteps, item_ofSegments, segments, segments, List.map_append]
  rfl

theorem KeyPath.segments_nil : KeyPath.segments [] = [] := rfl

theorem KeyPath.segments_append (a b : List Tree.Step) :
    KeyPath.segments (a ++ b) = KeyPath.segments a ++ KeyPath.segments b :=
  List.map_append

/-! ## Paths below a path -/

namespace KeyPath

theorem isPrefix_of_append_singleton {p q : List String} {s : String} (h : p ++ [s] <+: q) :
    p <+: q :=
  (List.prefix_append p [s]).trans h

/-- A list goes on after a prefix in one way. -/
theorem eq_of_isPrefix_append_singleton {α : Type} {p q : List α} {s t : α} (hs : p ++ [s] <+: q)
    (ht : p ++ [t] <+: q) : s = t := by
  have h : p ++ [s] = p ++ [t] :=
    (List.prefix_of_prefix_length_le hs ht (by simp)).eq_of_length (by simp)
  simpa using h

/-- No path lies below two items of a sequence. -/
theorem not_isPrefix_of_ne {p q : List String} {i j : Nat}
    (h : p ++ [Number.showNat i] <+: q) (hne : j ≠ i) : ¬ p ++ [Number.showNat j] <+: q :=
  fun h' => hne (Number.showNat_injective (eq_of_isPrefix_append_singleton h' h))

end KeyPath

theorem Text.dropHead?_eq_some_iff {head text rest : List Char} :
    dropHead? head text = some rest ↔ text = head ++ rest := by
  induction head generalizing text with
  | nil =>
      rw [dropHead?, List.nil_append, Option.some.injEq]
  | cons h hs ih =>
      cases text with
      | nil => simp [dropHead?]
      | cons c cs =>
          rw [dropHead?]
          by_cases hc : h = c
          · rw [if_pos hc, ih, hc, List.cons_append, List.cons.injEq]
            simp
          · rw [if_neg hc]
            simp [Ne.symm hc]

namespace Origins

open KeyPath

theorem under?_eq_some_iff {base path rest : String} :
    under? base path = some rest ↔ path = base ++ rest ∧ Boundary rest.toList := by
  have hsplit : path = base ++ rest ↔
      Text.dropHead? base.toList path.toList = some rest.toList := by
    rw [Text.dropHead?_eq_some_iff, ← String.toList_append, String.toList_inj]
  rw [hsplit]
  rcases hd : Text.dropHead? base.toList path.toList with _ | cs
  · simp [under?, hd]
  · rw [Option.some.injEq]
    rcases cs with _ | ⟨c, cs⟩
    · -- the path is the base itself
      have hu : under? base path = some "" := by rw [under?, hd]
      rw [hu, Option.some.injEq]
      constructor
      · rintro rfl
        exact ⟨rfl, .inl rfl⟩
      · rintro ⟨hrest, -⟩
        exact String.toList_injective hrest
    · by_cases hc : c = '.'
      · subst hc
        have hu : under? base path = some (String.ofList ('.' :: cs)) := by
          rw [under?, hd]
          rfl
        rw [hu, Option.some.injEq]
        constructor
        · rintro rfl
          rw [String.toList_ofList]
          exact ⟨rfl, .inr ⟨cs, rfl⟩⟩
        · rintro ⟨hrest, -⟩
          rw [hrest, String.ofList_toList]
      · -- the two texts part inside a segment
        have hu : under? base path = none := by
          rw [under?, hd]
          split <;> simp_all
        rw [hu]
        constructor
        · intro h
          cases h
        · rintro ⟨hrest, hb | ⟨cs', hb⟩⟩
          · rw [hb] at hrest
            cases hrest
          · rw [hb] at hrest
            cases hrest
            exact absurd rfl hc

theorem under?_append (base : String) (r : List String) :
    under? base (base ++ ofSegments r) = some (ofSegments r) := by
  rw [under?_eq_some_iff, toList_ofSegments]
  exact ⟨rfl, boundary_chars r⟩

/-- **Below in text is below in segments.** -/
theorem under?_ofSegments {p q : List String} (hp : Plain p)
    (hq : Plain q) {rest : String} :
    under? (ofSegments p) (ofSegments q) = some rest ↔
      ∃ r, q = p ++ r ∧ rest = ofSegments r := by
  constructor
  · intro h
    obtain ⟨hpath, hb⟩ := under?_eq_some_iff.mp h
    have hchars : chars p ++ rest.toList = chars q := by
      rw [← toList_ofSegments, ← toList_ofSegments, ← String.toList_append, hpath]
    obtain ⟨r, hr, hrest⟩ := exists_append_of_chars hp hq hb hchars
    refine ⟨r, hr, String.toList_injective ?_⟩
    rw [hrest, toList_ofSegments]
  · rintro ⟨r, rfl, rfl⟩
    rw [ofSegments_append]
    exact under?_append _ r

end Origins

end SiteConf
