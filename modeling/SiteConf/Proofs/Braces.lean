import SiteConf.Proofs.Children
import SiteConf.Proofs.KeyPath
import SiteConf.Template.Value
import Mathlib

set_option autoImplicit false

/-! # Matching braces

The braces of a text match when no closing brace comes too early and none is missing. Texts with
matching braces can be put one after the other and between braces; a text without any brace is
one of them.

Values print with matching braces and on one line, as long as the texts in them have no brace and
no newline: a mapping brings its own braces, and so does the code of a character that does not
print. -/

namespace SiteConf.Text

/-! ## Matching -/

structure Balanced (cs : List Char) : Prop where
  /-- No closing brace comes too early. -/
  early : ∀ p, p <+: cs → p.count '}' ≤ p.count '{'
  /-- No closing brace is missing. -/
  total : cs.count '{' = cs.count '}'

/-- Neither a brace nor a newline is in the text. -/
def Bare (cs : List Char) : Prop :=
  '{' ∉ cs ∧ '}' ∉ cs ∧ '\n' ∉ cs

instance (cs : List Char) : Decidable (Bare cs) :=
  inferInstanceAs (Decidable (_ ∧ _ ∧ _))

/-- The braces match, and there is no newline. -/
structure Inline (cs : List Char) : Prop where
  balanced : Balanced cs
  newline : '\n' ∉ cs

section Matching

variable {cs ds : List Char}

theorem balanced_of_not_mem (hopen : '{' ∉ cs) (hclose : '}' ∉ cs) : Balanced cs where
  early p hp := by
    rw [List.count_eq_zero_of_not_mem fun h => hclose (hp.subset h)]
    exact Nat.zero_le _
  total := by
    rw [List.count_eq_zero_of_not_mem hopen, List.count_eq_zero_of_not_mem hclose]

/-- A beginning of two texts is one of the first, or it is all of the first and a beginning of the
second. -/
theorem prefix_append_cases {p : List Char} (h : p <+: cs ++ ds) :
    p <+: cs ∨ ∃ q, p = cs ++ q ∧ q <+: ds := by
  obtain ⟨rest, hrest⟩ := h
  rcases List.append_eq_append_iff.mp hrest with ⟨q, hq, -⟩ | ⟨q, hq, hds⟩
  · exact .inl ⟨q, hq.symm⟩
  · exact .inr ⟨q, hq, rest, hds.symm⟩

theorem Balanced.append (hcs : Balanced cs) (hds : Balanced ds) : Balanced (cs ++ ds) where
  early p hp := by
    rcases prefix_append_cases hp with hp | ⟨q, rfl, hq⟩
    · exact hcs.early p hp
    · have htotal := hcs.total
      have hearly := hds.early q hq
      rw [List.count_append, List.count_append]
      omega
  total := by
    rw [List.count_append, List.count_append, hcs.total, hds.total]

theorem Balanced.braces (hcs : Balanced cs) : Balanced ('{' :: (cs ++ ['}'])) where
  early p hp := by
    cases p with
    | nil => exact Nat.le_refl _
    | cons c p =>
        obtain ⟨rfl, hinside⟩ := List.cons_prefix_cons.mp hp
        rw [List.count_cons_of_ne (by decide), List.count_cons_self]
        rcases prefix_append_cases hinside with hp | ⟨q, rfl, hq⟩
        · have hearly := hcs.early p hp
          omega
        · have htotal := hcs.total
          have hq := hq.sublist.count_le '}'
          rw [List.count_append, List.count_append]
          rw [List.count_singleton_self] at hq
          omega
  total := by
    have htotal := hcs.total
    simp only [List.count_cons, List.count_append, List.count_nil]
    simp [htotal]

theorem Bare.append (hcs : Bare cs) (hds : Bare ds) : Bare (cs ++ ds) := by
  obtain ⟨hopen, hclose, hline⟩ := hcs
  obtain ⟨hopen', hclose', hline'⟩ := hds
  refine ⟨?_, ?_, ?_⟩ <;> simp [*]

theorem Bare.inline (h : Bare cs) : Inline cs :=
  ⟨balanced_of_not_mem h.1 h.2.1, h.2.2⟩

theorem bare_of_forall (h : ∀ c ∈ cs, Bare [c]) : Bare cs := by
  refine ⟨fun hc => ?_, fun hc => ?_, fun hc => ?_⟩
  · exact (h _ hc).1 List.mem_cons_self
  · exact (h _ hc).2.1 List.mem_cons_self
  · exact (h _ hc).2.2 List.mem_cons_self

theorem Bare.of_mem {c : Char} (h : Bare cs) (hc : c ∈ cs) : Bare [c] := by
  refine ⟨?_, ?_, ?_⟩
  · rw [List.mem_singleton]
    rintro rfl
    exact h.1 hc
  · rw [List.mem_singleton]
    rintro rfl
    exact h.2.1 hc
  · rw [List.mem_singleton]
    rintro rfl
    exact h.2.2 hc

theorem inline_nil : Inline [] :=
  Bare.inline (by decide)

theorem Inline.append (hcs : Inline cs) (hds : Inline ds) : Inline (cs ++ ds) := by
  refine ⟨hcs.balanced.append hds.balanced, ?_⟩
  rw [List.mem_append]
  exact not_or.mpr ⟨hcs.newline, hds.newline⟩

theorem Inline.braces (hcs : Inline cs) : Inline ('{' :: (cs ++ ['}'])) := by
  refine ⟨hcs.balanced.braces, ?_⟩
  have hnewline := hcs.newline
  simp [hnewline]

theorem Inline.flatMap {α : Type} {f : α → List Char} {xs : List α}
    (h : ∀ x ∈ xs, Inline (f x)) : Inline (xs.flatMap f) := by
  induction xs with
  | nil => exact inline_nil
  | cons x xs ih =>
      obtain ⟨hx, hxs⟩ := List.forall_mem_cons.mp h
      rw [List.flatMap_cons]
      exact hx.append (ih hxs)

end Matching

/-! ## Numbers and quoted texts -/

theorem hexDigit_bare : ∀ n < 16, Bare [hexDigit n] := by
  decide

theorem bare_hexUpTo (fuel n : Nat) : Bare (hexUpTo fuel n) := by
  induction fuel generalizing n with
  | zero =>
      rw [hexUpTo]
      decide
  | succ fuel ih =>
      rw [hexUpTo]
      split
      · next hn => exact hexDigit_bare n hn
      · exact (ih _).append (hexDigit_bare _ (Nat.mod_lt n (by decide)))

theorem digitChar_bare : ∀ n < 10, Bare [Number.digitChar n] := by
  decide

theorem bare_showNat (n : Nat) : Bare (Number.showNat n).toList := by
  refine bare_of_forall fun c hc => ?_
  rw [Number.showNat, String.toList_ofList] at hc
  obtain ⟨k, hk, rfl⟩ := Number.exists_digitChar_of_mem_digitsUpTo hc
  exact digitChar_bare k hk

theorem bare_showInt (n : Int) : Bare (Number.showInt n).toList := by
  cases n with
  | ofNat n => exact bare_showNat n
  | negSucc n =>
      rw [Number.showInt, String.toList_append]
      exact Bare.append (by decide) (bare_showNat (n + 1))

/-- One character stands in quotes with matching braces: where it is written by its code, the code
is between braces. -/
theorem inline_escapeIn {quote c : Char} (hc : Bare [c]) : Inline (escapeIn quote c) := by
  have hcode : "\\u\x7b".toList ++ hex c.toNat ++ "\x7d".toList
      = ['\\', 'u'] ++ '{' :: (hex c.toNat ++ ['}']) := by
    simp
  unfold escapeIn
  split
  · exact Bare.inline (by decide)
  split
  · exact Bare.inline (by decide)
  split
  · exact Bare.inline (by decide)
  split
  · exact Bare.inline (by decide)
  split
  · exact Bare.inline (by decide)
  split
  · have hpair : Bare (['\\'] ++ [c]) := Bare.append (by decide) hc
    exact hpair.inline
  split
  · exact hc.inline
  · rw [hcode]
    exact Inline.append (Bare.inline (by decide)) (bare_hexUpTo _ _).inline.braces

theorem inline_quoted {s : String} (hs : Bare s.toList) : Inline (quoted s).toList := by
  rw [quoted, String.toList_append, String.toList_append]
  refine Inline.append (Inline.append (Bare.inline (by decide)) ?_) (Bare.inline (by decide))
  rw [String.toList_ofList]
  exact Inline.flatMap fun c hc => inline_escapeIn (hs.of_mem hc)

theorem bare_doubleQuoted {s : String} (hs : Bare s.toList) : Bare (doubleQuoted s).toList := by
  rw [doubleQuoted, String.toList_append, String.toList_append]
  refine Bare.append (Bare.append (by decide) (bare_of_forall fun d hd => ?_)) (by decide)
  rw [String.toList_ofList] at hd
  obtain ⟨c, hc, hd⟩ := List.mem_flatMap.mp hd
  split at hd
  · rcases List.mem_cons.mp hd with rfl | hd
    · decide
    · obtain rfl := List.mem_singleton.mp hd
      exact hs.of_mem hc
  · obtain rfl := List.mem_singleton.mp hd
    exact hs.of_mem hc

theorem inline_intercalate {texts : List String} (h : ∀ s ∈ texts, Inline s.toList) :
    Inline (String.intercalate ", " texts).toList := by
  rw [String.toList_intercalate]
  induction texts with
  | nil => exact inline_nil
  | cons s texts ih =>
      obtain ⟨hs, htexts⟩ := List.forall_mem_cons.mp h
      cases texts with
      | nil => simpa using hs
      | cons s' texts =>
          have hrest := ih htexts
          rw [List.map_cons, List.map_cons, List.intercalate_cons_cons]
          exact (hs.append (Bare.inline (by decide))).append hrest

end SiteConf.Text

/-! ## Values of a configuration -/

namespace SiteConf.Tree

/-- The texts at the node have neither braces nor newlines: the text that it is, or the names of
its fields. -/
def Unbraced : Tree → Prop
  | scalar (.str s) => Text.Bare s.toList
  | scalar _ => True
  | sequence _ => True
  | mapping fields => ∀ e ∈ fields, Text.Bare e.1.toList

end SiteConf.Tree

namespace SiteConf.Template.Value

open Text SiteConf.Tree

theorem inline_ofScalar {v : Scalar} (h : (Tree.scalar v).Unbraced) :
    Inline (inner (ofScalar v)).toList := by
  cases v with
  | str s => exact inline_quoted h
  | int n => exact (bare_showInt n).inline
  | bool b => cases b <;> exact Bare.inline (by decide)

mutual

theorem inline_inner_ofTree : (t : Tree) → Everywhere Unbraced t →
    Inline (inner (ofTree t)).toList
  | .scalar v, h => by
      rw [ofTree]
      exact inline_ofScalar h.here
  | .sequence items, h => by
      have hitems := inline_innerItems items ((everywhere_sequence items).mp h).2
      rw [ofTree, inner, String.toList_append, String.toList_append]
      exact Inline.append (Inline.append (Bare.inline (by decide)) (inline_intercalate hitems))
        (Bare.inline (by decide))
  | .mapping fields, h => by
      have hfields := inline_innerPairs fields h.here ((everywhere_mapping fields).mp h).2
      rw [ofTree, inner, String.toList_append, String.toList_append]
      exact (inline_intercalate hfields).braces

theorem inline_innerItems : (ts : List Tree) → (∀ t ∈ ts, Everywhere Unbraced t) →
    ∀ s ∈ innerItems (ofItems ts), Inline s.toList
  | [], _ => by
      rw [ofItems, innerItems]
      exact fun s hs => absurd hs List.not_mem_nil
  | t :: ts, h => by
      obtain ⟨ht, hts⟩ := List.forall_mem_cons.mp h
      rw [ofItems, innerItems, List.forall_mem_cons]
      exact ⟨inline_inner_ofTree t ht, inline_innerItems ts hts⟩

theorem inline_innerPairs : (fields : List (String × Tree)) →
    (∀ e ∈ fields, Bare e.1.toList) → (∀ e ∈ fields, Everywhere Unbraced e.2) →
    ∀ s ∈ innerPairs (ofFields fields), Inline s.toList
  | [], _, _ => by
      rw [ofFields, innerPairs]
      exact fun s hs => absurd hs List.not_mem_nil
  | (k, t) :: fields, hkeys, h => by
      obtain ⟨hk, hkeys⟩ := List.forall_mem_cons.mp hkeys
      obtain ⟨ht, hfields⟩ := List.forall_mem_cons.mp h
      rw [ofFields, innerPairs, List.forall_mem_cons]
      refine ⟨?_, inline_innerPairs fields hkeys hfields⟩
      rw [String.toList_append, String.toList_append, inner]
      exact ((inline_quoted hk).append (Bare.inline (by decide))).append
        (inline_inner_ofTree t ht)

end

/-- What a node prints stands on one line with matching braces. -/
theorem inline_text_ofTree {t : Tree} (h : Everywhere Unbraced t) :
    Inline (text (ofTree t)).toList := by
  cases t with
  | scalar v =>
      cases v with
      | str s => exact Bare.inline h.here
      | int n => exact inline_inner_ofTree _ h
      | bool b => exact inline_inner_ofTree _ h
  | sequence items => exact inline_inner_ofTree _ h
  | mapping fields => exact inline_inner_ofTree _ h

end SiteConf.Template.Value
