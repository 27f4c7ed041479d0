import SiteConf.Proofs.Children
import SiteConf.Proofs.Readings
import SiteConf.Tree.Json

set_option autoImplicit false

/-! # The tokens of JSON text

The compact JSON text of a tree has no white space, so all its tokens are on the first line. A
number or a word ends where a mark follows it, and a mark always does, unless the text ends. Hence
no token merges with the next one, and `tokenize_toJson` gives the tokens of the text. -/

namespace SiteConf

/-! ## Portable trees -/

namespace Tree

/-- The text holds no control below the space, except the newline, the carriage return and the
tab. -/
def Legible (s : String) : Prop :=
  ∀ c ∈ s.toList, c.toNat < 32 → c = '\n' ∨ c = '\r' ∨ c = '\t'

/-- What a node has to be to survive the way through JSON. Integers have 64 bits, without the
smallest one, which is not the negation of an integer of 64 bits. -/
def Portable : Tree → Prop
  | scalar (.str s) => Legible s
  | scalar (.int n) => -2 ^ 63 < n ∧ n < 2 ^ 63
  | scalar (.bool _) => True
  | sequence _ => True
  | mapping fields => (Ordered.keys fields).Nodup ∧
      ∀ k ∈ Ordered.keys fields, k ≠ "" ∧ Dotless k ∧ Legible k

/-- The tokens of a scalar: a negative integer has a minus of its own. -/
def scalarTokens : Scalar → List Token
  | .str s => [⟨.str s, 1⟩]
  | .int (.ofNat n) => [⟨.int n, 1⟩]
  | .int (.negSucc n) => [⟨.minus, 1⟩, ⟨.int (n + 1 : Nat), 1⟩]
  | .bool b => [⟨.bool b, 1⟩]

mutual

def jsonTokens : Tree → List Token
  | scalar v => scalarTokens v
  | sequence items => ⟨.lbracket, 1⟩ :: ((itemTokens items).tail ++ [⟨.rbracket, 1⟩])
  | mapping fields => ⟨.lbrace, 1⟩ :: ((fieldTokens fields).tail ++ [⟨.rbrace, 1⟩])

/-- The tokens of items, each after a comma. -/
def itemTokens : List Tree → List Token
  | [] => []
  | t :: ts => ⟨.comma, 1⟩ :: (t.jsonTokens ++ itemTokens ts)

/-- The tokens of entries, each after a comma. -/
def fieldTokens : List (String × Tree) → List Token
  | [] => []
  | (k, t) :: rest =>
      ⟨.comma, 1⟩ :: ⟨.str k, 1⟩ :: ⟨.colon, 1⟩ :: (t.jsonTokens ++ fieldTokens rest)

end

end Tree

namespace Token

open SiteConf.Tree

/-! ## Scanning one token -/

/-- The characters on the first line have the tokens. -/
def Scans (cs : List Char) (tokens : List Token) : Prop :=
  ∀ fuel, cs.length < fuel → scan fuel 1 cs = .ok tokens

theorem scans_nil : Scans [] [⟨.eof, 1⟩] := by
  intro fuel hfuel
  obtain ⟨fuel, rfl⟩ := Nat.exists_eq_add_one_of_ne_zero (Nat.ne_of_gt hfuel)
  rfl

section Scans

variable {c : Char} {cs rest : List Char} {kind : TokenKind} {tokens : List Token}

/-- A token is scanned where it is spelled, on one line. -/
theorem Scans.spelled (hrest : Scans rest tokens) (h : Spells kind cs) (hstops : Stops kind rest)
    (hline : '\n' ∉ cs) : Scans (cs ++ rest) (⟨kind, 1⟩ :: tokens) := by
  intro fuel hfuel
  have hne : 0 < cs.length := by
    obtain ⟨c, l, rfl, -⟩ := h.exists_visible
    simp
  rw [List.length_append] at hfuel
  obtain ⟨fuel, rfl⟩ := Nat.exists_eq_add_one_of_ne_zero (Nat.ne_of_gt (Nat.zero_lt_of_lt hfuel))
  rw [scan_lexeme h hstops, List.count_eq_zero.mpr hline, hrest fuel (by omega)]
  rfl

/-- Marks are no newlines. -/
theorem newline_not_mem_mark (h : punctuation? c = some kind) : '\n' ∉ [c] := by
  have hvisible := (marks_lexical (mem_marks_of_punctuation? h)).1
  exact fun hmem => (isVisible_iff.mp hvisible).1 (List.mem_singleton.mp hmem).symm

theorem Scans.mark (hrest : Scans rest tokens) (h : punctuation? c = some kind) :
    Scans (c :: rest) (⟨kind, 1⟩ :: tokens) :=
  hrest.spelled (.mark h) (stops_of_punctuation? h rest) (newline_not_mem_mark h)

/-- A mark delimits what stands before it. -/
theorem delimited_of_punctuation? (h : (punctuation? c).isSome = true) (rest : List Char) :
    Delimited (c :: rest) := by
  intro d hd
  obtain rfl : c = d := by simpa using hd
  obtain ⟨kind, hkind⟩ := Option.isSome_iff_exists.mp h
  exact (marks_lexical (mem_marks_of_punctuation? hkind)).2

/-! ## Texts -/

/-- A character of a JSON string stands for itself, alone or after a backslash. -/
theorem jsonChar_cases (h : c.toNat < 32 → c = '\n' ∨ c = '\r' ∨ c = '\t') :
    (∃ e, jsonChar c = ['\\', e] ∧ e ≠ '\n' ∧ unescape e = [c]) ∨
      (jsonChar c = [c] ∧ c ≠ '"' ∧ c ≠ '\\' ∧ c ≠ '\n') := by
  by_cases hcontrol : c.toNat < 32
  · -- the three controls that are left all have a short escape
    rcases h hcontrol with rfl | rfl | rfl
    · exact .inl ⟨'n', by decide, by decide, by decide⟩
    · exact .inl ⟨'r', by decide, by decide, by decide⟩
    · exact .inl ⟨'t', by decide, by decide, by decide⟩
  · by_cases hquote : c = '"'
    · subst hquote
      exact .inl ⟨'"', by decide, by decide, by decide⟩
    · by_cases hbackslash : c = '\\'
      · subst hbackslash
        exact .inl ⟨'\\', by decide, by decide, by decide⟩
      · refine .inr ⟨?_, hquote, hbackslash, ?_⟩
        · unfold jsonChar
          rw [if_neg hquote, if_neg hbackslash, if_neg (by omega), if_neg (by omega),
            if_neg (by omega), if_neg (by omega), if_neg (by omega), if_neg hcontrol]
        · rintro rfl
          exact hcontrol (by decide)

theorem written_jsonChars {s : List Char}
    (hs : ∀ c ∈ s, c.toNat < 32 → c = '\n' ∨ c = '\r' ∨ c = '\t') :
    Written '"' (s.flatMap jsonChar) s ∧ '\n' ∉ s.flatMap jsonChar := by
  induction s with
  | nil => exact ⟨.nil, List.not_mem_nil⟩
  | cons c s ih =>
      obtain ⟨hc, hs⟩ := List.forall_mem_cons.mp hs
      obtain ⟨hwritten, hline⟩ := ih hs
      rw [List.flatMap_cons]
      rcases jsonChar_cases hc with
        ⟨e, hjson, he, hunescape⟩ | ⟨hjson, hquote, hbackslash, hnewline⟩
      · rw [hjson]
        have hescaped := Written.escaped e hwritten
        rw [hunescape] at hescaped
        exact ⟨hescaped, by simp [Ne.symm he, hline]⟩
      · rw [hjson]
        exact ⟨.plain hquote hbackslash hnewline hwritten, by simp [Ne.symm hnewline, hline]⟩

theorem toList_jsonString (s : String) :
    (jsonString s).toList = '"' :: (s.toList.flatMap jsonChar ++ ['"']) := by
  simp [jsonString]

theorem Scans.text (hrest : Scans rest tokens) {s : String} (hs : Legible s) :
    Scans ((jsonString s).toList ++ rest) (⟨.str s, 1⟩ :: tokens) := by
  obtain ⟨hwritten, hline⟩ := written_jsonChars hs
  have hspells : Spells (.str s) ('"' :: (s.toList.flatMap jsonChar ++ ['"'])) := by
    rw [← String.ofList_toList (s := s)]
    simpa using Spells.text (.inl rfl) hwritten
  rw [toList_jsonString]
  exact hrest.spelled hspells trivial (by simpa using hline)

/-! ## Numbers and truth values -/

theorem Scans.numeral (hrest : Scans rest tokens) (hdelimited : Delimited rest) {n : Nat}
    (hn : (n : Int) ≤ Number.maxInt) :
    Scans (Number.digits n ++ rest) (⟨.int n, 1⟩ :: tokens) := by
  refine hrest.spelled (spells_digits hn) (hdelimited.stops _) fun hmem => ?_
  exact absurd (isDigit_of_mem_digits hmem) (by decide)

theorem Scans.word (hrest : Scans rest tokens) (hdelimited : Delimited rest)
    (hc : startsWord c = true) (hcs : ∀ d ∈ cs, continuesWord d = true) :
    Scans (c :: cs ++ rest) (⟨ofWord (c :: cs), 1⟩ :: tokens) := by
  refine hrest.spelled (.word hc hcs) (hdelimited.stops _) fun hmem => ?_
  have hnewline : continuesWord '\n' = true := by
    rcases List.mem_cons.mp hmem with rfl | hmem
    · exact continuesWord_of_startsWord hc
    · exact hcs _ hmem
  exact absurd hnewline (by decide +kernel)

theorem Scans.truth (hrest : Scans rest tokens) (hdelimited : Delimited rest) (b : Bool) :
    Scans ((jsonScalar (.bool b)).toList ++ rest) (⟨.bool b, 1⟩ :: tokens) := by
  cases b with
  | true =>
      have htext : (jsonScalar (.bool true)).toList = ['t', 'r', 'u', 'e'] := by decide
      have hword : ofWord ['t', 'r', 'u', 'e'] = .bool true := by decide
      have hmore : ['r', 'u', 'e'].all continuesWord = true := by decide +kernel
      rw [htext, ← hword]
      exact hrest.word hdelimited (by decide) (List.all_eq_true.mp hmore)
  | false =>
      have htext : (jsonScalar (.bool false)).toList = ['f', 'a', 'l', 's', 'e'] := by decide
      have hword : ofWord ['f', 'a', 'l', 's', 'e'] = .bool false := by decide
      have hmore : ['a', 'l', 's', 'e'].all continuesWord = true := by decide +kernel
      rw [htext, ← hword]
      exact hrest.word hdelimited (by decide) (List.all_eq_true.mp hmore)

/-- Marks do not depend on what follows them. -/
theorem Scans.of_mark (h : punctuation? c = some kind)
    (hall : Scans (c :: rest) (⟨kind, 1⟩ :: tokens)) : Scans rest tokens := by
  intro fuel hfuel
  have hscan := hall (fuel + 1) (by rw [List.length_cons]; omega)
  have hstep := scan_lexeme (.mark h) (stops_of_punctuation? h rest) fuel 1
  rw [List.count_eq_zero.mpr (newline_not_mem_mark h)] at hstep
  rw [← List.singleton_append, hstep] at hscan
  rcases hrest : scan fuel 1 rest with e | tokens'
  · rw [hrest] at hscan
    cases hscan
  · rw [hrest] at hscan
    obtain ⟨-, rfl⟩ := List.cons.inj (Except.ok.inj hscan)
    rfl

/-! ## Scanning a tree -/

/-- The characters of the texts, with a comma before each. -/
def afterCommas (texts : List String) : List Char :=
  texts.flatMap fun s => ',' :: s.toList

theorem afterCommas_cons (s : String) (texts : List String) :
    afterCommas (s :: texts) = ',' :: (s.toList ++ afterCommas texts) := rfl

/-- Texts with commas between them are texts with commas before them, without the first comma. -/
theorem toList_intercalate_comma (texts : List String) :
    (String.intercalate "," texts).toList = (afterCommas texts).tail := by
  rw [String.toList_intercalate, afterCommas]
  induction texts with
  | nil => rfl
  | cons s texts ih =>
      cases texts with
      | nil => simp
      | cons s' texts => simp_all

theorem delimited_afterCommas (texts : List String) (hrest : Delimited rest) :
    Delimited (afterCommas texts ++ rest) := by
  cases texts with
  | nil => exact hrest
  | cons s texts => exact delimited_of_punctuation? rfl _

theorem Scans.scalar (hrest : Scans rest tokens) (hdelimited : Delimited rest) {v : Scalar}
    (hv : (Tree.scalar v).Portable) :
    Scans ((jsonScalar v).toList ++ rest) (scalarTokens v ++ tokens) := by
  cases v with
  | str s => exact hrest.text hv
  | bool b => exact hrest.truth hdelimited b
  | int n =>
      obtain ⟨hlo, hhi⟩ := hv
      cases n with
      | ofNat n =>
          have hn : (n : Int) ≤ Number.maxInt := Int.le_of_lt_add_one hhi
          have hscans := hrest.numeral hdelimited hn
          simpa [jsonScalar, Number.showInt, Number.showNat, scalarTokens] using hscans
      | negSucc n =>
          have hn : ((n + 1 : Nat) : Int) ≤ Number.maxInt := by
            rw [Number.maxInt]
            omega
          have hscans := (hrest.numeral hdelimited hn).mark (c := '-') rfl
          simpa [jsonScalar, Number.showInt, Number.showNat, scalarTokens] using hscans

end Scans

mutual

/-- **The JSON text of a tree has its tokens**, whatever follows the text. -/
theorem Scans.tree : ∀ (t : Tree) {rest : List Char} {tokens : List Token},
    Everywhere Portable t → Delimited rest → Scans rest tokens →
    Scans (t.toJson.toList ++ rest) (t.jsonTokens ++ tokens)
  | .scalar v, rest, tokens, ht, hdelimited, hrest => by
      rw [toJson, jsonTokens]
      exact hrest.scalar hdelimited ht.here
  | .sequence items, rest, tokens, ht, hdelimited, hrest => by
      obtain ⟨-, hitems⟩ := (everywhere_sequence items).mp ht
      -- from the end of the text to its start: the bracket, the items, the bracket
      have hclosed : Scans (']' :: rest) (⟨.rbracket, 1⟩ :: tokens) := hrest.mark rfl
      have hcommas := Scans.items items hitems (delimited_of_punctuation? rfl rest) hclosed
      have hbody : Scans ((afterCommas (toJsonItems items)).tail ++ ']' :: rest)
          ((itemTokens items).tail ++ ⟨.rbracket, 1⟩ :: tokens) := by
        cases items with
        | nil => exact hclosed
        | cons t ts =>
            rw [toJsonItems, afterCommas_cons, itemTokens] at hcommas ⊢
            exact hcommas.of_mark rfl
      rw [toJson, jsonTokens, String.toList_append, String.toList_append, toList_intercalate_comma]
      simpa using hbody.mark (c := '[') rfl
  | .mapping fields, rest, tokens, ht, hdelimited, hrest => by
      obtain ⟨hkeys, hfields⟩ := (everywhere_mapping fields).mp ht
      have hclosed : Scans ('}' :: rest) (⟨.rbrace, 1⟩ :: tokens) := hrest.mark rfl
      have hcommas := Scans.fields fields
        (fun e he => ⟨(hkeys.2 e.1 (List.mem_map_of_mem he)).2.2, hfields e he⟩)
        (delimited_of_punctuation? rfl rest) hclosed
      have hbody : Scans ((afterCommas (toJsonFields fields)).tail ++ '}' :: rest)
          ((fieldTokens fields).tail ++ ⟨.rbrace, 1⟩ :: tokens) := by
        cases fields with
        | nil => exact hclosed
        | cons e fields =>
            obtain ⟨k, t⟩ := e
            rw [toJsonFields, afterCommas_cons, fieldTokens] at hcommas ⊢
            exact hcommas.of_mark rfl
      rw [toJson, jsonTokens, String.toList_append, String.toList_append, toList_intercalate_comma]
      simpa using hbody.mark (c := '{') rfl

theorem Scans.items : ∀ (items : List Tree) {rest : List Char} {tokens : List Token},
    (∀ t ∈ items, Everywhere Portable t) → Delimited rest → Scans rest tokens →
    Scans (afterCommas (toJsonItems items) ++ rest) (itemTokens items ++ tokens)
  | [], rest, tokens, _, hdelimited, hrest => hrest
  | t :: ts, rest, tokens, hitems, hdelimited, hrest => by
      obtain ⟨ht, hts⟩ := List.forall_mem_cons.mp hitems
      have hlater := Scans.items ts hts hdelimited hrest
      have hhere := Scans.tree t ht (delimited_afterCommas (toJsonItems ts) hdelimited) hlater
      rw [toJsonItems, itemTokens, afterCommas_cons]
      simpa using hhere.mark (c := ',') rfl

theorem Scans.fields : ∀ (fields : List (String × Tree)) {rest : List Char} {tokens : List Token},
    (∀ e ∈ fields, Legible e.1 ∧ Everywhere Portable e.2) → Delimited rest → Scans rest tokens →
    Scans (afterCommas (toJsonFields fields) ++ rest) (fieldTokens fields ++ tokens)
  | [], rest, tokens, _, hdelimited, hrest => hrest
  | (k, t) :: fields, rest, tokens, hfields, hdelimited, hrest => by
      obtain ⟨⟨hk, ht⟩, hfields⟩ := List.forall_mem_cons.mp hfields
      have hlater := Scans.fields fields hfields hdelimited hrest
      have hvalue := Scans.tree t ht (delimited_afterCommas (toJsonFields fields) hdelimited) hlater
      have hhere := (hvalue.mark (c := ':') rfl).text hk
      rw [toJsonFields, fieldTokens, afterCommas_cons]
      simpa using hhere.mark (c := ',') rfl

end

/-- The JSON text of a portable tree is read as its tokens. -/
theorem tokenize_toJson {t : Tree} (h : Everywhere Portable t) :
    tokenize t.toJson = .ok (t.jsonTokens ++ [⟨.eof, 1⟩]) := by
  have hdelimited : Delimited [] := nofun
  have hscans := Scans.tree t h hdelimited scans_nil
  rw [List.append_nil] at hscans
  exact hscans _ (Nat.lt_succ_self _)

end Token

end SiteConf
