import SiteConf.Proofs.LiteralLines
import SiteConf.Proofs.Loading
import SiteConf.Proofs.Preprocessing
import SiteConf.Proofs.TokenLines

set_option autoImplicit false

/-! # Line fidelity

Every line that loading a configuration speaks of is a line of the text that was loaded.

* Settling a document copies lines and makes none (`linesIn_settle`).
* Parsing takes the lines of the table from the characters of the text (`linesIn_of_parse`), and
  those of an error too (`parse_within`).
* Preprocessing keeps the number of lines, and a line that is not empty after it was an active line
  before (`preprocessNamed_kept`).

Together they give `load_lines`. -/

namespace SiteConf

/-! ## Lines of a table -/

namespace Origins

/-- All the lines of the entries have the property. -/
def LinesIn (P : Nat → Prop) (entries : List (String × Nat)) : Prop :=
  ∀ e ∈ entries, P e.2

section LinesIn

variable {P : Nat → Prop} {table : Origins} {parts : List (String × Nat)}

theorem LinesIn.of_lineOf (h : LinesIn P table.entries) {path : String} {n : Nat}
    (hn : table.lineOf path = some n) : P n :=
  h _ (Ordered.mem_of_get? hn)

theorem LinesIn.record (h : LinesIn P table.entries) (path : String) {n : Nat} (hn : P n) :
    LinesIn P (table.record path n).entries := by
  intro e he
  rcases Ordered.eq_or_mem_of_mem_insert he with rfl | hmem
  · exact hn
  · exact h e hmem

theorem LinesIn.removeSubtree (h : LinesIn P table.entries) (base : String) :
    LinesIn P (table.removeSubtree base).entries :=
  fun e he => h e (List.mem_of_mem_filter he)

theorem LinesIn.subtree (h : LinesIn P table.entries) (base : String) :
    LinesIn P (table.subtree base) := by
  intro part hpart
  obtain ⟨e, he, hrest⟩ := List.mem_filterMap.mp hpart
  obtain ⟨rest, -, rfl⟩ := Option.map_eq_some_iff.mp hrest
  exact h e he

theorem LinesIn.graft (h : LinesIn P table.entries) (base : String) (hparts : LinesIn P parts) :
    LinesIn P (table.graft base parts).entries := by
  induction parts generalizing table with
  | nil => exact h
  | cons part parts ih =>
      obtain ⟨hpart, hparts⟩ := List.forall_mem_cons.mp hparts
      exact ih (h.record (base ++ part.1) hpart) hparts

theorem LinesIn.copySubtree (h : LinesIn P table.entries) (source target : String) :
    LinesIn P (table.copySubtree source target).entries :=
  h.graft target (h.subtree source)

end LinesIn

end Origins

/-! ## Settling -/

namespace Document

open KeyPath Origins

section Settling

variable {P : Nat → Prop} {table : Origins}

/-- The lines of inherited headers, and the line of the nearest `headers` key, have the
property. -/
structure Inheritance.LinesIn (P : Nat → Prop) (above : Inheritance) : Prop where
  headers : ∀ header ∈ above.headers, Origins.LinesIn P header.lines
  line : ∀ n ∈ above.line, P n

theorem linesIn_copyItems (h : LinesIn P table.entries) (source target : String)
    (offset count : Nat) : LinesIn P (copyItems source target offset count table).entries := by
  unfold copyItems
  induction List.range count generalizing table with
  | nil => exact h
  | cons k ks ih => exact ih (h.copySubtree _ _)

theorem linesIn_claimLine (h : LinesIn P table.entries) (i : Nat) :
    LinesIn P (claimLine i table).entries := by
  unfold claimLine
  split
  · exact h
  · split
    · rename_i line hline
      exact h.record _ (h.of_lineOf hline)
    · exact h

theorem linesIn_shareInto (h : LinesIn P table.entries) (shared : List Tree) (i : Nat)
    (server : Tree) : LinesIn P (shareInto shared i server table).2.entries := by
  rcases shareInto_cases shared i server table with
    ⟨-, hinto⟩ | ⟨_, _, -, -, hinto⟩ | ⟨_, _, -, -, hinto⟩
  · rw [hinto]
    exact h
  · rw [hinto]
    exact linesIn_claimLine h i
  · rw [hinto]
    exact linesIn_copyItems (linesIn_claimLine h i) _ _ _ _

/-- A loop over the items keeps the property of the lines if every item does. -/
theorem linesIn_walk {f : Nat → Tree → Origins → Tree × Origins}
    (hf : ∀ i t table, LinesIn P table.entries → LinesIn P (f i t table).2.entries)
    (h : LinesIn P table.entries) (ts : List Tree) :
    LinesIn P (walk f 0 ts table).2.entries :=
  (walk_keeps (P := fun _ => True) (fun i t table _ htable => ⟨trivial, hf i t table htable⟩) 0
    (fun _ _ => trivial) h).2

theorem linesIn_shareLocations {doc : Document} (h : LinesIn P doc.origins.entries) :
    LinesIn P doc.shareLocations.origins.entries := by
  rcases shareLocations_cases doc with ⟨-, hshare⟩ | ⟨_, _, _, table, -, -, hshare, htable⟩
  · rw [hshare]
    exact h
  · rw [hshare]
    rcases htable with ⟨-, rfl⟩ | ⟨list, shared, -, -, -, rfl⟩
    · exact h
    · exact linesIn_walk (fun i t table htable => linesIn_shareInto htable shared i t) h list

theorem linesIn_headersOf (h : LinesIn P table.entries) (owner : Tree) (path : String) :
    ∀ header ∈ headersOf owner path table, LinesIn P header.lines := by
  intro header hheader
  obtain ⟨item, -, rfl⟩ := List.mem_map.mp hheader
  exact h.subtree _

/-- The headers of a node come below those from above, and its `headers` key is nearer. -/
theorem Inheritance.LinesIn.add {above : Inheritance} (habove : above.LinesIn P)
    (h : Origins.LinesIn P table.entries) (owner : Tree) (path : String) :
    Inheritance.LinesIn P
      ⟨above.headers ++ headersOf owner path table, (headersLine path table).or above.line⟩ := by
  refine ⟨List.forall_mem_append.mpr ⟨habove.headers, linesIn_headersOf h owner path⟩, ?_⟩
  intro n hn
  rcases Option.or_eq_some_iff.mp hn with hnear | ⟨-, hfar⟩
  · exact h.of_lineOf hnear
  · exact habove.line n hfar

theorem linesIn_recordHeaders (h : LinesIn P table.entries) (path : String)
    {above : Inheritance} (habove : above.LinesIn P) :
    LinesIn P (recordHeaders path above.line above.headers table).entries := by
  obtain ⟨headers, line⟩ := above
  obtain ⟨hheaders, hline⟩ := habove
  have hparts : ∀ item ∈ headers.zipIdx, LinesIn P item.1.lines :=
    fun item hitem => hheaders _ (List.fst_mem_of_mem_zipIdx hitem)
  -- the table grows header by header
  have hgrow : ∀ (items : List (Header × Nat)) (start : Origins),
      (∀ item ∈ items, LinesIn P item.1.lines) → LinesIn P start.entries →
      LinesIn P (items.foldl (fun o item => o.graft (KeyPath.item path item.2) item.1.lines)
        start).entries := by
    intro items
    induction items with
    | nil => exact fun start _ hstart => hstart
    | cons item items ih =>
        intro start hitems hstart
        obtain ⟨hitem, hitems⟩ := List.forall_mem_cons.mp hitems
        exact ih _ hitems (hstart.graft _ hitem)
  have hcleared : LinesIn P (table.removeSubtree path).entries := h.removeSubtree path
  cases line with
  | none => exact hgrow _ _ hparts hcleared
  | some n => exact hgrow _ _ hparts (hcleared.record path (hline n rfl))

theorem linesIn_inheritInto (h : LinesIn P table.entries) {above : Inheritance}
    (habove : above.LinesIn P) (path : String) (location : Tree) :
    LinesIn P (inheritInto above path location table).2.entries := by
  rcases inheritInto_cases above path location table with ⟨-, hinto⟩ | ⟨_, -, -, hinto⟩
  · rw [hinto]
    exact h
  · rw [hinto]
    exact linesIn_recordHeaders h _ (habove.add h location path)

theorem linesIn_inheritServer (h : LinesIn P table.entries) {site : Inheritance}
    (hsite : site.LinesIn P) (i : Nat) (server : Tree) :
    LinesIn P (inheritServer site i server table).2.entries := by
  rcases inheritServer_cases site i server table with
    ⟨-, hserver⟩ | ⟨_, -, -, hserver⟩ | ⟨_, locations, -, -, hserver⟩
  · rw [hserver]
    exact h
  · rw [hserver]
    exact h
  · have habove : (serverAbove site i server table).LinesIn P := hsite.add h server _
    rw [hserver]
    exact linesIn_walk (fun j t table htable => linesIn_inheritInto htable habove _ t) h locations

theorem linesIn_siteAbove {doc : Document} (h : LinesIn P doc.origins.entries) :
    doc.siteAbove.LinesIn P :=
  ⟨linesIn_headersOf h doc.tree KeyPath.root, fun _ hn => h.of_lineOf hn⟩

theorem linesIn_inheritHeaders {doc : Document} (h : LinesIn P doc.origins.entries) :
    LinesIn P doc.inheritHeaders.origins.entries := by
  rcases inheritHeaders_cases doc with
    ⟨-, hinherit⟩ | ⟨_, _, _, table, -, -, hinherit, htable⟩
  · rw [hinherit]
    exact h
  · rw [hinherit]
    rcases htable with ⟨-, -, rfl⟩ | ⟨list, -, -, rfl⟩
    · exact h
    · have hsite := linesIn_siteAbove h
      exact linesIn_walk (fun i t table htable => linesIn_inheritServer htable hsite i t) h list

/-- **Settling a document makes no line.** -/
theorem linesIn_settle {doc : Document} (h : LinesIn P doc.origins.entries) :
    LinesIn P doc.settle.origins.entries :=
  linesIn_inheritHeaders (linesIn_shareLocations h)

end Settling

/-! ## Parsing -/

section Parsing

variable {text : String}

/-- Line `n` of the text is there and is not empty. -/
def Filled (text : String) (n : Nat) : Prop :=
  ∃ i l, n = i + 1 ∧ (Text.lines text.toList)[i]? = some l ∧ l ≠ []

theorem Filled.hasLine {n : Nat} (h : Filled text n) : Text.HasLine text n := by
  obtain ⟨i, l, rfl, hl, -⟩ := h
  have hi : i < (Text.lines text.toList).length := (List.getElem?_eq_some_iff.mp hl).1
  exact ⟨by omega, hi⟩

/-- Every token is on a line of the text, and a token before the end is on a line that is not
empty. -/
theorem lines_of_tokenize {tokens : List Token} (h : Token.tokenize text = .ok tokens) :
    tokens ≠ [] ∧ ∀ t ∈ tokens, Text.HasLine text t.line ∧
      (t.kind ≠ .eof → Filled text t.line) := by
  refine ⟨?_, fun t ht => ?_⟩
  · obtain ⟨ts, last, rfl, -⟩ := Token.tokenize_eq_ok h
    simp
  · obtain ⟨rest, hreach, hinner⟩ := Token.tokenize_reaches h t ht
    refine ⟨hreach.hasLine, fun hkind => ?_⟩
    obtain ⟨c, rest', rfl, hc⟩ := hinner hkind
    exact hreach.exists_line hc

theorem lines_of_ofTokens {tokens : List Token} {l : Literal}
    (htokens : Token.tokenize text = .ok tokens)
    (hl : Literal.ofTokens Literal.maxDepth tokens = .ok l) :
    ∀ n ∈ l.lines, Filled text n := by
  obtain ⟨hne, hlines⟩ := lines_of_tokenize htokens
  intro n hn
  obtain ⟨t, ht, hkind, rfl⟩ := (Literal.ofTokens_lines hne).1 l hl n hn
  exact (hlines t ht).2 hkind

/-- Every line of the table of a parsed document holds something. -/
theorem linesIn_of_parse {doc : Document} (h : (parse text).result = .ok doc) :
    LinesIn (Filled text) doc.origins.entries := by
  obtain ⟨tokens, l, htokens, hl, hdoc⟩ := result_parse_eq_ok_iff.mp h
  obtain ⟨-, -, -, -, -, hlex⟩ := Literal.exists_lexical_derivation htokens hl
  exact (Literal.resolve_within hlex (lines_of_ofTokens htokens hl)).1 doc hdoc

/-- A text that is not parsed stops at one of the three stages. -/
theorem exists_of_parse_error {e : Error} (h : (parse text).result = .error e) :
    Token.tokenize text = .error e ∨
      ∃ tokens, Token.tokenize text = .ok tokens ∧
        (Literal.ofTokens Literal.maxDepth tokens = .error e ∨
          ∃ l, Literal.ofTokens Literal.maxDepth tokens = .ok l ∧
            Literal.resolve l = .error e) := by
  rw [result_parse] at h
  rcases htokens : Token.tokenize text with e' | tokens
  · rw [htokens] at h
    cases h
    exact .inl rfl
  · rw [htokens] at h
    have hstages : (Literal.ofTokens Literal.maxDepth tokens >>= Literal.resolve) = .error e := h
    refine .inr ⟨tokens, rfl, ?_⟩
    rcases hl : Literal.ofTokens Literal.maxDepth tokens with e' | l
    · rw [hl] at hstages
      cases hstages
      exact .inl rfl
    · rw [hl] at hstages
      exact .inr ⟨l, rfl, hstages⟩

/-- The lines that an error of the parser names are lines of the text. -/
theorem parse_within {e : Error} (h : (parse text).result = .error e) :
    e.Within (Text.HasLine text) := by
  rcases exists_of_parse_error h with hscan | ⟨tokens, htokens, hgrammar | ⟨l, hl, hresolve⟩⟩
  · obtain ⟨n, issue, rest, rfl, hreach⟩ := Token.tokenize_error_reaches hscan
    exact Error.within_singleton rfl hreach.hasLine
  · -- the grammar may refuse the end of input, whose line can be empty
    obtain ⟨hne, hlines⟩ := lines_of_tokenize htokens
    obtain ⟨t, ht, hline⟩ := (Literal.ofTokens_lines hne).2 e hgrammar
    exact Error.within_singleton hline (hlines t ht).1
  · obtain ⟨-, -, -, -, -, hlex⟩ := Literal.exists_lexical_derivation htokens hl
    have hfilled := (Literal.resolve_within hlex (lines_of_ofTokens htokens hl)).2 e hresolve
    exact hfilled.imp fun n hn => hn.hasLine

end Parsing

end Document

/-! ## Loading -/

namespace Compiler

open Document Origins

/-- Line `n` of the text is neither a conditional directive nor in a block whose condition does
not hold. -/
def ActiveLine (conditions : Conditions) (text : String) (n : Nat) : Prop :=
  ∃ before line after, Text.lines text.toList = before ++ line :: after ∧
    n = before.length + 1 ∧ Source.directive? line = none ∧ ¬ Source.Inactive conditions before

theorem ActiveLine.hasLine {conditions : Conditions} {text : String} {n : Nat}
    (h : ActiveLine conditions text n) : Text.HasLine text n := by
  obtain ⟨before, line, after, hlines, rfl, -⟩ := h
  refine ⟨by omega, ?_⟩
  rw [Text.lineCount, hlines, List.length_append, List.length_cons]
  omega

/-- A line that holds something after preprocessing was active before. -/
theorem activeLine_of_filled {c : Compiler} {name text source : String} {n : Nat}
    (h : Source.preprocessNamed c.conditions c.placeholders name text = .ok source)
    (hn : Filled source n) : ActiveLine c.conditions text n := by
  obtain ⟨i, l, rfl, hl, hne⟩ := hn
  obtain ⟨line, hline, hdirective, hactive⟩ := Source.preprocessNamed_kept h hl hne
  obtain ⟨hi, rfl⟩ := List.getElem?_eq_some_iff.mp hline
  refine ⟨_, _, (Text.lines text.toList).drop (i + 1), ?_, ?_, hdirective, hactive⟩
  · rw [← List.drop_eq_getElem_cons hi, List.take_append_drop]
  · rw [List.length_take_of_le hi.le]

/-- **Line fidelity.** The lines of the origin table of a loaded text, before and after settling,
are active lines of the text. All the lines that an error names are known and are lines of the
text. -/
theorem load_lines (c : Compiler) (name text : String) :
    (∀ doc, (c.load name text).result = .ok doc →
      ∃ source parsed,
        Source.preprocessNamed c.conditions c.placeholders name text = .ok source ∧
        (Document.parse source).result = .ok parsed ∧ doc = parsed.settle ∧
        (∀ e ∈ parsed.origins.entries, Text.HasLine text e.2 ∧
          ActiveLine c.conditions text e.2) ∧
        ∀ e ∈ doc.origins.entries, Text.HasLine text e.2 ∧ ActiveLine c.conditions text e.2) ∧
    ∀ e, (c.load name text).result = .error e → e.Within (Text.HasLine text) := by
  constructor
  · intro doc hdoc
    obtain ⟨source, parsed, hsource, hparsed, rfl⟩ := result_load_eq_ok_iff.mp hdoc
    have hactive : ∀ n, Filled source n →
        Text.HasLine text n ∧ ActiveLine c.conditions text n := by
      intro n hn
      have hline := activeLine_of_filled hsource hn
      exact ⟨hline.hasLine, hline⟩
    have hfilled := linesIn_of_parse hparsed
    refine ⟨source, parsed, hsource, hparsed, rfl, ?_, ?_⟩
    · exact fun e he => hactive e.2 (hfilled e he)
    · exact fun e he => hactive e.2 (linesIn_settle hfilled e he)
  · intro e he
    rcases exists_of_load_error he with hpreprocess | ⟨source, hsource, hparse⟩
    · exact Source.preprocessNamed_within hpreprocess
    · -- the parser counts the lines of the preprocessed text, which has as many
      obtain ⟨-, -, -, hcount⟩ := Source.exists_of_preprocessNamed_ok hsource
      refine (parse_within hparse).imp fun n hn => ⟨hn.1, ?_⟩
      exact hn.2.trans_eq hcount

/-- A key that is set twice when the condition holds. -/
def blockText : String :=
  "\x7b\n#ifdef A\nb: 1,\n#endif\nb: 2\x7d"

def blockSite : Document :=
  ⟨.mapping [("b", .scalar (.int 2))], ⟨[("", 1), (".b", 5)]⟩⟩

theorem load_blockText : (load {} "site" blockText).result = .ok blockSite := by
  have hsource : Source.preprocessNamed [] [] "site" blockText
      = .ok "\x7b\n\n\n\nb: 2\x7d" := by
    decide +kernel
  have hparse : (Document.parse "\x7b\n\n\n\nb: 2\x7d").result = .ok blockSite :=
    result_parse_eq_ok_iff.mpr
      ⟨[⟨.lbrace, 1⟩, ⟨.ident "b", 5⟩, ⟨.colon, 5⟩, ⟨.int 2, 5⟩, ⟨.rbrace, 5⟩, ⟨.eof, 5⟩],
        .mapping 1 [(⟨"b", 5⟩, .constant 5 (.int 2))], by decide +kernel, by cbv, by cbv⟩
  exact result_load_eq_ok_iff.mpr ⟨_, blockSite, hsource, hparse, rfl⟩

theorem load_blockText_error : (load ⟨["A"], []⟩ "site" blockText).result
    = .error (.duplicate ".b" (some 5) (some 3)) := by
  have hsource : Source.preprocessNamed ["A"] [] "site" blockText
      = .ok "\x7b\n\nb: 1,\n\nb: 2\x7d" := by
    decide +kernel
  have htokens : Token.tokenize "\x7b\n\nb: 1,\n\nb: 2\x7d"
      = .ok [⟨.lbrace, 1⟩, ⟨.ident "b", 3⟩, ⟨.colon, 3⟩, ⟨.int 1, 3⟩, ⟨.comma, 3⟩,
          ⟨.ident "b", 5⟩, ⟨.colon, 5⟩, ⟨.int 2, 5⟩, ⟨.rbrace, 5⟩, ⟨.eof, 5⟩] := by
    decide +kernel
  rw [result_load_of_ok (c := ⟨["A"], []⟩) hsource, result_parse, htokens]
  cbv

/-- Without the condition the second line of the key is active. With it, the error names both. -/
theorem load_lines_blockText :
    (load {} "site" blockText).result = .ok blockSite ∧ ActiveLine [] blockText 5 ∧
      ∃ e, (load ⟨["A"], []⟩ "site" blockText).result = .error e ∧
        e.lines = [some 5, some 3] ∧ e.Within (Text.HasLine blockText) := by
  refine ⟨load_blockText, ?_, ?_⟩
  · obtain ⟨-, -, -, -, -, -, hlines⟩ := (load_lines {} "site" blockText).1 _ load_blockText
    exact (hlines (".b", 5) (by decide)).2
  · exact ⟨_, load_blockText_error, rfl,
      (load_lines ⟨["A"], []⟩ "site" blockText).2 _ load_blockText_error⟩

end Compiler

end SiteConf
