import SiteConf.Command.Run
import SiteConf.Proofs.Ordered
import SiteConf.Proofs.SignedDecimals

set_option autoImplicit false

/-! # Placeholders of the command line

An argument `KEY=VALUE` is split at its first equals sign. `Gives` says which placeholder gets
which value by it, without the functions that read it; an argument gives something exactly if it is
`Named`. The arguments go on top of the table of the placeholder file, so the last one with a name
decides, and the names keep the order in which they come in (`collectPlaceholders_overrides`). -/

namespace SiteConf

/-! ## Trimmed texts -/

namespace Text

/-- The second text is the first without the white space at its ends. -/
def Trims (cs core : List Char) : Prop :=
  (∃ lead trail, cs = lead ++ core ++ trail ∧ ∀ c ∈ lead ++ trail, isBlank c = true) ∧
    (∀ c ∈ core.head?, isBlank c = false) ∧ ∀ c ∈ core.getLast?, isBlank c = false

theorem trims_trim (cs : List Char) : Trims cs (trim cs) := by
  have hstart : cs = cs.takeWhile isBlank ++ trimStart cs := List.takeWhile_append_dropWhile.symm
  have hend : trimStart cs = trim cs ++ ((trimStart cs).reverse.takeWhile isBlank).reverse := by
    rw [trim, trimEnd, ← List.reverse_append, List.takeWhile_append_dropWhile,
      List.reverse_reverse]
  refine ⟨⟨cs.takeWhile isBlank, ((trimStart cs).reverse.takeWhile isBlank).reverse, ?_, ?_⟩,
    fun c hc => ?_, fun c hc => ?_⟩
  · rw [List.append_assoc, ← hend, ← hstart]
  · intro c hc
    rcases List.mem_append.mp hc with hc | hc
    · exact List.mem_takeWhile_imp hc
    · exact List.mem_takeWhile_imp (List.mem_reverse.mp hc)
  · have hhead : c ∈ (trimStart cs).head? := by
      rw [hend, List.head?_append]
      exact Option.mem_def.mpr (by rw [Option.mem_def.mp hc]; rfl)
    exact Token.head?_dropWhile isBlank cs c hhead
  · rw [trim, trimEnd, List.getLast?_reverse] at hc
    exact Token.head?_dropWhile isBlank _ c hc

theorem Trims.eq_trim {cs core : List Char} (h : Trims cs core) : core = trim cs := by
  obtain ⟨⟨lead, trail, rfl, hblank⟩, hhead, hlast⟩ := h
  have hlead : ∀ c ∈ lead, isBlank c = true := fun c hc => hblank c (List.mem_append_left _ hc)
  have htrail : ∀ c ∈ trail.reverse, isBlank c = true :=
    fun c hc => hblank c (List.mem_append_right _ (List.mem_reverse.mp hc))
  rcases core with _ | ⟨d, core⟩
  · have hnil : trimStart (lead ++ [] ++ trail) = [] := by
      rw [trimStart, List.append_nil, List.dropWhile_eq_nil_iff]
      exact hblank
    rw [trim, hnil]
    rfl
  · have hstop : ∀ c ∈ ((d :: core) ++ trail).head?, isBlank c = false := hhead
    have hstart : trimStart (lead ++ (d :: core) ++ trail) = (d :: core) ++ trail := by
      rw [trimStart, List.append_assoc]
      exact (Token.takeWhile_append_stop hlead hstop).2
    rw [trim, hstart, trimEnd, List.reverse_append,
      (Token.takeWhile_append_stop htrail (by rw [List.head?_reverse]; exact hlast)).2,
      List.reverse_reverse]

/-- Nothing is left of a text exactly if it is all white space. -/
theorem trim_ne_nil_iff {cs : List Char} : trim cs ≠ [] ↔ ∃ c ∈ cs, isBlank c = false := by
  obtain ⟨⟨lead, trail, hcs, hblank⟩, hhead, -⟩ := trims_trim cs
  constructor
  · intro hne
    obtain ⟨c, core, hcore⟩ := List.exists_cons_of_ne_nil hne
    rw [hcore] at hcs hhead
    exact ⟨c, by rw [hcs]; simp, hhead c rfl⟩
  · rintro ⟨c, hc, hvisible⟩ hnil
    rw [hnil, List.append_nil] at hcs
    rw [hcs] at hc
    rw [hblank c hc] at hvisible
    cases hvisible

end Text

namespace Placeholder

open Text Command

/-! ## What an argument says -/

/-- The first equals sign of the argument stands between the two texts. -/
def SplitsAt (raw : String) (before after : List Char) : Prop :=
  raw.toList = before ++ '=' :: after ∧ '=' ∉ before

/-- The argument has an equals sign, and the text before the first one is not all white space. -/
def Named (raw : String) : Prop :=
  ∃ before after, SplitsAt raw before after ∧ ∃ c ∈ before, isBlank c = false

/-- A text stands for the integer that it denotes, if that has 64 bits, and else for itself. -/
inductive Value.Reads (cs : List Char) : Value → Prop where
  | int {n : Int} (hn : Number.Denotes cs n) (hlow : -2 ^ 63 ≤ n) (hhigh : n < 2 ^ 63) :
      Reads cs (.int n)
  | str (h : ∀ n : Int, Number.Denotes cs n → ¬ (-2 ^ 63 ≤ n ∧ n < 2 ^ 63)) :
      Reads cs (.str (String.ofList cs))

/-- The argument gives the placeholder of that name that value: the name is what stands before the
first equals sign, trimmed, and the value is what all of the text behind it stands for. -/
def Gives (raw : String) (e : String × Value) : Prop :=
  ∃ before after, SplitsAt raw before after ∧ Trims before e.1.toList ∧ e.1 ≠ "" ∧
    e.2.Reads after

/-! ## Values -/

theorem readInt?_eq_some_iff_denotes {cs : List Char} {n : Int} :
    Number.readInt? cs = some n ↔ Number.Denotes cs n ∧ -2 ^ 63 ≤ n ∧ n < 2 ^ 63 := by
  rw [Number.readInt?_eq_some_iff, Number.fits_iff, Number.minInt, Number.maxInt]
  refine and_congr_right fun _ => ?_
  omega

theorem reads_iff {cs : List Char} {v : Value} :
    v.Reads cs ↔ v = .ofArgument (String.ofList cs) := by
  rw [Value.ofArgument, String.toList_ofList]
  rcases hread : Number.readInt? cs with _ | n
  · have hnone : ∀ n : Int, Number.Denotes cs n → ¬ (-2 ^ 63 ≤ n ∧ n < 2 ^ 63) := by
      intro n hn hrange
      rw [readInt?_eq_some_iff_denotes.mpr ⟨hn, hrange⟩] at hread
      cases hread
    constructor
    · rintro (⟨hn, hlow, hhigh⟩ | _)
      · exact absurd ⟨hlow, hhigh⟩ (hnone _ hn)
      · rfl
    · rintro rfl
      exact .str hnone
  · obtain ⟨hn, hlow, hhigh⟩ := readInt?_eq_some_iff_denotes.mp hread
    constructor
    · rintro (⟨hn', hlow', hhigh'⟩ | hnone)
      · rw [readInt?_eq_some_iff_denotes.mpr ⟨hn', hlow', hhigh'⟩] at hread
        rw [Option.some.inj hread]
      · exact absurd ⟨hlow, hhigh⟩ (hnone n hn)
    · rintro rfl
      exact .int hn hlow hhigh

/-- A value that was read from an argument is read from its own text. -/
theorem ofArgument_text_of_reads {cs : List Char} {v : Value} (h : v.Reads cs) :
    Value.ofArgument v.text = v := by
  rcases h with ⟨-, hlow, hhigh⟩ | hnone
  · next n =>
      symm
      rw [← String.ofList_toList (s := Value.text (.int n)), ← reads_iff]
      exact .int (Number.denotes_showInt n) hlow hhigh
  · exact (reads_iff.mp (.str hnone)).symm

/-! ## One argument -/

section Argument

variable {raw : String} {before after : List Char}

theorem parseArgument_of_splitsAt (h : SplitsAt raw before after) :
    parseArgument raw =
      if (trim before).isEmpty then .error (.placeholderForm raw)
      else .ok (String.ofList (trim before), .ofArgument (String.ofList after)) := by
  obtain ⟨hraw, hfirst⟩ := h
  have hbefore : ∀ c ∈ before, decide (c ≠ '=') = true := by
    intro c hc
    rw [decide_eq_true_eq]
    rintro rfl
    exact hfirst hc
  have htake : raw.toList.takeWhile (· ≠ '=') = before := by
    rw [hraw]
    exact (Token.takeWhile_append_stop hbefore (by simp)).1
  have hdrop : raw.toList.drop before.length = '=' :: after := by
    rw [hraw, List.drop_left]
  rw [parseArgument, htake, hdrop]

theorem parseArgument_of_no_sign (h : '=' ∉ raw.toList) :
    parseArgument raw = .error (.placeholderForm raw) := by
  have htake : raw.toList.takeWhile (· ≠ '=') = raw.toList := by
    rw [List.takeWhile_eq_self_iff]
    intro c hc
    rw [decide_eq_true_eq]
    rintro rfl
    exact h hc
  rw [parseArgument, htake, List.drop_length]

theorem exists_splitsAt (h : '=' ∈ raw.toList) : ∃ before after, SplitsAt raw before after := by
  obtain ⟨before, after, hraw, hfirst⟩ := List.eq_append_cons_of_mem h
  exact ⟨before, after, hraw, hfirst⟩

/-- An argument is read as what it gives. -/
theorem parseArgument_eq_ok_iff {e : String × Value} :
    parseArgument raw = .ok e ↔ Gives raw e := by
  constructor
  · intro h
    by_cases hsign : '=' ∈ raw.toList
    · obtain ⟨before, after, hsplits⟩ := exists_splitsAt hsign
      rw [parseArgument_of_splitsAt hsplits] at h
      by_cases hempty : (trim before).isEmpty = true
      · rw [if_pos hempty] at h
        cases h
      · rw [if_neg hempty] at h
        cases h
        refine ⟨before, after, hsplits, ?_, ?_, reads_iff.mpr rfl⟩
        · rw [String.toList_ofList]
          exact trims_trim before
        · simpa using hempty
    · rw [parseArgument_of_no_sign hsign] at h
      cases h
  · rintro ⟨before, after, hsplits, htrims, hne, hreads⟩
    have hempty : ¬ (trim before).isEmpty = true := by
      rw [← htrims.eq_trim]
      simpa using hne
    rw [parseArgument_of_splitsAt hsplits, if_neg hempty, ← htrims.eq_trim, String.ofList_toList,
      ← reads_iff.mp hreads]

theorem named_iff : Named raw ↔ ∃ e, Gives raw e := by
  constructor
  · rintro ⟨before, after, hsplits, hvisible⟩
    have hempty : ¬ (trim before).isEmpty = true := by
      simpa using trim_ne_nil_iff.mpr hvisible
    refine ⟨(String.ofList (trim before), .ofArgument (String.ofList after)), ?_⟩
    rw [← parseArgument_eq_ok_iff, parseArgument_of_splitsAt hsplits, if_neg hempty]
  · rintro ⟨e, before, after, hsplits, htrims, hne, -⟩
    refine ⟨before, after, hsplits, trim_ne_nil_iff.mp ?_⟩
    rw [← htrims.eq_trim]
    simpa using hne

/-- An argument that gives nothing is reported as it stands. -/
theorem parseArgument_of_not_named (h : ¬ Named raw) :
    parseArgument raw = .error (.placeholderForm raw) := by
  by_cases hsign : '=' ∈ raw.toList
  · obtain ⟨before, after, hsplits⟩ := exists_splitsAt hsign
    rw [parseArgument_of_splitsAt hsplits, if_pos]
    by_contra hempty
    exact h ⟨before, after, hsplits, trim_ne_nil_iff.mp (by simpa using hempty)⟩
  · exact parseArgument_of_no_sign hsign

end Argument

/-! ## All arguments -/

/-- The arguments are inserted one after another, if all of them give something. -/
theorem addArguments_eq_ok_iff {args : List String} {table t : Placeholders} :
    addArguments table args = .ok t ↔
      ∃ entries, List.Forall₂ Gives args entries ∧ t = Ordered.insertAll entries table := by
  induction args generalizing table with
  | nil =>
      constructor
      · rintro ⟨⟩
        exact ⟨[], .nil, rfl⟩
      · rintro ⟨_, ⟨⟩, rfl⟩
        rfl
  | cons raw args ih =>
      rw [addArguments]
      rcases hraw : parseArgument raw with err | ⟨key, value⟩
      · constructor
        · rintro ⟨⟩
        · rintro ⟨_, hgives, -⟩
          rcases hgives with _ | ⟨hfirst, -⟩
          rw [parseArgument_eq_ok_iff.mpr hfirst] at hraw
          cases hraw
      · rw [ih]
        constructor
        · rintro ⟨entries, hgives, rfl⟩
          exact ⟨(key, value) :: entries, .cons (parseArgument_eq_ok_iff.mp hraw) hgives, rfl⟩
        · rintro ⟨_, hgives, rfl⟩
          rcases hgives with _ | ⟨hfirst, hrest⟩
          rw [parseArgument_eq_ok_iff.mpr hfirst] at hraw
          cases hraw
          exact ⟨_, hrest, rfl⟩

theorem ofArgument_text_of_gives {args : List String} {entries : List (String × Value)}
    (h : List.Forall₂ Gives args entries) : ∀ e ∈ entries, Value.ofArgument e.2.text = e.2 := by
  induction h with
  | nil => simp
  | cons hfirst _ ih =>
      obtain ⟨before, after, -, -, -, hreads⟩ := hfirst
      exact List.forall_mem_cons.mpr ⟨ofArgument_text_of_reads hreads, ih⟩

theorem forall_named_iff {args : List String} :
    (∀ raw ∈ args, Named raw) ↔ ∃ entries, List.Forall₂ Gives args entries := by
  induction args with
  | nil => simp
  | cons raw args ih =>
      rw [List.forall_mem_cons, ih, named_iff]
      constructor
      · rintro ⟨⟨e, he⟩, entries, hentries⟩
        exact ⟨e :: entries, .cons he hentries⟩
      · rintro ⟨_, hentries⟩
        rcases hentries with _ | ⟨hfirst, hrest⟩
        exact ⟨⟨_, hfirst⟩, _, hrest⟩

/-- The first argument that gives nothing is reported. -/
theorem addArguments_of_not_named {good rest : List String} {bad : String}
    (hgood : ∀ raw ∈ good, Named raw) (hbad : ¬ Named bad) (table : Placeholders) :
    addArguments table (good ++ bad :: rest) = .error (.placeholderForm bad) := by
  induction good generalizing table with
  | nil => rw [List.nil_append, addArguments, parseArgument_of_not_named hbad]
  | cons raw good ih =>
      obtain ⟨hraw, hgood⟩ := List.forall_mem_cons.mp hgood
      obtain ⟨e, he⟩ := named_iff.mp hraw
      rw [List.cons_append, addArguments, parseArgument_eq_ok_iff.mpr he]
      exact ih hgood _

/-! ## The file below the arguments -/

/-- The table that the placeholder file holds; without a file it is empty. -/
def FileTable (read : FileReader) (o : Options) (table : Placeholders) : Prop :=
  match o.placeholdersFile with
  | some file => load read (Path.ofText file) = .ok table
  | none => table = []

theorem collectPlaceholders_eq {read : FileReader} {o : Options} {table : Placeholders}
    (h : FileTable read o table) :
    collectPlaceholders read o = addArguments table o.placeholders := by
  unfold FileTable at h
  unfold collectPlaceholders
  cases hfile : o.placeholdersFile with
  | none =>
      rw [hfile] at h
      subst h
      rfl
  | some file =>
      rw [hfile] at h
      simp only at h
      simp only [h]
      rfl

theorem nodup_keys_tableOf {α : Type} {value? : α → Option Value} {entries : List (String × α)}
    {table : Placeholders} (h : tableOf value? entries = some table) :
    (Ordered.keys table).Nodup := by
  obtain ⟨es, -, rfl⟩ := Option.map_eq_some_iff.mp h
  exact Ordered.nodup_insertAll es List.nodup_nil

theorem nodup_keys_ofJson {text : String} {table : Placeholders} (h : ofJson text = .ok table) :
    (Ordered.keys table).Nodup := by
  unfold ofJson at h
  split at h
  · split at h
    · next hmembers =>
        cases h
        exact nodup_keys_tableOf hmembers
    · cases h
  · cases h

theorem nodup_keys_ofYaml {text : String} {table : Placeholders} (h : ofYaml text = .ok table) :
    (Ordered.keys table).Nodup := by
  unfold ofYaml at h
  split at h
  · next hparse =>
      cases h
      obtain ⟨entries, -, htable⟩ := Option.bind_eq_some_iff.mp hparse
      exact nodup_keys_tableOf htable
  · cases h

/-- In a placeholder file that is read, no name comes twice. -/
theorem nodup_keys_load {read : FileReader} {path : Path} {table : Placeholders}
    (h : load read path = .ok table) : (Ordered.keys table).Nodup := by
  unfold load at h
  rcases hread : readText read path with err | content
  · rw [hread] at h
    cases h
  · rw [hread] at h
    simp only [bind, Except.bind] at h
    split at h
    · exact nodup_keys_ofJson h
    · exact nodup_keys_ofYaml h
    · split at h
      · cases h
      · cases h

theorem nodup_keys_of_fileTable {read : FileReader} {o : Options} {table : Placeholders}
    (h : FileTable read o table) : (Ordered.keys table).Nodup := by
  unfold FileTable at h
  split at h
  · exact nodup_keys_load h
  · subst h
    exact List.nodup_nil

/-- **Arguments override the file, and each other.** They are all taken exactly if each of them has
a name that is not all white space before its first equals sign; else the first that has none is
reported. A placeholder has the value of the last argument with its name, and else that of the
file; the names of the file come first, then the new ones in the order of their first arguments. A
value is an integer of 64 bits or the text as it stands, and is read back from its own text. -/
theorem collectPlaceholders_overrides {read : FileReader} {o : Options} {table : Placeholders}
    (hfile : FileTable read o table) :
    ((∃ t, collectPlaceholders read o = .ok t) ↔ ∀ raw ∈ o.placeholders, Named raw) ∧
    (∀ good bad rest, o.placeholders = good ++ bad :: rest → (∀ raw ∈ good, Named raw) →
      ¬ Named bad → collectPlaceholders read o = .error (.placeholderForm bad)) ∧
    ∀ t, collectPlaceholders read o = .ok t →
      ∃ entries, List.Forall₂ Gives o.placeholders entries ∧
        (∀ e ∈ entries, Value.ofArgument e.2.text = e.2) ∧
        (∀ name, Ordered.get? name t
          = (Ordered.get? name entries.reverse).or (Ordered.get? name table)) ∧
        (Ordered.keys t).Nodup ∧
        ∃ new, Ordered.keys t = Ordered.keys table ++ new ∧
          (∀ name, name ∈ new ↔ name ∈ Ordered.keys entries ∧ name ∉ Ordered.keys table) ∧
          new.Pairwise fun a b =>
            (Ordered.keys entries).idxOf a < (Ordered.keys entries).idxOf b := by
  rw [collectPlaceholders_eq hfile]
  refine ⟨?_, ?_, ?_⟩
  · rw [forall_named_iff]
    simp only [addArguments_eq_ok_iff]
    constructor
    · rintro ⟨t, entries, hentries, -⟩
      exact ⟨entries, hentries⟩
    · rintro ⟨entries, hentries⟩
      exact ⟨_, entries, hentries, rfl⟩
  · intro good bad rest hargs hgood hbad
    rw [hargs]
    exact addArguments_of_not_named hgood hbad table
  · intro t ht
    obtain ⟨entries, hentries, rfl⟩ := addArguments_eq_ok_iff.mp ht
    exact ⟨entries, hentries, ofArgument_text_of_gives hentries,
      fun name => Ordered.get?_insertAll_reverse entries name table,
      Ordered.nodup_insertAll entries (nodup_keys_of_fileTable hfile),
      Ordered.exists_keys_insertAll entries table⟩

def portReader : FileReader :=
  fun _ => .ok (Text.bytes "\x7b\"PORT\": 80, \"HOST\": \"a\"\x7d")

/-- The port is set twice, under two spellings of its name; a new name has a value with an equals
sign in it, and another one has too many digits. -/
def portOptions : Options :=
  { config := "site.conf", template := "site.j2", placeholdersFile := some "values.json"
    placeholders := ["PORT=443", "NAME=a=b", " PORT =-007", "BIG=9223372036854775808"] }

/-- The placeholders that come out. -/
def portPlaceholders : Placeholders :=
  [("PORT", .int (-7)), ("HOST", .str "a"), ("NAME", .str "a=b"),
    ("BIG", .str "9223372036854775808")]

theorem collectPlaceholders_overrides_portOptions :
    FileTable portReader portOptions [("PORT", .int 80), ("HOST", .str "a")] ∧
      collectPlaceholders portReader portOptions = .ok portPlaceholders ∧
      (∀ raw ∈ portOptions.placeholders, Named raw) ∧
      ∃ entries, List.Forall₂ Gives portOptions.placeholders entries ∧
        ∀ name, Ordered.get? name portPlaceholders = (Ordered.get? name entries.reverse).or
          (Ordered.get? name [("PORT", .int 80), ("HOST", .str "a")]) := by
  have hfile : FileTable portReader portOptions [("PORT", .int 80), ("HOST", .str "a")] := by
    show load portReader (Path.ofText "values.json") = _
    decide +kernel
  have hcollect : collectPlaceholders portReader portOptions = .ok portPlaceholders := by
    decide +kernel
  obtain ⟨haccepts, -, hvalues⟩ := collectPlaceholders_overrides hfile
  obtain ⟨entries, hentries, -, hget, -⟩ := hvalues _ hcollect
  exact ⟨hfile, hcollect, haccepts.mp ⟨_, hcollect⟩, entries, hentries, hget⟩

end Placeholder

end SiteConf
