import SiteConf.Proofs.WriterTables
import Mathlib

set_option autoImplicit false

/-! # Writers that open and close blocks

In the table of a dialect, a writer that opens a block has a counterpart that closes it, and all
other writers write plain lines (`WriterTable.Matched`). Then everything that a walk with these
writers emits nests (`WriterTable.nests`). -/

namespace SiteConf.Template

open SiteConf.Writer SiteConf.Tree

/-! ## What bodies write -/

/-- Of the lines that the body writes, whatever the node, `P` holds. -/
def Speaks (body : List Stmt) (P : List String → Prop) : Prop :=
  ∀ t, Everywhere Unbraced t → ∀ call n, SaysAll call n (.ofTree t) body P

/-- All lines are plain. -/
def Plain (contents : List String) : Prop :=
  ∀ s ∈ contents, PlainLine s

/-- One line, which opens a block. -/
def OpensBlock (contents : List String) : Prop :=
  ∃ s, contents = [s] ∧ OpeningLine s

/-- One line, which closes a block. -/
def ClosesBlock (contents : List String) : Prop :=
  ∃ s, contents = [s] ∧ ClosingLine s

section Plain

variable {call : Caller} {n : Nat} {node : Value} {e : Expr} {s : Stmt} {rest : List Stmt}

theorem plain_nil : Plain [] :=
  List.forall_mem_nil _

theorem says_plain (he : Yields call n node e Value.Phrase) :
    Says call n node (lineStmt e) Plain := by
  have hline : Yields call n node e fun v => ∃ s, v = .str s ∧ PlainLine s := by
    refine he.imp ?_
    rintro _ ⟨s, rfl, hinline, hsolid⟩
    exact ⟨s, rfl, hinline, hsolid⟩
  refine Writes.imp (says_line hline) ?_
  rintro r _ ⟨hflow, s, rfl, hs⟩
  exact ⟨hflow, List.forall_mem_singleton.mpr hs⟩

theorem saysAll_plain_nil : SaysAll call n node [] Plain := by
  refine Writes.imp saysAll_nil ?_
  rintro r _ ⟨hflow, rfl⟩
  exact ⟨hflow, plain_nil⟩

theorem saysAll_plain_cons (hs : Says call n node s Plain)
    (hrest : SaysAll call n node rest Plain) : SaysAll call n node (s :: rest) Plain :=
  saysAll_cons hs hrest fun _ _ hcs hds => List.forall_mem_append.mpr ⟨hcs, hds⟩

theorem saysAll_plain (he : Yields call n node e Value.Phrase) :
    SaysAll call n node [lineStmt e] Plain :=
  saysAll_plain_cons (says_plain he) saysAll_plain_nil

end Plain

theorem nest_of_plain {contents : List String} (h : Plain contents) (level : Nat) :
    Nest (contents.map (Row.mk level)) := by
  induction contents with
  | nil => exact .nil
  | cons s contents ih =>
      obtain ⟨hs, hrest⟩ := List.forall_mem_cons.mp h
      exact .append (.plain (r := ⟨level, s⟩) hs) (ih hrest)

namespace WriterTable

/-- What the writers of a field do at two moments of a visit: one opens a block and the other closes
it, or the first writes plain lines and the other does not exist. -/
def Matched (d : WriterTable) (first last : Moment) : Prop :=
  ∀ field,
    (∃ o ∈ d.writers, ∃ c ∈ d.writers, (o.field = field ∧ o.moment = first) ∧
      (c.field = field ∧ c.moment = last) ∧ Speaks o.body OpensBlock ∧ Speaks c.body ClosesBlock) ∨
    ∀ w ∈ d.writers, w.field = field → w.moment ≠ last ∧ (w.moment = first → Speaks w.body Plain)

section Hooks

variable {d : WriterTable} {w : WriterDef} {v : Visit} {P : List String → Prop} {i k : Nat}
  {document : Document} {conditions : Conditions} {field : String} {moment : Moment}

/-- On a stage of the dialect, the macros are those of the table. -/
def Inv (d : WriterTable) (s : Stage Machine) : Prop :=
  s.machine.macros = d.macros

theorem emits_writerCall (hi : d.writers[i]? = some w) (hw : Speaks w.body P)
    (hv : Everywhere Unbraced v.value) (k : Nat) :
    Emits Stage.emitter d.Inv (engine.callWriter (engine.invoke k) (.macroRef w.name i) v)
      fun rs => ∃ contents, rs = contents.map (Row.mk v.level) ∧ P contents := by
  have hmacro : d.macros[i]? = some (writerMacro w.body) := by
    rw [macros, List.getElem?_map, hi]
    rfl
  exact emits_callWriter hmacro (fun call n => hw v.value hv call n) k w.name

/-- A writer of the table does nothing, or is a macro of the table. -/
theorem cases_of_writer? {writer : Value}
    (h : engine.writer? (d.machine document conditions) field moment = some writer) :
    (writer = .noop ∧ moment = .opening) ∨
      ∃ w i, d.writers[i]? = some w ∧ w.field = field ∧ w.moment = moment ∧
        writer = .macroRef w.name i := by
  rcases List.mem_append.mp (mem_entries_of_writer? h) with hmem | hmem
  · obtain ⟨field', -, heq⟩ := List.mem_map.mp hmem
    cases heq
    exact .inl ⟨rfl, rfl⟩
  · obtain ⟨⟨w, i⟩, hw, heq⟩ := List.mem_map.mp hmem
    cases heq
    exact .inr ⟨w, i, List.mem_zipIdx_iff_getElem?.mp hw, rfl, rfl, rfl⟩

theorem exists_writer?_of_mem (hd : d.Sound) (document : Document) (conditions : Conditions)
    (hw : w ∈ d.writers) :
    ∃ i, d.writers[i]? = some w ∧
      engine.writer? (d.machine document conditions) w.field w.moment
        = some (.macroRef w.name i) := by
  obtain ⟨i, hi⟩ := List.mem_iff_getElem?.mp hw
  have hmem : ((w.field, w.moment), Value.macroRef w.name i) ∈ d.entries :=
    List.mem_append_right _
      (List.mem_map.mpr ⟨(w, i), List.mem_zipIdx_iff_getElem?.mpr hi, rfl⟩)
  exact ⟨i, hi, writer?_of_mem hd hmem⟩

theorem emits_close {u : Value} {Q : List Row → Prop}
    (h : Emits Stage.emitter d.Inv (engine.callWriter (engine.invoke k) u v) Q) :
    Emits Stage.emitter d.Inv (callClose (some (engine.closingOf (engine.invoke k) u)) v) Q := by
  have hclosing : Emits Stage.emitter d.Inv (engine.closingOf (engine.invoke k) u v) Q :=
    h.bind_pure fun _ => ()
  exact hclosing.call

theorem emits_enter {u : Value} {Q : List Row → Prop} (hu : engine.isNoop u ≠ true)
    (h : Emits Stage.emitter d.Inv (engine.callWriter (engine.invoke k) u v) Q) :
    Emits Stage.emitter d.Inv (enter (some (engine.openingOf (engine.invoke k) u)) v) Q := by
  rw [openingOf_eq hu, enter]
  exact h.call.bind_pure _

/-- Entering a field emits what its writer emits, and nothing if there is none. -/
theorem emits_enter_nest (writer : Option Value)
    (h : ∀ u, writer = some u →
      Emits Stage.emitter d.Inv (engine.callWriter (engine.invoke k) u v) Nest) :
    Emits Stage.emitter d.Inv (enter (writer.map (engine.openingOf (engine.invoke k))) v) Nest := by
  cases writer with
  | none =>
      rw [Option.map_none, enter]
      split
      · exact emits_pure _ .nil
      · exact emits_throw _
  | some u =>
      by_cases hu : engine.isNoop u = true
      · rw [Option.map_some, openingOf_of_noop hu]
        exact emits_pure _ .nil
      · exact emits_enter hu (h u rfl)

end Hooks

/-! ## Walks -/

section Walks

variable {d : WriterTable} {v : Visit}

/-- A walk knows the writers that are visible, or none for a field that the tree does not have. -/
theorem writersOf_walkerOn (call : Caller) (m : Machine) (key : String) :
    (engine.walkerOn call m).registry.writersOf key = engine.hooksOf (engine.writer? m key) call ∨
      (engine.walkerOn call m).registry.writersOf key = {} := by
  by_cases hkey : key ∈ m.document.tree.fieldNames
  · exact .inl (writersOf_registryOf engine.toHost call m hkey)
  · exact .inr (writersOf_registryOf_of_not_mem engine.toHost call m hkey)

/-- At two matched moments, a block is opened and closed on the level of the visit, or only the
first writer exists and what it emits nests. -/
theorem Matched.cases {first last : Moment} (h : d.Matched first last) (hd : d.Sound)
    (hlast : last ≠ .opening) (hv : Everywhere Unbraced v.value) (k : Nat)
    (document : Document) (conditions : Conditions) :
    (∃ o c, engine.writer? (d.machine document conditions) v.key first = some o ∧
      engine.isNoop o ≠ true ∧
      engine.writer? (d.machine document conditions) v.key last = some c ∧
      Emits Stage.emitter d.Inv (engine.callWriter (engine.invoke k) o v) (OpensAt v.level) ∧
      Emits Stage.emitter d.Inv (engine.callWriter (engine.invoke k) c v) (ClosesAt v.level)) ∨
    (engine.writer? (d.machine document conditions) v.key last = none ∧
      ∀ u, engine.writer? (d.machine document conditions) v.key first = some u →
        Emits Stage.emitter d.Inv (engine.callWriter (engine.invoke k) u v) Nest) := by
  rcases h v.key with ⟨o, ho, c, hc, ⟨hofield, rfl⟩, ⟨hcfield, rfl⟩, hopens, hcloses⟩ | hplain
  · obtain ⟨i, hi, hwriter⟩ := exists_writer?_of_mem hd document conditions ho
    obtain ⟨j, hj, hwriter'⟩ := exists_writer?_of_mem hd document conditions hc
    rw [hofield] at hwriter
    rw [hcfield] at hwriter'
    refine .inl ⟨_, _, hwriter, not_isNoop_macroRef _ _, hwriter', ?_, ?_⟩
    · refine (emits_writerCall hi hopens hv k).imp ?_
      rintro _ ⟨_, rfl, s, rfl, hs⟩
      exact ⟨s, rfl, hs⟩
    · refine (emits_writerCall hj hcloses hv k).imp ?_
      rintro _ ⟨_, rfl, s, rfl, hs⟩
      exact ⟨s, rfl, hs⟩
  · refine .inr ⟨?_, fun u hu => ?_⟩
    · by_contra hsome
      obtain ⟨u, hu⟩ := Option.ne_none_iff_exists'.mp hsome
      rcases cases_of_writer? hu with ⟨-, hmoment⟩ | ⟨w, i, hi, hfield, hmoment, -⟩
      · exact hlast hmoment
      · exact (hplain w (List.mem_of_getElem? hi) hfield).1 hmoment
    · rcases cases_of_writer? hu with ⟨rfl, -⟩ | ⟨w, i, hi, hfield, hmoment, rfl⟩
      · exact emits_pure false .nil
      · have hspeaks := (hplain w (List.mem_of_getElem? hi) hfield).2 hmoment
        refine (emits_writerCall hi hspeaks hv k).imp ?_
        rintro _ ⟨contents, rfl, hcontents⟩
        exact nest_of_plain hcontents v.level

/-- **Matched writers nest**, field by field and item by item. -/
theorem nests (hd : d.Sound) (hfield : d.Matched .opening .closing)
    (hitem : d.Matched .openItem .closeItem) (k : Nat) (document : Document)
    (conditions : Conditions) :
    (engine.walkerOn (engine.invoke k) (d.machine document conditions)).Nests Stage.emitter d.Inv
      Unbraced where
  note v s hs := ⟨hs, rfl⟩
  field v hv := by
    rcases writersOf_walkerOn (engine.invoke k) (d.machine document conditions) v.key
      with hkey | hkey
    · rw [hkey]
      rcases hfield.cases hd (by decide) hv k document conditions
        with ⟨o, c, ho, hne, hc, hopens, hcloses⟩ | ⟨hlast, hfirst⟩
      · simp only [Host.hooksOf, ho, hc, Option.map_some]
        exact .block v.level (emits_enter hne hopens) (emits_close hcloses)
      · simp only [Host.hooksOf, hlast, Option.map_none]
        exact .nest (emits_enter_nest _ hfirst) (emits_pure () .nil)
    · rw [hkey]
      refine .nest (emits_enter_nest (k := k) none fun u hu => ?_) (emits_pure () .nil)
      cases hu
  item v hv openItem hopen := by
    rcases writersOf_walkerOn (engine.invoke k) (d.machine document conditions) v.key
      with hkey | hkey
    · rw [hkey] at hopen ⊢
      obtain ⟨u, hu, rfl⟩ := Option.map_eq_some_iff.mp hopen
      rcases hitem.cases hd (by decide) hv k document conditions
        with ⟨o, c, ho, -, hc, hopens, hcloses⟩ | ⟨hlast, hfirst⟩
      · obtain rfl : u = o := Option.some.inj (hu.symm.trans ho)
        simp only [Host.hooksOf, hc, Option.map_some]
        exact .block v.level hopens.call (emits_close hcloses)
      · simp only [Host.hooksOf, hlast, Option.map_none]
        exact .nest (hfirst u hu).call (emits_pure () .nil)
    · rw [hkey] at hopen
      cases hopen

/-- What a walk with matched writers answers is a text of rows that nest. -/
theorem exists_rows_of_walkDocument (hd : d.Sound) (hfield : d.Matched .opening .closing)
    (hitem : d.Matched .openItem .closeItem) {document : Document} {conditions : Conditions}
    (hdocument : Everywhere Unbraced document.tree) {k : Nat} {answer : Value} {m : Machine}
    (h : (engine.walkDocument (engine.invoke k)).run (d.machine document conditions)
      = (.ok answer, m)) :
    ∃ rs s, Nest rs ∧ answer = .str s ∧ s.toList = rs.flatMap fun r => r.chars ++ ['\n'] := by
  rw [run_walkDocument] at h
  rcases hwalk : engine.walkFrom (engine.invoke k) (d.machine document conditions)
    with ⟨e | ⟨⟨⟩⟩, s⟩
  · rw [hwalk] at h
    cases h
  · rw [hwalk] at h
    cases h
    have hstart (n : Nat) : d.Inv (engine.stageOn n (d.machine document conditions)) := rfl
    obtain ⟨-, rs, hrs, hnest⟩ := walkTree_nests (nests hd hfield hitem k document conditions)
      document.tree 0 KeyPath.root hdocument _ () s (hstart _) hwalk
    refine ⟨rs, s.emitter.text, hnest, rfl, ?_⟩
    rw [hrs]
    exact toList_text_rows rfl rs

end Walks

end WriterTable

end SiteConf.Template
