import SiteConf.Proofs.LineWriters
import SiteConf.Proofs.Restriction
import Mathlib

set_option autoImplicit false

/-! # Templates that define writers

A template of a dialect begins with definitions: some fields get the writer that does nothing, the
others get macros. What such a table of writers leaves in the machine can be said in advance
(`WriterTable.run_definitions`), and so can which writer a walk finds for a field
(`WriterTable.mem_entries_of_writer?`, `WriterTable.writer?_of_mem`). -/

namespace SiteConf.Template

open SiteConf.Writer

/-! ## Statements one after the other -/

section Body

variable {call : Caller} {s : Stmt} {rest : List Stmt} {m m₁ m' : Machine} {text : String}

theorem exec_text (content : String) (m : Machine) :
    (Stmt.exec call (.text content)).run m = (.ok (content, .next), m) := by
  rw [Stmt.exec]
  rfl

theorem run_execBody_cons (h : (s.exec call).run m = (.ok (text, .next), m₁)) :
    (execBody call (s :: rest)).run m
      = (execBody call rest >>= fun r => pure (text ++ r.1, r.2)).run m₁ := by
  rw [execBody, Step.run_bind_of_ok h]

/-- A statement that gives no text only changes the machine. -/
theorem run_execBody_silent (h : (s.exec call).run m = (.ok ("", .next), m₁)) :
    (execBody call (s :: rest)).run m = (execBody call rest).run m₁ := by
  rw [run_execBody_cons h]
  simp only [String.empty_append, Prod.mk.eta, bind_pure]

/-- If the statements succeed, their text begins with that of the first one. -/
theorem exists_of_execBody_cons {r : String × Flow}
    (h : (s.exec call).run m = (.ok (text, .next), m₁))
    (hrun : (execBody call (s :: rest)).run m = (.ok r, m')) :
    ∃ more, (execBody call rest).run m₁ = (.ok more, m') ∧ r = (text ++ more.1, more.2) := by
  rw [run_execBody_cons h] at hrun
  obtain ⟨more, m₂, hrest, hpure⟩ := Step.run_bind_eq_ok_iff.mp hrun
  cases hpure
  exact ⟨more, hrest, rfl⟩

end Body

/-! ## Rendering with the machine -/

section Render

variable {document : Document} {conditions : Conditions} {template : String}
  {program : List Stmt}

theorem read_of_parse (hparse : Template.parse template = .ok program) :
    engine.read template = .ok (runProgram program) := by
  rw [engine_read, hparse]
  rfl

theorem result_render_of_run (hparse : Template.parse template = .ok program)
    {r : String × Flow} {m : Machine}
    (hrun : (execBody (engine.invoke recursionLimit) program).run
      (Machine.start document conditions) = (.ok r, m)) :
    (render document conditions template).result = .ok r.1 := by
  refine Engine.result_render_of_ok (m := m) (read_of_parse hparse) ?_
  exact Step.run_bind_of_ok hrun

/-- A template that is rendered has run to its end. -/
theorem exists_run_of_render (hparse : Template.parse template = .ok program) {text : String}
    (h : (render document conditions template).result = .ok text) :
    ∃ r m, (execBody (engine.invoke recursionLimit) program).run
      (Machine.start document conditions) = (.ok r, m) ∧ r.1 = text := by
  rcases hrun : (execBody (engine.invoke recursionLimit) program).run
    (Machine.start document conditions) with ⟨f | r, m⟩
  · have herror := Engine.result_render_of_error (m := m) (read_of_parse hparse)
      (Step.run_bind_of_error hrun)
    cases herror.symm.trans h
  · have hok := result_render_of_run hparse hrun
    exact ⟨r, m, rfl, Except.ok.inj (hok.symm.trans h)⟩

end Render

/-! ## Tables of writers -/

/-- A writer that is a macro: the field and the moment it is for, and the body. -/
structure WriterDef where
  field : String
  moment : Moment
  body : List Stmt

namespace WriterDef

def name (w : WriterDef) : String :=
  writerName w.field w.moment

def definition (w : WriterDef) : Stmt :=
  .macroDef w.name ["out", "node"] [] w.body

end WriterDef

/-- The writers of a dialect: the fields that are entered without a trace, and the macros. -/
structure WriterTable where
  silent : List String
  writers : List WriterDef

/-- The machine of a template that has defined some names and macros, and done nothing else. -/
def machineWith (document : Document) (conditions : Conditions) (locals : Ordered Value)
    (macros : List MacroDef) : Machine :=
  { Machine.start document conditions with
    frames := [{ locals := locals, layer := .context }]
    macros := macros }

namespace WriterTable

def definitions (d : WriterTable) : List Stmt :=
  d.silent.map (fun field => .assign (.name (writerName field .opening)) (.var "noop"))
    ++ d.writers.map WriterDef.definition

/-- The writers by field and moment. -/
def entries (d : WriterTable) : List ((String × Moment) × Value) :=
  d.silent.map (fun field => ((field, .opening), .noop))
    ++ d.writers.zipIdx.map fun w => ((w.1.field, w.1.moment), .macroRef w.1.name w.2)

def names (d : WriterTable) : Ordered Value :=
  d.entries.map fun e => (writerName e.1.1 e.1.2, e.2)

def macros (d : WriterTable) : List MacroDef :=
  d.writers.map fun w => writerMacro w.body

def machine (d : WriterTable) (document : Document) (conditions : Conditions) : Machine :=
  machineWith document conditions d.names d.macros

/-- The names are different, and no macro needs a name from outside. -/
structure Sound (d : WriterTable) : Prop where
  nodup : (Ordered.keys d.names).Nodup
  closed : ∀ w ∈ d.writers, freeNames ["out", "node"] [] w.body = []

end WriterTable

/-! ## Looking names up -/

section Lookup

variable {document : Document} {conditions : Conditions} {locals : Ordered Value}
  {macros : List MacroDef} {name : String} {v : Value}

theorem lookup?_of_local (h : Ordered.get? name locals = some v) :
    (machineWith document conditions locals macros).lookup? name = some v := by
  simp [Machine.lookup?, machineWith, Machine.frame?, h]

theorem lookup?_of_not_local (h : Ordered.get? name locals = none) :
    (machineWith document conditions locals macros).lookup? name
      = (Ordered.get? name (Machine.contextOf document conditions)).or
          (Machine.global? name) := by
  have hframe : (machineWith document conditions locals macros).frame? name
      { locals := locals, layer := .context }
        = Ordered.get? name (Machine.contextOf document conditions) := by
    simp only [Machine.frame?, h, ite_self]
    rfl
  have hframes : (machineWith document conditions locals macros).frames
      = [{ locals := locals, layer := .context }] := rfl
  rw [Machine.lookup?, hframes, List.findSome?_cons, hframe]
  cases Ordered.get? name (Machine.contextOf document conditions) <;> rfl

theorem writerName_ne {s : String} (h : '_' ∉ s.toList) (field : String) (moment : Moment) :
    writerName field moment ≠ s := by
  rintro rfl
  refine h ?_
  rw [writerName, String.toList_append, List.mem_append]
  right
  cases moment <;> decide

/-- What every template knows is no writer. -/
theorem lookup?_writerName {field : String} {moment : Moment}
    (h : Ordered.get? (writerName field moment) locals = none) :
    (machineWith document conditions locals macros).lookup? (writerName field moment) = none := by
  have hne {s : String} (hs : '_' ∉ s.toList) : writerName field moment ≠ s :=
    writerName_ne hs field moment
  have hcontext :
      Ordered.get? (writerName field moment) (Machine.contextOf document conditions) = none := by
    rw [Machine.contextOf, Ordered.get?_cons, if_neg (hne (by decide)).symm, Ordered.get?_cons,
      if_neg (hne (by decide)).symm, Ordered.get?_cons, if_neg (hne (by decide)).symm]
    rfl
  have hglobal : Machine.global? (writerName field moment) = none := by
    unfold Machine.global?
    split
    · next heq => exact absurd heq (hne (by decide))
    · next heq => exact absurd heq (hne (by decide))
    · next heq => exact absurd heq (hne (by decide))
    · rfl
  rw [lookup?_of_not_local h, hcontext, hglobal]
  rfl

end Lookup

namespace WriterTable

variable {d : WriterTable} {document : Document} {conditions : Conditions} {field : String}
  {moment : Moment} {v : Value}

/-- A writer that is found is in the table, under its field and moment. -/
theorem mem_entries_of_writer?
    (h : engine.writer? (d.machine document conditions) field moment = some v) :
    ((field, moment), v) ∈ d.entries := by
  obtain ⟨hlookup, -⟩ := Option.filter_eq_some_iff.mp h
  replace hlookup : (d.machine document conditions).lookup? (writerName field moment) = some v :=
    hlookup
  rcases hget : Ordered.get? (writerName field moment) d.names with _ | w
  · rw [machine, lookup?_writerName hget] at hlookup
    cases hlookup
  · rw [machine, lookup?_of_local hget] at hlookup
    cases hlookup
    obtain ⟨⟨⟨field', moment'⟩, u⟩, hmem, heq⟩ := List.mem_map.mp (Ordered.mem_of_get? hget)
    obtain ⟨hname, rfl⟩ := Prod.mk.inj heq
    obtain ⟨rfl, rfl⟩ := writerName_injective2 hname
    exact hmem

theorem isAbsent_of_mem_entries (h : ((field, moment), v) ∈ d.entries) : v.isAbsent = false := by
  rcases List.mem_append.mp h with h | h
  · obtain ⟨field', -, heq⟩ := List.mem_map.mp h
    cases heq
    rfl
  · obtain ⟨w, -, heq⟩ := List.mem_map.mp h
    cases heq
    rfl

/-- The writers in the table are found. -/
theorem writer?_of_mem (hd : d.Sound) (h : ((field, moment), v) ∈ d.entries) :
    engine.writer? (d.machine document conditions) field moment = some v := by
  have hget : Ordered.get? (writerName field moment) d.names = some v :=
    Ordered.get?_of_mem hd.nodup (List.mem_map.mpr ⟨_, h, rfl⟩)
  have hpresent : (!v.isAbsent) = true := by rw [isAbsent_of_mem_entries h]; rfl
  exact Option.filter_eq_some_iff.mpr ⟨lookup?_of_local hget, hpresent⟩

end WriterTable

/-! ## Running the definitions -/

section Run

variable {call : Caller} {document : Document} {conditions : Conditions} {locals : Ordered Value}
  {macros : List MacroDef}

theorem exec_silent {name : String} (h : "noop" ∉ Ordered.keys locals) :
    (Stmt.exec call (.assign (.name name) (.var "noop"))).run
        (machineWith document conditions locals macros)
      = (.ok ("", .next),
          machineWith document conditions (Ordered.insert name .noop locals) macros) := by
  have heval : ((Expr.var "noop").eval call).run (machineWith document conditions locals macros)
      = (.ok .noop, machineWith document conditions locals macros) := by
    have hlookup : (machineWith document conditions locals macros).lookup? "noop" = some .noop := by
      rw [lookup?_of_not_local (Ordered.get?_eq_none_iff.mpr h)]
      rfl
    rw [Expr.eval]
    show (Except.ok (((machineWith document conditions locals macros).lookup? "noop").getD
      .undefined), machineWith document conditions locals macros) = _
    rw [hlookup]
    rfl
  rw [Stmt.exec, Step.run_bind_of_ok heval]
  rfl

theorem exec_definition {w : WriterDef} (h : freeNames ["out", "node"] [] w.body = []) :
    (w.definition.exec call).run (machineWith document conditions locals macros)
      = (.ok ("", .next),
          machineWith document conditions
            (Ordered.insert w.name (.macroRef w.name macros.length) locals)
            (macros ++ [writerMacro w.body])) := by
  have hdefine : define w.name ["out", "node"] [] w.body
      (machineWith document conditions locals macros)
      = machineWith document conditions
          (Ordered.insert w.name (.macroRef w.name macros.length) locals)
          (macros ++ [writerMacro w.body]) := by
    rw [define, h]
    rfl
  rw [WriterDef.definition, Stmt.exec, ← hdefine]
  rfl

/-- The entry of a field that is entered without a trace. -/
def silentEntry (field : String) : String × Value :=
  (writerName field .opening, .noop)

def macroEntry (w : WriterDef × Nat) : String × Value :=
  (w.1.name, .macroRef w.1.name w.2)

theorem run_silent (fields : List String) (rest : List Stmt) {locals : Ordered Value}
    (hnodup : (Ordered.keys (locals ++ fields.map silentEntry)).Nodup)
    (hnoop : "noop" ∉ Ordered.keys locals) :
    (execBody call (fields.map (fun field =>
        .assign (.name (writerName field .opening)) (.var "noop")) ++ rest)).run
        (machineWith document conditions locals macros)
      = (execBody call rest).run
          (machineWith document conditions (locals ++ fields.map silentEntry) macros) := by
  induction fields generalizing locals with
  | nil => rw [List.map_nil, List.map_nil, List.append_nil, List.nil_append]
  | cons field fields ih =>
      have hfresh : writerName field .opening ∉ Ordered.keys locals := by
        rw [List.map_cons] at hnodup
        exact Ordered.not_mem_keys_of_nodup hnodup
      have hassoc : locals ++ (field :: fields).map silentEntry
          = (locals ++ [silentEntry field]) ++ fields.map silentEntry := by
        rw [List.map_cons, List.append_assoc, List.singleton_append]
      have hnoop' : "noop" ∉ Ordered.keys (locals ++ [silentEntry field]) := by
        rw [Ordered.keys_append, List.mem_append, not_or]
        refine ⟨hnoop, fun hmem => ?_⟩
        exact writerName_ne (by decide) field .opening (List.mem_singleton.mp hmem).symm
      rw [List.map_cons, List.cons_append, run_execBody_silent (exec_silent hnoop),
        Ordered.insert_of_not_mem _ hfresh, hassoc]
      exact ih (hassoc ▸ hnodup) hnoop'

theorem run_writers (ws : List WriterDef) (rest : List Stmt) {locals : Ordered Value}
    {macros : List MacroDef}
    (hclosed : ∀ w ∈ ws, freeNames ["out", "node"] [] w.body = [])
    (hnodup : (Ordered.keys (locals ++ (ws.zipIdx macros.length).map macroEntry)).Nodup) :
    (execBody call (ws.map WriterDef.definition ++ rest)).run
        (machineWith document conditions locals macros)
      = (execBody call rest).run
          (machineWith document conditions (locals ++ (ws.zipIdx macros.length).map macroEntry)
            (macros ++ ws.map fun w => writerMacro w.body)) := by
  induction ws generalizing locals macros with
  | nil => simp
  | cons w ws ih =>
      obtain ⟨hw, hws⟩ := List.forall_mem_cons.mp hclosed
      have hfresh : w.name ∉ Ordered.keys locals := by
        rw [List.zipIdx_cons, List.map_cons] at hnodup
        exact Ordered.not_mem_keys_of_nodup hnodup
      have hlength : (macros ++ [writerMacro w.body]).length = macros.length + 1 :=
        List.length_append
      have hassoc : locals ++ ((w :: ws).zipIdx macros.length).map macroEntry
          = (locals ++ [macroEntry (w, macros.length)])
            ++ (ws.zipIdx (macros ++ [writerMacro w.body]).length).map macroEntry := by
        rw [hlength, List.zipIdx_cons, List.map_cons, List.append_assoc, List.singleton_append]
      have hmacros : macros ++ (w :: ws).map (fun w => writerMacro w.body)
          = (macros ++ [writerMacro w.body]) ++ ws.map fun w => writerMacro w.body := by
        rw [List.map_cons, List.append_assoc, List.singleton_append]
      rw [List.map_cons, List.cons_append, run_execBody_silent (exec_definition hw),
        Ordered.insert_of_not_mem _ hfresh, hassoc, hmacros]
      exact ih hws (hassoc ▸ hnodup)

/-- **The definitions of a table** leave its names and macros in the machine, and no text. -/
theorem WriterTable.run_definitions {d : WriterTable} (hd : d.Sound) (rest : List Stmt) :
    (execBody call (d.definitions ++ rest)).run (Machine.start document conditions)
      = (execBody call rest).run (d.machine document conditions) := by
  have hnames : d.names = [] ++ d.silent.map silentEntry
      ++ (d.writers.zipIdx ([] : List MacroDef).length).map macroEntry := by
    rw [names, entries, List.map_append, List.map_map, List.map_map]
    rfl
  have hnodup := hd.nodup
  rw [hnames] at hnodup
  have hsilent : (Ordered.keys ([] ++ d.silent.map silentEntry)).Nodup := by
    rw [Ordered.keys_append] at hnodup
    exact (List.nodup_append.mp hnodup).1
  have hstart : Machine.start document conditions = machineWith document conditions [] [] := rfl
  rw [definitions, List.append_assoc, hstart, run_silent d.silent _ hsilent List.not_mem_nil,
    run_writers d.writers rest hd.closed hnodup, ← hnames]
  rfl

end Run

end SiteConf.Template
