import SiteConf.Proofs.NestedWalks
import SiteConf.Proofs.WalkFailures
import Mathlib

set_option autoImplicit false

/-! # Writers that write lines

The macro of a writer gets a sink and a node. What its expressions and statements write into the
sink is put together rule by rule, as in a program logic (`Writes`): a computation says which lines
it writes and what it answers, if it succeeds. A walk that calls the macro emits those lines at the
level of the visit (`emits_callWriter`). -/

namespace SiteConf.Template

open SiteConf.Writer Text SiteConf.Tree

/-! ## Values of a configuration -/

/-- Nothing, or the value of a node that has no braces or newlines in its texts. -/
def Value.Configured (v : Value) : Prop :=
  v = .undefined ∨ ∃ t, Everywhere Unbraced t ∧ v = .ofTree t

section Configured

variable {v : Value} {t : Tree}

theorem configured_str {s : String} (hs : Bare s.toList) : (Value.str s).Configured :=
  .inr ⟨.scalar (.str s), (everywhere_scalar _).mpr hs, rfl⟩

/-- The value of a node lives outside the machine. -/
theorem view_of_configured (h : v.Configured) (m : Machine) : m.view v = v := by
  obtain rfl | ⟨t, -, rfl⟩ := h
  · rfl
  · cases t with
    | scalar s => cases s <;> rfl
    | sequence items => rfl
    | mapping fields => rfl

theorem inline_text_of_configured (h : v.Configured) : Inline v.text.toList := by
  obtain rfl | ⟨t, ht, rfl⟩ := h
  · exact inline_nil
  · exact Value.inline_text_ofTree ht

theorem mem_of_find?_ofFields {key : Value} {fields : List (String × Tree)}
    (h : Value.find? key (Value.ofFields fields) = some v) : ∃ e ∈ fields, v = .ofTree e.2 := by
  induction fields with
  | nil => cases h
  | cons e fields ih =>
      rw [Value.ofFields, Value.find?] at h
      split at h
      · exact ⟨e, List.mem_cons_self, (Option.some.inj h).symm⟩
      · obtain ⟨e', he', hv⟩ := ih h
        exact ⟨e', List.mem_cons_of_mem e he', hv⟩

/-- An attribute of a node is a node below it, or nothing. -/
theorem configured_attr {m : Machine} {name : String} (ht : Everywhere Unbraced t)
    (h : m.attr (.ofTree t) name = .ok v) : v.Configured := by
  cases t with
  | scalar s =>
      cases s with
      | _ => exact .inl (Except.ok.inj h).symm
  | sequence items => exact .inl (Except.ok.inj h).symm
  | mapping fields =>
      obtain rfl := Except.ok.inj h
      rcases hfind : Value.find? (.str name) (Value.ofFields fields) with _ | w
      · exact .inl rfl
      · obtain ⟨e, he, rfl⟩ := mem_of_find?_ofFields hfind
        exact .inr ⟨e.2, ((everywhere_mapping fields).mp ht).2 e he, rfl⟩

/-- Only texts can be quoted, and a quoted text has the braces of the text. -/
theorem configured_quote {w : Value} (hv : v.Configured) (h : applyFilter "quote" v [] = .ok w) :
    w.Configured := by
  have hquote : applyFilter "quote" v [] = onText doubleQuoted v [] := rfl
  rw [hquote] at h
  obtain rfl | ⟨t, ht, rfl⟩ := hv
  · cases h
  · cases t with
    | scalar s =>
        cases s with
        | str s =>
            obtain rfl := Except.ok.inj h
            exact configured_str (bare_doubleQuoted ht.here)
        | int n => cases h
        | bool b => cases h
    | sequence items => cases h
    | mapping fields => cases h

end Configured

/-! ## What is written -/

/-- The frames in which the macro of a writer runs. -/
def writerFrames (n : Nat) (node : Value) : List Frame :=
  [{ locals := [("node", node), ("out", .sink n)] }, { layer := .context }]

/-- Between the two machines, lines were written into the sink. -/
structure Wrote (n : Nat) (contents : List String) (m m' : Machine) : Prop where
  frames : m'.frames = m.frames
  macros : m'.macros = m.macros
  length : m'.sinks.length = m.sinks.length
  level : (m'.sink n).level = (m.sink n).level
  emitted : (m'.sink n).emitted = (m.sink n).emitted ++ contents.map .line

/-- In the macro of a writer, if the computation succeeds, `Q` holds of its result and of the lines
that it has written. -/
def Writes {α : Type} (n : Nat) (node : Value) (x : Run α) (Q : α → List String → Prop) : Prop :=
  ∀ m a m', m.frames = writerFrames n node → n < m.sinks.length → x.run m = (.ok a, m') →
    ∃ contents, Wrote n contents m m' ∧ Q a contents

section Rules

variable {α β : Type} {n : Nat} {node : Value} {x : Run α} {f : α → Run β}
  {P Q : α → List String → Prop} {R : β → List String → Prop} {m m' m'' : Machine}
  {contents more : List String}

theorem Wrote.refl (n : Nat) (m : Machine) : Wrote n [] m m :=
  ⟨rfl, rfl, rfl, rfl, (List.append_nil _).symm⟩

theorem Wrote.trans (h : Wrote n contents m m') (h' : Wrote n more m' m'') :
    Wrote n (contents ++ more) m m'' where
  frames := h'.frames.trans h.frames
  macros := h'.macros.trans h.macros
  length := h'.length.trans h.length
  level := h'.level.trans h.level
  emitted := by
    rw [h'.emitted, h.emitted, List.map_append, List.append_assoc]

theorem Writes.imp (h : Writes n node x P) (himp : ∀ a cs, P a cs → Q a cs) :
    Writes n node x Q := by
  intro m a m' hframes hn hrun
  obtain ⟨cs, hwrote, hP⟩ := h m a m' hframes hn hrun
  exact ⟨cs, hwrote, himp a cs hP⟩

theorem writes_pure {a : α} (h : Q a []) : Writes n node (pure a) Q := by
  intro m b m' hframes hn hrun
  cases hrun
  exact ⟨[], .refl n m, h⟩

theorem writes_lift {r : Except Fault α} (h : ∀ a, r = .ok a → Q a []) :
    Writes n node (Step.lift r) Q := by
  intro m a m' hframes hn hrun
  rw [Step.run_lift] at hrun
  cases hrun
  exact ⟨[], .refl n m, h a rfl⟩

theorem Writes.bind (hx : Writes n node x P)
    (hf : ∀ a cs, P a cs → Writes n node (f a) fun b ds => R b (cs ++ ds)) :
    Writes n node (x >>= f) R := by
  intro m b m'' hframes hn hrun
  obtain ⟨a, m', hfirst, hrest⟩ := Step.run_bind_eq_ok_iff.mp hrun
  obtain ⟨cs, hwrote, hP⟩ := hx m a m' hframes hn hfirst
  obtain ⟨ds, hwrote', hR⟩ := hf a cs hP m' b m'' (hwrote.frames.trans hframes)
    (hwrote.length.symm ▸ hn) hrest
  exact ⟨cs ++ ds, hwrote.trans hwrote', hR⟩

/-- The machine may be looked at. -/
theorem writes_get {f : Machine → Run β}
    (hf : ∀ m, m.frames = writerFrames n node → Writes n node (f m) R) :
    Writes n node (get >>= f) R := by
  intro m b m' hframes hn hrun
  exact hf m hframes m b m' hframes hn hrun

theorem writes_modify {f : Machine → Machine} {Q : Unit → List String → Prop}
    (hf : ∀ m, n < m.sinks.length → Wrote n contents m (f m)) (h : Q () contents) :
    Writes n node (modify f) Q := by
  intro m a m' hframes hn hrun
  cases hrun
  exact ⟨contents, hf m hn, h⟩

theorem wrote_modifySink {f : Sink → Sink} (hlevel : ∀ s, (f s).level = s.level)
    (hemitted : ∀ s : Sink, (f s).emitted = s.emitted ++ contents.map .line) (m : Machine)
    (hn : n < m.sinks.length) :
    Wrote n contents m (host.modifyDesk (Desk.modifySink n f) m) := by
  have hsink : (m.modifySink n f).sink n = f (m.sink n) := by
    simp [Desk.sink, Desk.modifySink, List.getElem?_eq_getElem hn]
  refine ⟨rfl, rfl, List.length_modify .., ?_, ?_⟩
  · exact (congrArg Sink.level hsink).trans (hlevel _)
  · exact (congrArg Sink.emitted hsink).trans (hemitted _)

/-- The methods of the sink change it and answer with an empty text. -/
theorem writes_modifySink (contents : List String) {f : Sink → Sink}
    (hlevel : ∀ s, (f s).level = s.level)
    (hemitted : ∀ s : Sink, (f s).emitted = s.emitted ++ contents.map .line) :
    Writes n node (modify (host.modifyDesk (Desk.modifySink n f)) >>= fun _ => pure (Value.str ""))
      fun _ cs => cs = contents := by
  have hmodify : Writes n node (modify (host.modifyDesk (Desk.modifySink n f)))
      fun _ cs => cs = contents :=
    writes_modify (wrote_modifySink hlevel hemitted) rfl
  refine hmodify.bind ?_
  rintro - _ rfl
  exact writes_pure (List.append_nil _)

end Rules

/-! ## Expressions -/

/-- The expression writes nothing, and `P` holds of its value. -/
def Yields (call : Caller) (n : Nat) (node : Value) (e : Expr) (P : Value → Prop) : Prop :=
  Writes n node (e.eval call) fun v cs => P v ∧ cs = []

/-- A text on one line with matching braces, which begins a line. -/
def Value.Phrase (v : Value) : Prop :=
  ∃ s, v = .str s ∧ Inline s.toList ∧ Solid s.toList

theorem phrase_str {s : String} (hbare : Bare s.toList) (hsolid : Solid s.toList) :
    (Value.str s).Phrase :=
  ⟨s, rfl, hbare.inline, hsolid⟩

/-- The expression `a ~ b`. -/
def cat (a b : Expr) : Expr :=
  .binary .concat a b

/-- A text that is written out. -/
def lit (s : String) : Expr :=
  .constant (.str s)

def nodeVar : Expr :=
  .var "node"

section Expressions

variable {call : Caller} {n : Nat} {node : Value} {m : Machine} {e e₁ e₂ e₃ : Expr}
  {P Q : Value → Prop}

theorem lookup?_node (h : m.frames = writerFrames n node) : m.lookup? "node" = some node := by
  rw [Machine.lookup?, h]
  rfl

theorem lookup?_out (h : m.frames = writerFrames n node) : m.lookup? "out" = some (.sink n) := by
  rw [Machine.lookup?, h]
  rfl

theorem Yields.imp (h : Yields call n node e P) (himp : ∀ v, P v → Q v) :
    Yields call n node e Q :=
  Writes.imp h fun v _ hv => ⟨himp v hv.1, hv.2⟩

theorem yields_var {name : String} {v : Value}
    (h : ∀ m : Machine, m.frames = writerFrames n node → m.lookup? name = some v) :
    Yields call n node (.var name) (· = v) := by
  rw [Yields, Expr.eval]
  refine writes_get fun m hm => writes_pure ⟨?_, rfl⟩
  rw [h m hm]
  rfl

theorem yields_lit {s : String} (h : P (.str s)) : Yields call n node (lit s) P := by
  rw [Yields, lit, Expr.eval]
  exact writes_pure ⟨h, rfl⟩

theorem yields_node : Yields call n node nodeVar (· = node) :=
  yields_var fun _ => lookup?_node

theorem yields_attr (name : String) {t : Tree} (ht : Everywhere Unbraced t)
    (he : Yields call n node e (· = .ofTree t)) :
    Yields call n node (.attr e name) Value.Configured := by
  rw [Yields, Expr.eval]
  refine Writes.bind he ?_
  rintro v _ ⟨rfl, rfl⟩
  exact writes_get fun m _ => writes_lift fun v hv => ⟨configured_attr ht hv, rfl⟩

theorem yields_cond (h₁ : Yields call n node e₁ Q) (h₂ : Yields call n node e₂ P)
    (h₃ : Yields call n node e₃ P) : Yields call n node (.cond e₁ e₂ e₃) P := by
  rw [Yields, Expr.eval]
  refine Writes.bind h₁ ?_
  rintro v _ ⟨-, rfl⟩
  refine writes_get fun m _ => ?_
  split
  · exact h₂
  · exact h₃

theorem yields_quote (he : Yields call n node e Value.Configured) :
    Yields call n node (.filter e "quote" [] []) Value.Configured := by
  rw [Yields, Expr.eval]
  refine Writes.bind he ?_
  rintro v _ ⟨hv, rfl⟩
  rw [evalItems, evalNamed, pure_bind, pure_bind]
  refine writes_get fun m _ => ?_
  rw [view_of_configured hv]
  have hlog : Writes n node
      (modify fun m : Machine => { m with log := m.log ++ filterLog "quote" v [] })
      fun _ cs => cs = [] :=
    writes_modify (fun m _ => ⟨rfl, rfl, rfl, rfl, (List.append_nil _).symm⟩) rfl
  refine hlog.bind ?_
  rintro - _ rfl
  exact writes_lift fun w hw => ⟨configured_quote hv hw, rfl⟩

theorem yields_concat {R : Value → Prop} (h₁ : Yields call n node e₁ P)
    (h₂ : Yields call n node e₂ Q)
    (h : ∀ (m : Machine) v w, P v → Q w → R (.str ((m.view v).text ++ (m.view w).text))) :
    Yields call n node (cat e₁ e₂) R := by
  rw [Yields, cat, Expr.eval]
  refine Writes.bind h₁ ?_
  rintro v _ ⟨hv, rfl⟩
  refine Writes.bind h₂ ?_
  rintro w _ ⟨hw, rfl⟩
  refine writes_get fun m _ => writes_lift fun u hu => ⟨?_, rfl⟩
  obtain rfl := Except.ok.inj hu
  exact h m v w hv hw

/-- A value may be put behind a phrase. -/
theorem yields_cat (h₁ : Yields call n node e₁ Value.Phrase)
    (h₂ : Yields call n node e₂ Value.Configured) :
    Yields call n node (cat e₁ e₂) Value.Phrase := by
  refine yields_concat h₁ h₂ ?_
  rintro m _ v ⟨s, rfl, hinline, hsolid⟩ hv
  rw [view_of_configured hv]
  refine ⟨s ++ v.text, rfl, ?_, ?_⟩
  · rw [String.toList_append]
    exact hinline.append (inline_text_of_configured hv)
  · rw [String.toList_append]
    exact hsolid.append _

/-- A phrase may be followed by a brace that opens a block. -/
theorem yields_cat_brace (h : Yields call n node e Value.Phrase) :
    Yields call n node (cat e (lit " \x7b")) fun v => ∃ s, v = .str s ∧ OpeningLine s := by
  have hbrace : Yields call n node (lit " \x7b") (· = .str " \x7b") := yields_lit rfl
  refine yields_concat h hbrace ?_
  rintro m _ _ ⟨s, rfl, hinline, hsolid⟩ rfl
  refine ⟨s ++ " \x7b", rfl, s.toList ++ [' '], ?_, ?_, hsolid.append [' ']⟩
  · rw [String.toList_append, List.append_assoc]
    rfl
  · exact hinline.append (Bare.inline (by decide))

end Expressions

/-! ## Statements -/

def lineStmt (e : Expr) : Stmt :=
  .output (.call (.attr (.var "out") "line") [e] [])

/-- Says that everything below the node is handled. -/
def handledStmt : Stmt :=
  .output (.call (.attr (.var "out") "handled") [] [])

section Statements

variable {call : Caller} {n : Nat} {node : Value} {e : Expr} {s : Stmt} {yes no rest : List Stmt}

/-- The statement goes on to the next one, and `P` holds of the lines it has written. -/
def Says (call : Caller) (n : Nat) (node : Value) (s : Stmt) (P : List String → Prop) : Prop :=
  Writes n node (s.exec call) fun r cs => r.2 = .next ∧ P cs

/-- The statements run to their end, and `P` holds of the lines they have written. -/
def SaysAll (call : Caller) (n : Nat) (node : Value) (body : List Stmt)
    (P : List String → Prop) : Prop :=
  Writes n node (execBody call body) fun r cs => r.2 = .next ∧ P cs

theorem says_output {P : List String → Prop}
    (h : Writes n node (e.eval call) fun _ cs => P cs) : Says call n node (.output e) P := by
  rw [Says, Stmt.exec]
  refine Writes.bind h fun v cs hcs => writes_get fun m _ => writes_pure ⟨rfl, ?_⟩
  rwa [List.append_nil]

theorem writes_singleton {P : Value → Prop} (he : Yields call n node e P) :
    Writes n node (evalItems call [e]) fun vs cs => (∃ v, vs = [v] ∧ P v) ∧ cs = [] := by
  rw [evalItems, evalItems]
  refine Writes.bind he ?_
  rintro v _ ⟨hv, rfl⟩
  exact writes_pure ⟨⟨v, rfl, hv⟩, rfl⟩

theorem says_line {P : String → Prop}
    (he : Yields call n node e fun v => ∃ s, v = .str s ∧ P s) :
    Says call n node (lineStmt e) fun cs => ∃ s, cs = [s] ∧ P s := by
  refine says_output ?_
  rw [Expr.eval]
  refine Writes.bind (yields_var fun _ => lookup?_out) ?_
  rintro _ _ ⟨rfl, rfl⟩
  refine Writes.bind (writes_singleton he) ?_
  rintro _ _ ⟨⟨_, rfl, s, rfl, hs⟩, rfl⟩
  rw [evalNamed, pure_bind]
  have hline : callMethod call (.sink n) "line" (withNamed [.str s] [])
      = modify (host.modifyDesk (Desk.modifySink n (Sink.emit (.line s))))
          >>= fun _ => pure (.str "") := rfl
  rw [hline]
  refine Writes.imp (writes_modifySink [s] (fun _ => rfl) fun _ => rfl) ?_
  rintro _ _ rfl
  exact ⟨s, rfl, hs⟩

theorem says_handled : Says call n node handledStmt (· = []) := by
  refine says_output ?_
  rw [Expr.eval]
  refine Writes.bind (yields_var fun _ => lookup?_out) ?_
  rintro _ _ ⟨rfl, rfl⟩
  rw [evalItems, evalNamed, pure_bind, pure_bind]
  have hhandled : callMethod call (.sink n) "handled" (withNamed [] [])
      = modify (host.modifyDesk (Desk.modifySink n fun s => { s with handled := true }))
          >>= fun _ => pure (.str "") := rfl
  rw [hhandled]
  exact writes_modifySink [] (fun _ => rfl) fun _ => (List.append_nil _).symm

theorem saysAll_nil : SaysAll call n node [] (· = []) := by
  rw [SaysAll, execBody]
  exact writes_pure ⟨rfl, rfl⟩

theorem saysAll_cons {P Q R : List String → Prop} (hs : Says call n node s P)
    (hrest : SaysAll call n node rest Q) (h : ∀ cs ds, P cs → Q ds → R (cs ++ ds)) :
    SaysAll call n node (s :: rest) R := by
  rw [SaysAll, execBody]
  refine Writes.bind hs ?_
  rintro ⟨text, _⟩ cs ⟨rfl, hP⟩
  refine Writes.bind hrest ?_
  rintro ⟨more, _⟩ ds ⟨rfl, hQ⟩
  exact writes_pure ⟨rfl, by simpa using h cs ds hP hQ⟩

/-- A body of one line writes the line. -/
theorem saysAll_line {P : String → Prop}
    (he : Yields call n node e fun v => ∃ s, v = .str s ∧ P s) :
    SaysAll call n node [lineStmt e] fun cs => ∃ s, cs = [s] ∧ P s := by
  refine saysAll_cons (says_line he) saysAll_nil ?_
  rintro cs _ hcs rfl
  rwa [List.append_nil]

theorem says_branch {P : List String → Prop} {Q : Value → Prop} (he : Yields call n node e Q)
    (hyes : SaysAll call n node yes P) (hno : SaysAll call n node no P) :
    Says call n node (.branch e yes no) P := by
  rw [Says, Stmt.exec]
  refine Writes.bind he ?_
  rintro v _ ⟨-, rfl⟩
  refine writes_get fun m _ => ?_
  split
  · exact hyes
  · exact hno

end Statements

/-! ## Calls of the macro -/

/-- The macro of a writer with the given body: it needs nothing from outside. -/
def writerMacro (body : List Stmt) : MacroDef :=
  ⟨["out", "node"], [], body, none, false⟩

theorem bind_writerMacro (body : List Stmt) (n : Nat) (t : Tree) :
    (writerMacro body).bind [.sink n, .ofTree t]
      = .ok ([("out", .sink n), ("node", .ofTree t)], none) := by
  cases t with
  | scalar v => cases v <;> rfl
  | sequence items => rfl
  | mapping fields => rfl

/-- The machine in which the body of the macro runs. -/
def Machine.inWriter (n : Nat) (node : Value) (m : Machine) : Machine :=
  { m with frames := writerFrames n node, outer := m.depth + callCost }

/-- A call that succeeds has run the body in the frames of the writer, and has put the frames of
the caller back. -/
theorem exists_of_callMacro_ok {call : Caller} {body : List Stmt} {n : Nat} {t : Tree}
    {m m' : Machine} {v : Value}
    (h : (callMacro call (writerMacro body) [.sink n, .ofTree t]).run m = (.ok v, m')) :
    ∃ r m₁, (execBody call body).run (m.inWriter n (.ofTree t)) = (.ok r, m₁) ∧
      m' = { m₁ with frames := m.frames, outer := m.outer } := by
  rw [callMacro, bind_writerMacro, Step.run_bind_of_ok (Step.run_lift _ m)] at h
  obtain ⟨_, _, hget, h⟩ := Step.run_bind_eq_ok_iff.mp h
  cases hget
  obtain ⟨_, _, hset, h⟩ := Step.run_bind_eq_ok_iff.mp h
  cases hset
  dsimp only at h
  obtain ⟨_, _, hget, h⟩ := Step.run_bind_eq_ok_iff.mp h
  cases hget
  split at h
  · cases h
  · obtain ⟨_, _, hparams, h⟩ := Step.run_bind_eq_ok_iff.mp h
    cases hparams
    obtain ⟨r, m₁, hbody, h⟩ := Step.run_bind_eq_ok_iff.mp h
    cases h
    exact ⟨r, m₁, hbody, rfl⟩

theorem run_invoke_macroRef {k i : Nat} {name : String} {args : List Value} {m : Machine}
    {d : MacroDef} (h : m.macros[i]? = some d) :
    (engine.invoke (k + 1) (.macroRef name i) args).run m
      = (callMacro (engine.invoke k) d args).run m := by
  show (callValue (engine.invoke k) (.macroRef name i) args).run m = _
  rw [callValue, Step.run_bind_of_ok (Step.run_get m), h]

theorem replay_lines {s : Sink} {contents : List String} (h : s.emitted = contents.map .line)
    (e : Emitter) : s.replay e = e.rows (contents.map (Row.mk s.level)) := by
  rw [Sink.replay, Emitter.rows, h, List.foldl_map, List.foldl_map]
  rfl

/-- The machine in which the macro of a writer is called: it has a sink for the visit. -/
def Stage.withSink (s : Stage Machine) (v : Visit) : Machine :=
  host.modifyDesk (Desk.addSink (Sink.ofVisit v)) s.machine

theorem sink_withSink (s : Stage Machine) (v : Visit) :
    (s.withSink v).sink s.machine.sinks.length = Sink.ofVisit v :=
  congrArg (Option.getD · _) List.getElem?_concat_length

theorem length_lt_withSink (s : Stage Machine) (v : Visit) :
    s.machine.sinks.length < (s.withSink v).sinks.length := by
  show _ < (s.machine.sinks ++ [Sink.ofVisit v]).length
  rw [List.length_append]
  exact Nat.lt_succ_self _

theorem not_isNoop_macroRef (name : String) (i : Nat) :
    engine.isNoop (.macroRef name i) ≠ true :=
  Bool.false_ne_true

theorem exists_of_callWriter_ok {call : Caller} {writer : Value} {v : Visit}
    {s s' : Stage Machine} {a : Bool} (hwriter : engine.isNoop writer ≠ true)
    (h : (engine.callWriter call writer v).run s = (.ok a, s')) :
    ∃ w m', (call writer [.sink s.machine.sinks.length, .ofTree v.value]).run (s.withSink v)
        = (.ok w, m') ∧
      s' = ⟨m', (m'.sink s.machine.sinks.length).replay s.emitter⟩ := by
  rw [callWriter_eq hwriter, Step.run_of] at h
  rcases hcall : (engine.request writer v s).answer call with ⟨f | w, m'⟩
  · rw [hcall] at h
    cases h
  · rw [hcall] at h
    cases h
    exact ⟨w, m', hcall, rfl⟩

/-- A walk that calls a writer emits what the body of the macro writes, at the level of the
visit. -/
theorem emits_callWriter {macros : List MacroDef} {i : Nat} {body : List Stmt} {v : Visit}
    {P : List String → Prop} (hi : macros[i]? = some (writerMacro body))
    (hbody : ∀ call n, SaysAll call n (.ofTree v.value) body P) (k : Nat) (name : String) :
    Emits Stage.emitter (fun s => s.machine.macros = macros)
      (engine.callWriter (engine.invoke k) (.macroRef name i) v)
      fun rs => ∃ contents, rs = contents.map (Row.mk v.level) ∧ P contents := by
  intro s a s' hs hrun
  obtain ⟨w, m', hcall, rfl⟩ := exists_of_callWriter_ok (not_isNoop_macroRef name i) hrun
  have hmacros : (s.withSink v).macros[i]? = some (writerMacro body) := by
    rw [show (s.withSink v).macros = macros from hs, hi]
  cases k with
  | zero => cases hcall
  | succ k =>
      rw [run_invoke_macroRef hmacros] at hcall
      obtain ⟨r, m₁, hbodyRun, rfl⟩ := exists_of_callMacro_ok hcall
      obtain ⟨contents, hwrote, -, hP⟩ := hbody (engine.invoke k) s.machine.sinks.length
        ((s.withSink v).inWriter _ _) r m₁ rfl (length_lt_withSink s v) hbodyRun
      -- The sink was empty and has the level of the visit.
      have hsink : ((s.withSink v).inWriter s.machine.sinks.length (.ofTree v.value)).sink
          s.machine.sinks.length = Sink.ofVisit v := sink_withSink s v
      have hlevel : (m₁.sink s.machine.sinks.length).level = v.level := by
        rw [hwrote.level, hsink]
        rfl
      have hemitted : (m₁.sink s.machine.sinks.length).emitted = contents.map .line := by
        rw [hwrote.emitted, hsink]
        rfl
      refine ⟨hwrote.macros.trans hs, contents.map (Row.mk v.level), ?_, contents, rfl, hP⟩
      exact (replay_lines hemitted s.emitter).trans (by rw [hlevel])

end SiteConf.Template
