import SiteConf.Proofs.Transcripts
import Mathlib

set_option autoImplicit false

/-! # Writers write all or nothing

What the macro of a writer says to its sink reaches the emitter when the macro is done, as a whole
and in order, or not at all. Of a walk that fails, the emitter thus holds what the macros have
written that were done before, and nothing of the one that failed
(`writers_write_all_or_nothing`). This holds whatever calls do, as long as the sinks are only
changed by their methods. -/

namespace SiteConf.Template

open SiteConf.Writer

variable {V σ : Type} {H : Host V σ}

/-! ## Texts -/

/-- The text of what is written into a sink: lines are indented to the level and ended, other text
stands as it is. -/
def Emission.text (e : Emitter) (level : Nat) : Emission → String
  | .line content => e.indent level ++ content ++ "\n"
  | .raw content => content

/-- The text of what calls of methods write, in order. -/
def Host.textOf (H : Host V σ) (e : Emitter) (level : Nat) (cs : List (SinkCall V σ)) : String :=
  String.join ((cs.filterMap H.emission?).map (Emission.text e level))

theorem play_eq (e : Emitter) (level : Nat) (x : Emission) :
    Sink.play level e x = e.write (x.text e level) := by
  cases x with
  | line content =>
      rw [Sink.play, Emitter.line, Emitter.write, Emission.text, String.append_assoc,
        String.append_assoc, String.append_assoc]
  | raw content => rfl

/-- Replaying emissions one by one emits their texts one after another. -/
theorem foldl_play_eq (level : Nat) (xs : List Emission) (e : Emitter) :
    xs.foldl (Sink.play level) e = e.write (String.join (xs.map (Emission.text e level))) := by
  induction xs generalizing e with
  | nil => simp [Emitter.write]
  | cons x xs ih =>
      have hsame : Emission.text (e.write (x.text e level)) level = Emission.text e level := by
        funext y
        cases y <;> rfl
      rw [List.foldl_cons, play_eq, ih, hsame, List.map_cons, String.join_cons, Emitter.write,
        Emitter.write, Emitter.write, String.append_assoc]

/-! ## One writer -/

/-- While a writer is called for a visit, these calls of methods of the sink that it is given are
made, in this order. The no-op writer is not called at all. -/
inductive Host.Hears (H : Host V σ) (call : Calling V σ) (s : Stage σ) (writer : V) (v : Visit) :
    List (SinkCall V σ) → Prop where
  | noop (hnoop : H.isNoop writer = true) : Hears H call s writer v []
  | called {said : List (SinkCall V σ)} (hnoop : H.isNoop writer ≠ true)
      (hsaid : H.Transcript id (call writer (H.request writer v s).args)
        (H.request writer v s).machine said) :
      Hears H call s writer v (callsOf (H.desk s.machine).sinks.length said)

section Writer

variable {call : Calling V σ} {writer : V} {v : Visit} {s s' : Stage σ}
  {cs : List (SinkCall V σ)}

theorem exists_hears (hcall : ∀ v args, H.Recorded id (call v args)) (s : Stage σ) (writer : V)
    (v : Visit) : ∃ cs, H.Hears call s writer v cs := by
  by_cases hnoop : H.isNoop writer = true
  · exact ⟨[], .noop hnoop⟩
  · obtain ⟨said, hsaid⟩ := hcall writer (H.request writer v s).args (H.request writer v s).machine
    exact ⟨_, .called hnoop hsaid⟩

/-- The sink of a visit is made for the writer, and holds what the writer says to it. -/
theorem sink_of_transcript {said : List (SinkCall V σ)}
    (h : H.Transcript id (call writer (H.request writer v s).args)
      (H.request writer v s).machine said) :
    (H.desk ((H.request writer v s).answer call).2).sink (H.desk s.machine).sinks.length
      = H.after (callsOf (H.desk s.machine).sinks.length said) (Sink.ofVisit v) := by
  have hstart : (H.desk (H.request writer v s).machine).sinks[(H.desk s.machine).sinks.length]?
      = some (Sink.ofVisit v) := by
    rw [H.desk_request]
    exact List.getElem?_concat_length
  have hend := h.heard _ _ hstart
  rw [Desk.sink]
  exact congrArg (Option.getD · _) hend

theorem handles_iff {c : SinkCall V σ} :
    c.handles = true ↔ c.method = "handled" ∧ c.args = [] := by
  rw [SinkCall.handles, Bool.and_eq_true, beq_iff_eq, List.isEmpty_iff]

theorem handled_after_ofVisit (v : Visit) (cs : List (SinkCall V σ)) :
    (H.after cs (Sink.ofVisit v)).handled = true ↔
      ∃ c ∈ cs, c.method = "handled" ∧ c.args = [] := by
  rw [handled_after, Sink.ofVisit, Bool.false_or, List.any_eq_true]
  simp only [handles_iff]

theorem replay_after_ofVisit (v : Visit) (cs : List (SinkCall V σ)) (e : Emitter) :
    (H.after cs (Sink.ofVisit v)).replay e = e.write (H.textOf e v.level cs) := by
  rw [Sink.replay, foldl_play_eq, level_after, emitted_after]
  rfl

/-- A writer that fails leaves the emitter as it was. -/
theorem emitter_of_error {e : Error} (h : (H.callWriter call writer v).run s = (.error e, s')) :
    s'.emitter = s.emitter := by
  by_cases hnoop : H.isNoop writer = true
  · rw [callWriter_of_noop hnoop] at h
    cases h
  · rw [callWriter_eq hnoop, Step.run_of] at h
    rcases hanswer : (H.request writer v s).answer call with ⟨f | w, m⟩
    · rw [hanswer] at h
      cases h
      rfl
    · rw [hanswer] at h
      cases h

/-- A writer that is done has emitted what it said to its sink. -/
theorem emitter_of_ok {handled : Bool} (hcs : H.Hears call s writer v cs)
    (h : (H.callWriter call writer v).run s = (.ok handled, s')) :
    s'.emitter = s.emitter.write (H.textOf s.emitter v.level cs) ∧
      (handled = true ↔ ∃ c ∈ cs, c.method = "handled" ∧ c.args = []) := by
  rw [← handled_after_ofVisit (H := H) v, ← replay_after_ofVisit]
  cases hcs with
  | noop hnoop =>
      rw [callWriter_of_noop hnoop] at h
      cases h
      exact ⟨rfl, Iff.rfl⟩
  | called hnoop hsaid =>
      have hsink := sink_of_transcript hsaid
      rw [callWriter_eq hnoop, Step.run_of] at h
      rcases hanswer : (H.request writer v s).answer call with ⟨f | w, m⟩
      · rw [hanswer] at h
        cases h
      · rw [hanswer] at h hsink
        cases h
        rw [← hsink]
        exact ⟨rfl, Iff.rfl⟩

end Writer

/-! ## Walks -/

/-- The moment of a call; a note is taken at none. -/
def momentOf? (c : Call) : Option Moment :=
  match c.role, c.side with
  | _, .entering => none
  | .field, .opening => some .opening
  | .field, .closing => some .closing
  | .item, .opening => some .openItem
  | .item, .closing => some .closeItem

/-- The call is one of the writer, which is visible in the state. -/
def Host.CallOf (H : Host V σ) (m : σ) (writer : V) (c : Call) : Prop :=
  ∃ moment, momentOf? c = some moment ∧ H.writer? m c.visit.key moment = some writer

/-- The calls of a walk lead from a stage to another one, no writer fails, and what the writers say
to their sinks has the text. -/
inductive Host.Written (H : Host V σ) (call : Calling V σ) (m : σ) :
    List Call → Stage σ → Stage σ → String → Prop where
  | nil (s : Stage σ) : Written H call m [] s s ""
  | noted {v : Visit} {cs : List Call} {s s' : Stage σ} {text : String}
      (hcs : Written H call m cs (H.enterField v s) s' text) :
      Written H call m (⟨.field, .entering, v, .ok false⟩ :: cs) s s' text
  | called {c : Call} {writer : V} {handled : Bool} {said : List (SinkCall V σ)} {cs : List Call}
      {s s₁ s' : Stage σ} {text : String} (hc : H.CallOf m writer c)
      (hrun : (H.callWriter call writer c.visit).run s = (.ok handled, s₁))
      (hsaid : H.Hears call s writer c.visit said) (hcs : Written H call m cs s₁ s' text) :
      Written H call m (c :: cs) s s' (H.textOf s.emitter c.visit.level said ++ text)

/-- The stage on which the walk that a call of `walk` starts begins. -/
def Host.stageFrom (H : Host V σ) (call : Calling V σ) (m : σ) : Stage σ :=
  H.stageOn (H.walkerOn call m).registry.length m

/-- The calls of the walk that a call of `walk` starts. -/
def Host.callsFrom (H : Host V σ) (call : Calling V σ) (m : σ) : List Call :=
  calls (H.walkerOn call m) 0 KeyPath.root (H.desk m).document.tree (H.stageFrom call m)

section Walks

variable {call : Calling V σ} {m : σ} {c : Call} {cs : List Call} {s s' : Stage σ}

theorem run_closingOf (call : Calling V σ) (writer : V) (v : Visit) (s : Stage σ) :
    (H.closingOf call writer v).run s
      = (((H.callWriter call writer v).run s).1.map fun _ => (),
          ((H.callWriter call writer v).run s).2) := by
  rw [Host.closingOf, Step.run_bind]
  rcases (H.callWriter call writer v).run s with ⟨e | handled, s₁⟩ <;> rfl

/-- A call of a walk that a template has started is a note, or a call of a writer, which fails if
the writer does. -/
theorem cases_of_runs (h : c.Runs (H.walkerOn call m) s s') :
    (∃ v, c = ⟨.field, .entering, v, .ok false⟩ ∧ s' = H.enterField v s) ∨
      ∃ writer r, H.CallOf m writer c ∧ (H.callWriter call writer c.visit).run s = (r, s') ∧
        ∃ report, c.answer = r.map report := by
  have hclosing (r : Except Error Bool) :
      ((r.map fun _ => ()).map fun _ => true) = r.map fun _ => true := by
    cases r <;> rfl
  cases h with
  | noted v s => exact .inl ⟨v, rfl, rfl⟩
  | opened h s =>
      obtain ⟨writer, hwriter, hhook⟩ :=
        Option.map_eq_some_iff.mp (hooksOf_of_walkerOn FieldWriters.opening rfl h)
      rw [eq_of_openingOf hhook]
      exact .inr ⟨writer, _, ⟨.opening, rfl, hwriter⟩, rfl, id, (congrFun Except.map_id _).symm⟩
  | openedItem h s =>
      obtain ⟨writer, hwriter, rfl⟩ :=
        Option.map_eq_some_iff.mp (hooksOf_of_walkerOn FieldWriters.openItem rfl h)
      exact .inr ⟨writer, _, ⟨.openItem, rfl, hwriter⟩, rfl, id, (congrFun Except.map_id _).symm⟩
  | closedItem h s =>
      obtain ⟨writer, hwriter, rfl⟩ :=
        Option.map_eq_some_iff.mp (hooksOf_of_walkerOn FieldWriters.closeItem rfl h)
      rw [run_closingOf]
      exact .inr ⟨writer, _, ⟨.closeItem, rfl, hwriter⟩, rfl, fun _ => true, hclosing _⟩
  | closed h s =>
      obtain ⟨writer, hwriter, rfl⟩ :=
        Option.map_eq_some_iff.mp (hooksOf_of_walkerOn FieldWriters.closing rfl h)
      rw [run_closingOf]
      exact .inr ⟨writer, _, ⟨.closing, rfl, hwriter⟩, rfl, fun _ => true, hclosing _⟩

/-- Calls that run and succeed write a text. -/
theorem exists_written (hcall : ∀ v args, H.Recorded id (call v args))
    (h : Runs (H.walkerOn call m) cs s s') (hcs : ∀ c ∈ cs, c.Succeeds) :
    ∃ text, H.Written call m cs s s' text := by
  -- the text is put together from the back, so that each call is put before what is written later
  induction h with
  | nil s => exact ⟨"", .nil s⟩
  | cons hc _ ih =>
      obtain ⟨text, htext⟩ := ih (List.forall_mem_cons.mp hcs).2
      rcases cases_of_runs hc with ⟨v, rfl, rfl⟩ | ⟨writer, r, hwriter, hrun, report, hanswer⟩
      · exact ⟨text, .noted htext⟩
      · obtain ⟨b, hb⟩ := (List.forall_mem_cons.mp hcs).1
        rw [hb] at hanswer
        obtain ⟨handled, rfl, -⟩ := Step.exists_of_map_eq_ok hanswer.symm
        obtain ⟨said, hsaid⟩ := exists_hears hcall _ writer _
        exact ⟨_, .called hwriter hrun hsaid htext⟩

/-- What is written stands behind what was emitted before. -/
theorem Host.Written.emitter_eq {text : String} (h : H.Written call m cs s s' text) :
    s'.emitter = s.emitter.write text := by
  induction h with
  | nil s => simp [Emitter.write]
  | noted _ ih => exact ih
  | called _ hrun hsaid _ ih =>
      rw [ih, (emitter_of_ok hsaid hrun).1, Emitter.write, Emitter.write, Emitter.write,
        String.append_assoc]

/-- A call that fails is a call of a writer that fails. -/
theorem exists_of_fails {e : Error} (h : c.Runs (H.walkerOn call m) s s')
    (hanswer : c.answer = .error e) :
    ∃ writer, H.CallOf m writer c ∧
      (H.callWriter call writer c.visit).run s = (.error e, s') := by
  rcases cases_of_runs h with ⟨v, rfl, -⟩ | ⟨writer, r, hwriter, hrun, report, hreport⟩
  · cases hanswer
  · rw [hanswer] at hreport
    rw [Step.eq_error_of_map hreport.symm] at hrun
    exact ⟨writer, hwriter, hrun⟩

/-- A walk that begins with an empty text ends with what is written. -/
theorem Host.Written.text_eq {text : String}
    (h : H.Written call m cs (H.stageFrom call m) s text) : text = s.emitter.text := by
  rw [h.emitter_eq]
  exact String.empty_append.symm

end Walks

/-- **Writers write all or nothing**, whatever calls do, if the sinks are only changed by their
methods. A writer that fails leaves the emitter as it was. One that is done has emitted what it
said to its sink, in order, and has handled the node if it said so at least once. So when a walk
fails, the emitter holds what the writers have written that were done before, and nothing else. -/
theorem writers_write_all_or_nothing {V σ : Type} {H : Host V σ} {call : Calling V σ}
    (hcall : ∀ callee args, H.Recorded id (call callee args)) :
    (∀ (writer : V) (v : Visit) (s : Stage σ),
      (∃ cs, H.Hears call s writer v cs) ∧
      (∀ e s', (H.callWriter call writer v).run s = (.error e, s') → s'.emitter = s.emitter) ∧
      ∀ handled s' cs, (H.callWriter call writer v).run s = (.ok handled, s') →
        H.Hears call s writer v cs →
          s'.emitter
            = { s.emitter with text := s.emitter.text ++ H.textOf s.emitter v.level cs } ∧
          (handled = true ↔ ∃ c ∈ cs, c.method = "handled" ∧ c.args = [])) ∧
    ∀ m e s, H.walkFrom call m = (.error e, s) →
      ∃ done last s₁, H.callsFrom call m = done ++ last ∧
        H.Written call m done (H.stageFrom call m) s₁ s.emitter.text ∧
        ((last = [] ∧ s₁ = s ∧ ∃ v : Visit, e = .noWriter v.path v.line) ∨
          ∃ c writer err, last = [c] ∧ H.CallOf m writer c ∧
            (H.callWriter call writer c.visit).run s₁ = (.error err, s) ∧
            e = located c.visit err) := by
  refine ⟨fun writer v s => ⟨exists_hears hcall s writer v, fun e s' => emitter_of_error, ?_⟩, ?_⟩
  · exact fun handled s' cs hrun hcs => emitter_of_ok hcs hrun
  · intro m e s hwalk
    obtain ⟨done, last, s₁, hcalls, hruns, hdone, hend⟩ := exists_runs_of_error hwalk
    obtain ⟨text, hwritten⟩ := exists_written hcall hruns hdone
    have htext : text = s₁.emitter.text := hwritten.text_eq
    rcases hend with ⟨rfl, rfl, hnone⟩ | ⟨c, err, rfl, hc, hanswer, he⟩
    · exact ⟨done, [], s₁, hcalls, htext ▸ hwritten, .inl ⟨rfl, rfl, hnone⟩⟩
    · obtain ⟨writer, hwriter, hrun⟩ := exists_of_fails hc hanswer
      -- the writer that fails adds nothing to the text of those before it
      rw [← emitter_of_error hrun] at htext
      exact ⟨done, [c], s₁, hcalls, htext ▸ hwritten,
        .inr ⟨c, writer, err, rfl, hwriter, hrun, he⟩⟩

def groupSite : Document :=
  ⟨.mapping [("group", .mapping [("name", .scalar (.str "a")), ("port", .scalar (.int 80))])],
    ⟨[(".group", 1), (".group.name", 2), (".group.port", 3)]⟩⟩

/-- Calls a method of the sink. -/
def outStmt (method : String) (args : List Expr) : Stmt :=
  .output (.call (.attr (.var "out") method) args [])

/-- The writer of the name writes a line and more text, and handles the node. The writer of the port
writes a line and then fails. -/
def groupWriters : List Stmt :=
  [.macroDef "group_open" ["out", "node"] [] [outStmt "line" [.constant (.str "[group]")]],
    .macroDef "name_open" ["out", "node"] [] [outStmt "line" [.constant (.str "name")],
      outStmt "write" [.var "node"], outStmt "handled" []],
    .macroDef "port_open" ["out", "node"] [] [outStmt "line" [.constant (.str "port")],
      outStmt "stop" []]]

def groupMachine : Machine :=
  ((execBody (engine.invoke 0) groupWriters).run (Machine.start groupSite [])).2

def nameVisit : Visit :=
  ⟨"name", .scalar (.str "a"), ".group.name", 1, some 2⟩

/-- The line and the text of the name stand behind the line of the group, and the line of the port
is lost. -/
theorem writers_write_all_or_nothing_groupSite :
    (engine.walkFrom (engine.invoke 1) groupMachine).1
        = .error (.writerFailed ".group.port" (some 3) ("Failed to render template. Original error:"
            ++ " invalid operation: writer sink has no method 'stop'")) ∧
      (∃ done c s₁, engine.callsFrom (engine.invoke 1) groupMachine = done ++ [c] ∧
        engine.Written (engine.invoke 1) groupMachine done
          (engine.stageFrom (engine.invoke 1) groupMachine) s₁ "[group]\n  name\na") ∧
      ∃ cs, engine.Hears (engine.invoke 1) ⟨groupMachine, {}⟩ (.macroRef "name_open" 1) nameVisit
          cs ∧
        engine.textOf {} 1 cs = "  name\na" ∧ ∃ c ∈ cs, c.method = "handled" ∧ c.args = [] := by
  obtain ⟨hwriter, hwalk⟩ := writers_write_all_or_nothing (recorded_invoke recording_engine 1)
  have hfails : (engine.walkFrom (engine.invoke 1) groupMachine).1
      = .error (.writerFailed ".group.port" (some 3) ("Failed to render template. Original error:"
          ++ " invalid operation: writer sink has no method 'stop'")) := by decide +kernel
  have htext : (engine.walkFrom (engine.invoke 1) groupMachine).2.emitter.text
      = "[group]\n  name\na" := by decide +kernel
  refine ⟨hfails, ?_, ?_⟩
  · rcases hend : engine.walkFrom (engine.invoke 1) groupMachine with ⟨result, s⟩
    rw [hend] at hfails htext
    subst hfails
    obtain ⟨done, last, s₁, hcalls, hwritten, ⟨-, -, v, hnone⟩ | ⟨c, writer, err, rfl, -⟩⟩ :=
      hwalk groupMachine _ s hend
    · cases hnone
    · exact ⟨done, c, s₁, hcalls, htext ▸ hwritten⟩
  · obtain ⟨⟨cs, hcs⟩, -, hdone⟩ :=
      hwriter (.macroRef "name_open" 1) nameVisit ⟨groupMachine, {}⟩
    have hok : ((engine.callWriter (engine.invoke 1) (.macroRef "name_open" 1) nameVisit).run
        ⟨groupMachine, {}⟩).1 = .ok true := by decide +kernel
    have hname : ((engine.callWriter (engine.invoke 1) (.macroRef "name_open" 1) nameVisit).run
        ⟨groupMachine, {}⟩).2.emitter.text = "  name\na" := by decide +kernel
    rcases hrun : (engine.callWriter (engine.invoke 1) (.macroRef "name_open" 1) nameVisit).run
      ⟨groupMachine, {}⟩ with ⟨result, s'⟩
    rw [hrun] at hok hname
    subst hok
    obtain ⟨hemitter, hhandled⟩ := hdone true s' cs hrun hcs
    refine ⟨cs, hcs, ?_, hhandled.mp rfl⟩
    rw [hemitter] at hname
    exact hname

end SiteConf.Template
