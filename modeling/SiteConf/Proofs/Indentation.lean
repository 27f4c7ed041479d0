import SiteConf.Proofs.Levels
import SiteConf.Proofs.NestedLines

set_option autoImplicit false

/-! # Indentation

A walk that starts deeper visits every node deeper, by as much. So hooks that behave alike at all
levels and paths, and emit nothing but lines on the level of the visit, emit the same lines with
more indentation (`walkTree_moved`). With the levels of the visits this says how a walk indents
(`indentation_follows_writers`). -/

namespace SiteConf.Writer

open KeyPath

variable {σ τ α β : Type}

/-! ## Rows that are raised -/

/-- The same line on a deeper level. -/
def Row.raise (d : Nat) (r : Row) : Row :=
  ⟨r.level + d, r.content⟩

def rowsAt (level : Nat) (contents : List String) : List Row :=
  contents.map fun content => ⟨level, content⟩

theorem map_raise_rowsAt (d level : Nat) (contents : List String) :
    (rowsAt level contents).map (Row.raise d) = rowsAt (level + d) contents := by
  rw [rowsAt, List.map_map]
  rfl

theorem Emitter.indent_add (e : Emitter) (d level : Nat) :
    e.indent (level + d) = e.indent d ++ e.indent level := by
  rw [indent, Nat.add_comm, List.replicate_add, String.join_append]
  rfl

theorem Emitter.text_rows (e : Emitter) (rs : List Row) :
    (e.rows rs).text
      = e.text ++ String.join (rs.map fun r => e.indent r.level ++ r.content ++ "\n") := by
  induction rs generalizing e with
  | nil => simp [rows]
  | cons r rs ih =>
      have hrest : e.rows (r :: rs) = (e.line r.level r.content).rows rs := rfl
      have hindent : ∀ level, (e.line r.level r.content).indent level = e.indent level :=
        fun _ => rfl
      rw [hrest, ih, List.map_cons, String.join_cons]
      simp only [hindent]
      simp only [line, String.append_assoc]

/-! ## Hooks that can be moved -/

/-- Where a state keeps the emitted text, and what else of it hooks look at. -/
structure View (σ τ : Type) where
  emitter : σ → Emitter
  rest : σ → τ

/-- Visits of the same node, at any levels and paths. -/
structure Visit.Elsewhere (L : LineRef → LineRef → Prop) (v v' : Visit) : Prop where
  key : v.key = v'.key
  value : v.value = v'.value
  line : L v.line v'.line

/-- The hook behaves alike at all levels and paths, and it emits nothing but lines on the level of
the visit. -/
def HookMovable (view : View σ τ) (L : LineRef → LineRef → Prop)
    (hook : Visit → Step σ Error α) : Prop :=
  ∀ v v' s s', v.Elsewhere L v' → view.rest s = view.rest s' →
    (Step.run (hook v) s).1 = (Step.run (hook v') s').1 ∧
    view.rest (Step.run (hook v) s).2 = view.rest (Step.run (hook v') s').2 ∧
    ∃ contents : List String,
      view.emitter (Step.run (hook v) s).2 = (view.emitter s).rows (rowsAt v.level contents) ∧
      view.emitter (Step.run (hook v') s').2
        = (view.emitter s').rows (rowsAt v'.level contents)

/-- All hooks of the field can be moved. -/
structure FieldWriters.Movable (view : View σ τ) (L : LineRef → LineRef → Prop)
    (f : FieldWriters σ) : Prop where
  opening : ∀ hook, f.opening = some (.call hook) → HookMovable view L hook
  openItem : ∀ hook, f.openItem = some hook → HookMovable view L hook
  closeItem : ∀ hook, f.closeItem = some hook → HookMovable view L hook
  closing : ∀ hook, f.closing = some hook → HookMovable view L hook

/-- All hooks of the walk can be moved, and what it notes of a field is not seen. -/
structure Walker.Movable (view : View σ τ) (L : LineRef → LineRef → Prop) (w : Walker σ) :
    Prop where
  writers : ∀ name, (w.registry.writersOf name).Movable view L
  note : ∀ v s, view.emitter (w.note v s) = view.emitter s ∧ view.rest (w.note v s) = view.rest s

/-- The two computations end alike, and the first one emits the lines of the second one `d` levels
deeper. -/
def Moved (view : View σ τ) (d : Nat) (x x' : Step σ Error α) : Prop :=
  ∀ s s', view.rest s = view.rest s' →
    (Step.run x s).1.toOption = (Step.run x' s').1.toOption ∧
    view.rest (Step.run x s).2 = view.rest (Step.run x' s').2 ∧
    ∃ rows : List Row,
      view.emitter (Step.run x s).2 = (view.emitter s).rows (rows.map (Row.raise d)) ∧
      view.emitter (Step.run x' s').2 = (view.emitter s').rows rows

section Moved

variable {view : View σ τ} {L : LineRef → LineRef → Prop} {d : Nat}

theorem Moved.pure (a : α) : Moved view d (pure a) (pure a) :=
  fun _ _ h => ⟨rfl, h, [], rfl, rfl⟩

theorem Moved.throw (e e' : Error) : Moved view d (throw e : Step σ Error α) (throw e') :=
  fun _ _ h => ⟨rfl, h, [], rfl, rfl⟩

theorem Moved.bind {x x' : Step σ Error α} {f f' : α → Step σ Error β} (hx : Moved view d x x')
    (hf : ∀ a, Moved view d (f a) (f' a)) : Moved view d (x >>= f) (x' >>= f') := by
  intro s s' hs
  obtain ⟨hresult, hrest, rows, hrows, hrows'⟩ := hx s s' hs
  rcases hrun : Step.run x s with ⟨r, s₁⟩
  rcases hrun' : Step.run x' s' with ⟨r', s₁'⟩
  rw [hrun] at hresult hrest hrows
  rw [hrun'] at hresult hrest hrows'
  rcases r with e | a <;> rcases r' with e' | a'
  · rw [Step.run_bind_of_error hrun, Step.run_bind_of_error hrun']
    exact ⟨rfl, hrest, rows, hrows, hrows'⟩
  · cases hresult
  · cases hresult
  · obtain rfl : a = a' := Option.some.inj hresult
    obtain ⟨hlater, hrest', more, hmore, hmore'⟩ := hf a s₁ s₁' hrest
    rw [Step.run_bind_of_ok hrun, Step.run_bind_of_ok hrun']
    refine ⟨hlater, hrest', rows ++ more, ?_, ?_⟩
    · rw [hmore, List.map_append, Emitter.rows_append]
      exact congrArg _ hrows
    · rw [hmore', Emitter.rows_append]
      exact congrArg _ hrows'

/-- A hook that can be moved emits the same lines elsewhere. -/
theorem HookMovable.moved {hook : Visit → Step σ Error α} (h : HookMovable view L hook)
    {v v' : Visit} (hv : v.Elsewhere L v') (hlevel : v.level = v'.level + d) :
    Moved view d (call hook v) (call hook v') := by
  intro s s' hs
  obtain ⟨hresult, hrest, contents, hrows, hrows'⟩ := h v v' s s' hv hs
  have hraised := map_raise_rowsAt d v'.level contents
  rw [← hlevel] at hraised
  rw [← hraised] at hrows
  rw [call, call, Step.run_tryCatch, Step.run_tryCatch]
  rcases hrun : Step.run (hook v) s with ⟨r, s₁⟩
  rcases hrun' : Step.run (hook v') s' with ⟨r', s₁'⟩
  rw [hrun] at hresult hrest hrows
  rw [hrun'] at hresult hrest hrows'
  obtain rfl : r = r' := hresult
  cases r with
  | ok a => exact ⟨rfl, hrest, _, hrows, hrows'⟩
  | error e => exact ⟨rfl, hrest, _, hrows, hrows'⟩

theorem callClose_moved {hook : Option (CloseHook σ)}
    (h : ∀ k, hook = some k → HookMovable view L k) {v v' : Visit} (hv : v.Elsewhere L v')
    (hlevel : v.level = v'.level + d) : Moved view d (callClose hook v) (callClose hook v') := by
  cases hook with
  | none => exact Moved.pure ()
  | some k => exact (h k rfl).moved hv hlevel

theorem ask_moved {f : FieldWriters σ} (hf : f.Movable view L) {v v' : Visit}
    (hv : v.Elsewhere L v') (hlevel : v.level = v'.level + d) :
    Moved view d (f.ask v) (f.ask v') := by
  unfold FieldWriters.ask
  rcases hopening : f.opening with _ | _ | hook
  · rw [hv.value]
    by_cases hplain : v'.value.isPlain = true
    · simp only [if_pos hplain]
      exact Moved.pure false
    · simp only [if_neg hplain]
      exact Moved.throw _ _
  · exact Moved.pure false
  · exact (hf.opening hook hopening).moved hv hlevel

end Moved

/-! ## The whole walk -/

/-- The first walk is `d` levels deeper than the second one. The lines that they know of what is
below their paths may differ as `L` allows. -/
structure Deeper (w : Walker σ) (L : LineRef → LineRef → Prop) (d l : Nat) (p : String) (l' : Nat)
    (p' : String) : Prop where
  level : l = l' + d
  lines : ∀ steps,
    L (w.origins.lineOf (p ++ ofSteps steps)) (w.origins.lineOf (p' ++ ofSteps steps))

section Walk

variable {view : View σ τ} {L : LineRef → LineRef → Prop} {d l l' : Nat} {p p' : String}
  {w : Walker σ}

theorem stepPath_append (path : String) (step : Tree.Step) (steps : List Tree.Step) :
    stepPath path step ++ ofSteps steps = path ++ ofSteps (step :: steps) := by
  have hstep := ofSteps_append_step path [] step
  have hsplit : ofSteps ([step] ++ steps) = ofSteps [step] ++ ofSteps steps := by
    rw [ofSteps, segments_append, ofSegments_append]
    rfl
  have hroot : path ++ ofSteps [] = path := String.append_empty
  rw [hroot] at hstep
  rw [← hstep, List.nil_append, String.append_assoc, ← hsplit]
  rfl

theorem Deeper.step (h : Deeper w L d l p l' p') (step : Tree.Step) :
    Deeper w L d l (stepPath p step) l' (stepPath p' step) := by
  refine ⟨h.level, fun steps => ?_⟩
  rw [stepPath_append, stepPath_append]
  exact h.lines (step :: steps)

theorem Deeper.elsewhere (h : Deeper w L d l p l' p') (key : String) (t : Tree) :
    (w.visit key t p l).Elsewhere L (w.visit key t p' l') := by
  have hlines := h.lines []
  have hroot : ∀ path : String, path ++ ofSteps [] = path := fun _ => String.append_empty
  rw [hroot, hroot] at hlines
  exact ⟨rfl, rfl, hlines⟩

theorem Walker.Movable.paired (hw : w.Movable view L) (names : List String) :
    w.Paired (Moved view d) (Deeper w L d) names w where
  pure := Moved.pure
  bind := Moved.bind
  child h key := h.step (.key key)
  item h i := h.step (.index i)
  deeper h := ⟨by rw [h.level]; omega, h.lines⟩
  indents _ _ := rfl
  noting key _ t l p l' p' _ s s' hs := by
    obtain ⟨hemitter, hrest⟩ := hw.note (w.visit key t p l) s
    obtain ⟨hemitter', hrest'⟩ := hw.note (w.visit key t p' l') s'
    exact ⟨rfl, hrest.trans (hs.trans hrest'.symm), [], hemitter, hemitter'⟩
  ask key _ t _ _ _ _ h := ask_moved (hw.writers key) (h.elsewhere key t) h.level
  openItem key _ := by
    rcases hopen : (w.registry.writersOf key).openItem with _ | hook
    · exact .none
    · exact .some fun t _ _ _ _ h =>
        ((hw.writers key).openItem hook hopen).moved (h.elsewhere key t) h.level
  closeItem key _ t _ _ _ _ h :=
    callClose_moved (hw.writers key).closeItem (h.elsewhere key t) h.level
  closing key _ t _ _ _ _ h := callClose_moved (hw.writers key).closing (h.elsewhere key t) h.level

/-- **A walk that starts deeper emits the same lines deeper.** -/
theorem walkTree_moved (hw : w.Movable view L) (t : Tree) (h : Deeper w L d l p l' p') :
    Moved view d (walkTree w l p t) (walkTree w l' p' t) :=
  walkTree_paired t (hw.paired t.fieldNames) h

/-- Raised rows are the same lines with more indentation. -/
theorem text_of_moved {x x' : Step σ Error Unit} (h : Moved view d x x') {s s' : σ}
    (hs : view.rest s = view.rest s') (hunit : (view.emitter s).unit = (view.emitter s').unit) :
    ∃ lines : List String,
      (view.emitter (Step.run x s).2).text = (view.emitter s).text
        ++ String.join (lines.map fun l => (view.emitter s).indent d ++ l ++ "\n") ∧
      (view.emitter (Step.run x' s').2).text
        = (view.emitter s').text ++ String.join (lines.map fun l => l ++ "\n") := by
  obtain ⟨-, -, rows, hrows, hrows'⟩ := h s s' hs
  have hindent : ∀ level, (view.emitter s').indent level = (view.emitter s).indent level := by
    intro level
    rw [Emitter.indent, Emitter.indent, hunit]
  refine ⟨rows.map fun r => (view.emitter s).indent r.level ++ r.content, ?_, ?_⟩
  · rw [hrows, Emitter.text_rows, List.map_map, List.map_map]
    refine congrArg (fun ls => _ ++ String.join ls) (List.map_congr_left fun r _ => ?_)
    calc (view.emitter s).indent (r.level + d) ++ r.content ++ "\n"
        = (view.emitter s).indent d ++ (view.emitter s).indent r.level ++ r.content ++ "\n" := by
          rw [Emitter.indent_add]
      _ = (view.emitter s).indent d ++ ((view.emitter s).indent r.level ++ r.content) ++ "\n" := by
          simp only [String.append_assoc]
  · rw [hrows', Emitter.text_rows, List.map_map]
    refine congrArg (fun ls => _ ++ String.join ls) (List.map_congr_left fun r _ => ?_)
    rw [hindent]
    rfl

end Walk

/-- **Indentation follows the writers on the way.** In a walk from level `d` on, a field is visited
on `d`, one more for each field around it that has an opening hook, and one more for each field
around it whose items are dispatched; an item is visited on the level of its field, or one deeper if
the field has an opening hook; and a node is closed on the level on which it was opened. Hence hooks
that behave alike at all levels and paths and emit nothing but lines on the level of the visit emit
the lines of the walk from level 0, each behind `d` more units of indentation. -/
theorem indentation_follows_writers (w : Walker σ) (t : Tree) (d : Nat) (path : String) :
    (∀ s, ∀ c ∈ calls w d path t s,
      (c.role = .field → c.AtFieldLevel w path t d) ∧
      (c.role = .item → c.AtItemLevel w (calls w d path t s)) ∧
      (c.side = .closing → c.AtOpeningLevel w (calls w d path t s))) ∧
    ∀ {τ : Type} (view : View σ τ) (L : LineRef → LineRef → Prop) (path' : String),
      w.Movable view L →
      (∀ steps, L (w.origins.lineOf (path ++ ofSteps steps))
        (w.origins.lineOf (path' ++ ofSteps steps))) →
      ∀ s s', view.rest s = view.rest s' → (view.emitter s).unit = (view.emitter s').unit →
        ((Step.run (walkTree w d path t) s).1.toOption
          = (Step.run (walkTree w 0 path' t) s').1.toOption) ∧
        ∃ lines : List String,
          (view.emitter (Step.run (walkTree w d path t) s).2).text = (view.emitter s).text
            ++ String.join (lines.map fun l => (view.emitter s).indent d ++ l ++ "\n") ∧
          (view.emitter (Step.run (walkTree w 0 path' t) s').2).text
            = (view.emitter s').text ++ String.join (lines.map fun l => l ++ "\n") := by
  refine ⟨fun s c hc => ?_, fun view L path' hw hlines s s' hs hunit => ?_⟩
  · have hfollows := calls_follow_writers w d path t s c hc
    exact ⟨hfollows.field, hfollows.item, hfollows.closing⟩
  · have hdeeper : Deeper w L d d path 0 path' := ⟨(Nat.zero_add d).symm, hlines⟩
    have hmoved := walkTree_moved hw t hdeeper
    exact ⟨(hmoved s s' hs).1, text_of_moved hmoved hs hunit⟩

/-- Of a page hooks look at nothing. -/
def pageView : View Page Unit :=
  ⟨Page.emitter, fun _ => ()⟩

/-- A hook that emits the name of the field. -/
def emitKey (a : α) (v : Visit) : Step Page Error α :=
  Step.of fun page => (.ok a, { page with emitter := page.emitter.line v.level v.key })

/-- Blocks, groups that do not indent, and lists of ports whose items are dispatched. -/
def keyRegistry : Registry Page :=
  [("block", ⟨some (.call (emitKey false)), none, none, some (emitKey ())⟩),
   ("group", ⟨some .nothing, none, none, none⟩),
   ("list", ⟨some (.call (emitKey false)), some (emitKey false), some (emitKey ()), none⟩),
   ("port", ⟨none, none, none, some (emitKey ())⟩)]

/-- A port in a list in a group in a block. -/
def portTree : Tree :=
  .mapping [("block", .mapping [("group", .mapping [("list",
    .sequence [.mapping [("port", .scalar (.int 80))]])])])]

theorem emitKey_movable (a : α) : HookMovable pageView (fun _ _ => True) (emitKey a) := by
  intro v v' s s' hv _
  refine ⟨rfl, rfl, [v.key], rfl, ?_⟩
  rw [hv.key]
  rfl

theorem keyRegistry_movable :
    Walker.Movable pageView (fun _ _ => True) ⟨keyRegistry, ⟨[]⟩, Page.note⟩ := by
  refine ⟨fun name => ?_, fun _ _ => ⟨rfl, rfl⟩⟩
  have hall : ∀ bundle ∈ keyRegistry, bundle.2.Movable pageView fun _ _ => True := by
    rw [keyRegistry, List.forall_mem_cons, List.forall_mem_cons, List.forall_mem_cons,
      List.forall_mem_singleton]
    refine ⟨⟨?_, ?_, ?_, ?_⟩, ⟨?_, ?_, ?_, ?_⟩, ⟨?_, ?_, ?_, ?_⟩, ⟨?_, ?_, ?_, ?_⟩⟩ <;>
      rintro hook ⟨⟩ <;> exact emitKey_movable _
  show (Registry.writersOf name keyRegistry).Movable pageView _
  rcases hget : Ordered.get? name keyRegistry with _ | f
  · rw [Registry.writersOf, hget]
    exact ⟨by rintro hook ⟨⟩, by rintro hook ⟨⟩, by rintro hook ⟨⟩, by rintro hook ⟨⟩⟩
  · rw [Registry.writersOf, hget]
    exact hall (name, f) (Ordered.mem_of_get? hget)

/-- From level 1 the port is visited on level 4: inside a block, and inside a list with items. -/
theorem indentation_follows_writers_portTree :
    (∃ c ∈ calls ⟨keyRegistry, ⟨[]⟩, Page.note⟩ 1 ".site" portTree {},
      c.visit.key = "port" ∧ c.visit.level = 4 ∧
        c.AtFieldLevel ⟨keyRegistry, ⟨[]⟩, Page.note⟩ ".site" portTree 1) ∧
    (Step.run (walkTree ⟨keyRegistry, ⟨[]⟩, Page.note⟩ 0 "" portTree) {}).2.emitter.text
      = "block\n  list\n    list\n      port\n    list\nblock\n" ∧
    ∃ lines : List String,
      (Step.run (walkTree ⟨keyRegistry, ⟨[]⟩, Page.note⟩ 1 ".site" portTree) {}).2.emitter.text
        = String.join (lines.map fun l => "  " ++ l ++ "\n") ∧
      "block\n  list\n    list\n      port\n    list\nblock\n"
        = String.join (lines.map fun l => l ++ "\n") := by
  obtain ⟨hlevels, hmoved⟩ :=
    indentation_follows_writers ⟨keyRegistry, ⟨[]⟩, Page.note⟩ portTree 1 ".site"
  have hport : (calls ⟨keyRegistry, ⟨[]⟩, Page.note⟩ 1 ".site" portTree {})[6]?
      = some ⟨.field, .entering, ⟨"port", .scalar (.int 80), ".site.block.group.list.0.port", 4,
        none⟩, .ok false⟩ := by rfl
  have htext : (Step.run (walkTree ⟨keyRegistry, ⟨[]⟩, Page.note⟩ 0 "" portTree) {}).2.emitter.text
      = "block\n  list\n    list\n      port\n    list\nblock\n" := by decide
  have hmem := List.mem_of_getElem? hport
  obtain ⟨-, lines, hdeep, hflat⟩ := hmoved pageView (fun _ _ => True) "" keyRegistry_movable
    (fun _ => trivial) {} {} rfl rfl
  refine ⟨⟨_, hmem, rfl, rfl, (hlevels {} _ hmem).1 rfl⟩, htext, lines, hdeep, ?_⟩
  rw [← htext]
  exact hflat

end SiteConf.Writer
