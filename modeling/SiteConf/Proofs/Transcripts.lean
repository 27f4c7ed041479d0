import SiteConf.Proofs.Replay
import SiteConf.Proofs.Restriction
import SiteConf.Proofs.WalkFailures
import Mathlib

set_option autoImplicit false

/-! # What is said to the sinks

A computation of an engine says something to a sink by calling one of its methods. A transcript
lists these calls, in the order in which they are made, also those that are made by the macros and
the walks that the computation starts (`Host.Transcript`). It accounts for all that happens to the
sinks that there were before (`Transcript.heard`): what is in a sink in the end is what was in it,
changed by the calls of its methods one after another.

If calls have transcripts, then so do walks with the writers of a template
(`recorded_walkDocument`). So every call has a transcript (`recorded_invoke`), if the engine's own
computations have one whenever the calls in them do; those of the machine have
(`composed_recorded`). -/

namespace SiteConf.Template

open SiteConf.Writer

variable {V σ : Type} {H : Host V σ}

/-! ## Transcripts -/

/-- The calls of methods of sinks that a computation makes when it starts in a state. The state of
the engine is seen in the states by `view`. -/
inductive Host.Transcript (H : Host V σ) : {τ ε α : Type} → (τ → σ) → Step τ ε α → τ →
    List (SinkCall V σ) → Prop where
  /-- A computation that never changes a sink says nothing. -/
  | silent {τ ε α : Type} {view : τ → σ} {x : Step τ ε α}
      (h : ∀ s, (H.desk (view (x.run s).2)).sinks = (H.desk (view s)).sinks) (s : τ) :
      Transcript H view x s []
  | method (n : Nat) (name : String) (args : List V) (m : σ) :
      Transcript H id (H.callSink n name args) m [⟨n, name, args, m⟩]
  | next {τ ε α β : Type} {view : τ → σ} {x : Step τ ε α} {f : α → Step τ ε β} {s s₁ : τ}
      {a : α} {cs ds : List (SinkCall V σ)} (hrun : x.run s = (.ok a, s₁))
      (hx : Transcript H view x s cs) (hf : Transcript H view (f a) s₁ ds) :
      Transcript H view (x >>= f) s (cs ++ ds)
  | stop {τ ε α β : Type} {view : τ → σ} {x : Step τ ε α} {f : α → Step τ ε β} {s s₁ : τ}
      {e : ε} {cs : List (SinkCall V σ)} (hrun : x.run s = (.error e, s₁))
      (hx : Transcript H view x s cs) : Transcript H view (x >>= f) s cs
  /-- A computation that has another one run, on a state in which there may be more sinks. -/
  | inner {τ υ ε δ α β : Type} {view : τ → σ} {inside : υ → σ} (start : τ → υ)
      (y : τ → Step υ δ β) (finish : τ → Except δ β × υ → Except ε α × τ)
      (hstart : ∀ s, (H.desk (view s)).sinks <+: (H.desk (inside (start s))).sinks)
      (hfinish : ∀ s r, (H.desk (view (finish s r).2)).sinks = (H.desk (inside r.2)).sinks)
      {s : τ} {cs : List (SinkCall V σ)} (hy : Transcript H inside (y s) (start s) cs) :
      Transcript H view (Step.of fun s => finish s ((y s).run (start s))) s cs

/-! ## What the sinks hear -/

def callsOf (i : Nat) (cs : List (SinkCall V σ)) : List (SinkCall V σ) :=
  cs.filter fun c => c.sink == i

def Host.after (H : Host V σ) (cs : List (SinkCall V σ)) (k : Sink) : Sink :=
  cs.foldl (fun k c => H.change c k) k

section After

variable (k : Sink) (cs : List (SinkCall V σ))

theorem level_after : (H.after cs k).level = k.level := by
  induction cs generalizing k with
  | nil => rfl
  | cons c cs ih => exact ih (H.change c k)

theorem emitted_after : (H.after cs k).emitted = k.emitted ++ cs.filterMap H.emission? := by
  induction cs generalizing k with
  | nil => exact (List.append_nil _).symm
  | cons c cs ih =>
      have hcons : (c :: cs).filterMap H.emission?
          = (H.emission? c).toList ++ cs.filterMap H.emission? := by
        rw [List.filterMap_cons]
        cases H.emission? c <;> rfl
      rw [hcons, ← List.append_assoc]
      exact ih (H.change c k)

theorem handled_after : (H.after cs k).handled = (k.handled || cs.any SinkCall.handles) := by
  induction cs generalizing k with
  | nil => exact (Bool.or_false _).symm
  | cons c cs ih =>
      rw [List.any_cons, ← Bool.or_assoc]
      exact ih (H.change c k)

end After

/-- Every sink of the first desk is on the second one, and has heard the calls of its methods and
nothing else. -/
def Host.Heard (H : Host V σ) (cs : List (SinkCall V σ)) (d d' : Desk) : Prop :=
  ∀ (i : Nat) (k : Sink), d.sinks[i]? = some k → d'.sinks[i]? = some (H.after (callsOf i cs) k)

section Heard

variable {cs ds : List (SinkCall V σ)} {d d' d'' : Desk}

theorem heard_nil (h : d'.sinks = d.sinks) : H.Heard [] d d' := by
  intro i k hk
  rw [h]
  exact hk

theorem Host.Heard.trans (h : H.Heard cs d d') (h' : H.Heard ds d' d'') :
    H.Heard (cs ++ ds) d d'' := by
  intro i k hk
  have hafter : H.after (callsOf i (cs ++ ds)) k
      = H.after (callsOf i ds) (H.after (callsOf i cs) k) := by
    rw [callsOf, List.filter_append, Host.after, List.foldl_append]
    rfl
  rw [hafter]
  exact h' i _ (h i k hk)

theorem heard_callSink (n : Nat) (name : String) (args : List V) (m : σ) :
    H.Heard [⟨n, name, args, m⟩] (H.desk m) (H.desk ((H.callSink n name args).run m).2) := by
  intro i k hk
  rw [desk_run_callSink, Desk.modifySink, List.getElem?_modify, hk]
  by_cases hn : n = i
  · subst hn
    simp [callsOf, Host.after]
  · simp [callsOf, Host.after, hn]

end Heard

/-- **A transcript accounts for all that happens to the sinks**: by induction on how the
computation is composed. -/
theorem Host.Transcript.heard {τ ε α : Type} {view : τ → σ} {x : Step τ ε α} {s : τ}
    {cs : List (SinkCall V σ)} (h : H.Transcript view x s cs) :
    H.Heard cs (H.desk (view s)) (H.desk (view (x.run s).2)) := by
  induction h with
  | silent h s => exact heard_nil (h s)
  | method n name args m => exact heard_callSink n name args m
  | next hrun _ _ ihx ihf =>
      rw [hrun] at ihx
      rw [Step.run_bind_of_ok hrun]
      exact ihx.trans ihf
  | stop hrun _ ihx =>
      rw [hrun] at ihx
      rw [Step.run_bind_of_error hrun]
      exact ihx
  | inner start y finish hstart hfinish _ ihy =>
      -- further sinks come behind those that there were, which keep their numbers
      intro i k hk
      obtain ⟨more, hmore⟩ := hstart _
      rw [Step.run_of, hfinish]
      refine ihy i k ?_
      rw [← hmore, List.getElem?_append_left (List.getElem?_eq_some_iff.mp hk).1]
      exact hk

/-! ## Recorded computations -/

/-- The computation has a transcript wherever it starts. -/
def Host.Recorded (H : Host V σ) {τ ε α : Type} (view : τ → σ) (x : Step τ ε α) : Prop :=
  ∀ s, ∃ cs, H.Transcript view x s cs

section Recorded

variable {τ ε α β : Type} {view : τ → σ}

theorem recorded_silent {x : Step τ ε α}
    (h : ∀ s, (H.desk (view (x.run s).2)).sinks = (H.desk (view s)).sinks) : H.Recorded view x :=
  fun s => ⟨[], .silent h s⟩

theorem Host.Recorded.bind {x : Step τ ε α} {f : α → Step τ ε β} (hx : H.Recorded view x)
    (hf : ∀ a, H.Recorded view (f a)) : H.Recorded view (x >>= f) := by
  intro s
  obtain ⟨cs, hcs⟩ := hx s
  rcases hrun : x.run s with ⟨e | a, s₁⟩
  · exact ⟨cs, .stop hrun hcs⟩
  · obtain ⟨ds, hds⟩ := hf a s₁
    exact ⟨cs ++ ds, .next hrun hcs hds⟩

theorem recorded_inner {υ δ : Type} {inside : υ → σ} (start : τ → υ) (y : τ → Step υ δ β)
    (finish : τ → Except δ β × υ → Except ε α × τ) (hy : ∀ s, H.Recorded inside (y s))
    (hstart : ∀ s, (H.desk (view s)).sinks <+: (H.desk (inside (start s))).sinks)
    (hfinish : ∀ s r, (H.desk (view (finish s r).2)).sinks = (H.desk (inside r.2)).sinks) :
    H.Recorded view (Step.of fun s => finish s ((y s).run (start s))) := by
  intro s
  obtain ⟨cs, hcs⟩ := hy s (start s)
  exact ⟨cs, .inner start y finish hstart hfinish hcs⟩

/-- Changing an error says nothing to the sinks. -/
theorem Host.Recorded.relabelled {x : Step τ ε α} (hx : H.Recorded view x) (g : ε → ε) :
    H.Recorded view (tryCatch x fun e => throw (g e)) := by
  have hrelabel : (tryCatch x fun e => throw (g e))
      = Step.of fun s => relabel g (x.run s) :=
    funext fun s => run_tryCatch_throw x g s
  rw [hrelabel]
  exact recorded_inner id (fun _ => x) (fun _ => relabel g) (fun _ => hx)
    (fun _ => List.prefix_rfl) fun _ r => by rw [snd_relabel]

end Recorded

/-! ## Walks are recorded -/

/-- A walk that a template starts has no hooks but those of the writers that are visible. -/
theorem hooksOf_of_walkerOn {call : Calling V σ} {m : σ} {key : String} {γ : Type}
    (part : FieldWriters (Stage σ) → Option γ) (hpart : part {} = none) {x : γ}
    (h : part ((H.walkerOn call m).registry.writersOf key) = some x) :
    part (H.hooksOf (H.writer? m key) call) = some x := by
  by_cases hkey : key ∈ (H.desk m).document.tree.fieldNames
  · have hwriters : (H.walkerOn call m).registry.writersOf key
        = H.hooksOf (H.writer? m key) call := writersOf_registryOf H call m hkey
    rwa [hwriters] at h
  · have hnone : (H.walkerOn call m).registry.writersOf key = {} :=
      writersOf_registryOf_of_not_mem H call m hkey
    rw [hnone, hpart] at h
    cases h

theorem eq_of_openingOf {call : Calling V σ} {writer : V} {hook : OpenHook (Stage σ)}
    (h : H.openingOf call writer = .call hook) : hook = H.callWriter call writer := by
  by_cases hnoop : H.isNoop writer = true
  · rw [openingOf_of_noop hnoop] at h
    cases h
  · rw [openingOf_eq hnoop] at h
    exact (Opening.call.inj h).symm

section Calls

variable {call : Calling V σ} (hcall : ∀ v args, H.Recorded id (call v args))

include hcall

theorem recorded_callWriter (writer : V) (v : Visit) :
    H.Recorded Stage.machine (H.callWriter call writer v) := by
  by_cases h : H.isNoop writer = true
  · rw [callWriter_of_noop h]
    exact recorded_silent fun _ => rfl
  · rw [callWriter_eq h]
    refine recorded_inner (fun s => (H.request writer v s).machine)
      (fun s => call writer (H.request writer v s).args) H.resume
      (fun s => hcall writer _) (fun s => ?_) fun s r => ?_
    · rw [id, H.desk_request]
      exact List.prefix_append _ _
    · rcases r with ⟨f | w, m⟩ <;> rfl

theorem recorded_closingOf (writer : V) (v : Visit) :
    H.Recorded Stage.machine (H.closingOf call writer v) :=
  (recorded_callWriter hcall writer v).bind fun _ => recorded_silent fun _ => rfl

/-- All that a walk with the writers of a template is made of is recorded. -/
theorem made_recorded (m : σ) :
    (H.walkerOn call m).Made fun x => H.Recorded Stage.machine x where
  pure a := recorded_silent fun _ => rfl
  throw e := recorded_silent fun _ => rfl
  bind := Host.Recorded.bind
  note v := recorded_silent fun s => by
    show (H.desk (H.enterField v s).machine).sinks = _
    rw [H.desk_enterField]
    rfl
  opening v hook h := by
    obtain ⟨writer, -, hhook⟩ :=
      Option.map_eq_some_iff.mp (hooksOf_of_walkerOn FieldWriters.opening rfl h)
    rw [eq_of_openingOf hhook]
    exact (recorded_callWriter hcall writer v).relabelled (located v)
  openItem v hook h := by
    obtain ⟨writer, -, rfl⟩ :=
      Option.map_eq_some_iff.mp (hooksOf_of_walkerOn FieldWriters.openItem rfl h)
    exact (recorded_callWriter hcall writer v).relabelled (located v)
  closeItem v hook h := by
    obtain ⟨writer, -, rfl⟩ :=
      Option.map_eq_some_iff.mp (hooksOf_of_walkerOn FieldWriters.closeItem rfl h)
    exact (recorded_closingOf hcall writer v).relabelled (located v)
  closing v hook h := by
    obtain ⟨writer, -, rfl⟩ :=
      Option.map_eq_some_iff.mp (hooksOf_of_walkerOn FieldWriters.closing rfl h)
    exact (recorded_closingOf hcall writer v).relabelled (located v)

theorem recorded_walkDocument : H.Recorded id (H.walkDocument call) := by
  refine recorded_inner (fun m => H.stageOn (H.walkerOn call m).registry.length m)
    (fun m => walk (H.walkerOn call m) (H.desk m).document.tree) (fun _ => H.walkEnd)
    (fun m => walkTree_made (made_recorded hcall m) (H.desk m).document.tree 0 KeyPath.root)
    (fun m => ?_) fun m r => ?_
  · obtain ⟨entry, hentry⟩ := H.desk_stageOn (H.walkerOn call m).registry.length m
    rw [hentry]
    exact List.prefix_rfl
  · rcases r with ⟨e | ⟨⟩, s⟩
    · rw [id, H.desk_walkEnd_error]
      rfl
    · rfl

end Calls

/-! ## Calls are recorded -/

/-- The engine's own computations are recorded, whenever the calls in them are. -/
def Engine.Recording (E : Engine V σ) : Prop :=
  ∀ call : Calling V σ, (∀ v args, E.Recorded id (call v args)) →
    ∀ v args, E.Recorded id (E.callValue call v args)

/-- **Every call has a transcript**: the induction is on how deep calls may nest. -/
theorem recorded_invoke {E : Engine V σ} (hE : E.Recording) (n : Nat) (callee : V)
    (args : List V) : E.Recorded id (E.invoke n callee args) := by
  induction n generalizing callee args with
  | zero => exact recorded_silent fun _ => rfl
  | succ n ih =>
      show E.Recorded id (E.apply (E.invoke n) callee args)
      unfold Engine.apply
      split
      · refine Host.Recorded.bind ?_ fun _ => recorded_walkDocument ih
        exact recorded_silent fun s => by rw [Step.run_lift]
      · split
        · exact recorded_silent fun _ => rfl
        · exact hE _ ih callee args

theorem composed_recorded {call : Caller} (hcall : ∀ v args, host.Recorded id (call v args)) :
    Composed fun x => host.Recorded id (x call) where
  const h := recorded_silent fun m => (h m).sinks
  call := hcall
  sink n name args m := ⟨_, .method n name args m⟩
  bind := Host.Recorded.bind

theorem recording_engine : engine.Recording :=
  fun _ hcall => callValue_composed (composed_recorded hcall)

end SiteConf.Template
