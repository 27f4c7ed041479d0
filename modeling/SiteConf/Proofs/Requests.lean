import SiteConf.Proofs.Step
import SiteConf.Template.Host
import Mathlib

set_option autoImplicit false

/-! # The calls that a computation makes

The computations of an engine take what calls do as a parameter, so the calls that they make can
be read off from how they depend on it. A computation makes a call when it would end otherwise if
this one call, with these arguments and in this state, had another answer (`Asks`).

`Host.Traced` is what the renderer relies on: the computation stops at a call that fails, in the
state that the call leaves, and it does not touch the note of a failed walk on the desk, so that
only calls do. Sequences of traced computations are traced (`Traced.bind`), and the calls of a
sequence are those of its parts, as far as it comes (`asks_bind_iff`). At most one of the calls
fails (`Traced.eq_of_fails`). -/

namespace SiteConf.Template

variable {V σ : Type}

/-! ## Calls -/

/-- A call as it is made: what is called, with what arguments, and in what state. -/
structure Request (V σ : Type) where
  callee : V
  args : List V
  machine : σ

/-- How a call ends, when calls do what `call` says. -/
def Request.answer (q : Request V σ) (call : Calling V σ) : Except Fault V × σ :=
  (call q.callee q.args).run q.machine

/-- The two say the same of all calls but one. -/
def SameBut (q : Request V σ) (call call' : Calling V σ) : Prop :=
  ∀ p : Request V σ, p ≠ q → p.answer call' = p.answer call

/-- With calls that do what `call` says, the computation makes the call: it would end otherwise if
only this call had another answer. -/
def Asks {ρ : Type} (x : Calling V σ → ρ) (call : Calling V σ) (q : Request V σ) : Prop :=
  ∃ call', SameBut q call call' ∧ x call' ≠ x call

section Callers

variable {q : Request V σ} {call call' : Calling V σ}

theorem SameBut.symm (h : SameBut q call call') : SameBut q call' call :=
  fun p hp => (h p hp).symm

theorem SameBut.trans {call'' : Calling V σ} (h : SameBut q call call')
    (h' : SameBut q call' call'') : SameBut q call call'' :=
  fun p hp => (h' p hp).trans (h p hp)

theorem eq_of_not_asks {ρ : Type} {x : Calling V σ → ρ} (h : ¬ Asks x call q)
    (hsame : SameBut q call call') : x call' = x call := by
  by_contra hne
  exact h ⟨call', hsame, hne⟩

/-- What is computed from the end of a computation depends on no other calls. -/
theorem Asks.of_comp {ρ τ : Type} {x : Calling V σ → ρ} {g : ρ → τ}
    (h : Asks (fun call => g (x call)) call q) : Asks x call q := by
  obtain ⟨call', hsame, hne⟩ := h
  exact ⟨call', hsame, fun heq => hne (congrArg g heq)⟩

open Classical in
/-- Calls do what `call` says, but for one that fails. -/
noncomputable def failingAt (q : Request V σ) (f : Fault) (m : σ) (call : Calling V σ) :
    Calling V σ :=
  fun v args => Step.of fun m' =>
    if (⟨v, args, m'⟩ : Request V σ) = q then (.error f, m) else (call v args).run m'

theorem answer_failingAt (q : Request V σ) (f : Fault) (m : σ) (call : Calling V σ) :
    q.answer (failingAt q f m call) = (.error f, m) := by
  rw [Request.answer, failingAt, Step.run_of, if_pos rfl]

theorem sameBut_failingAt (q : Request V σ) (f : Fault) (m : σ) (call : Calling V σ) :
    SameBut q call (failingAt q f m call) := by
  intro p hp
  rw [Request.answer, failingAt, Step.run_of, if_neg hp, Request.answer]

/-- States can be told apart by their logs, however long. -/
theorem exists_longer_log (H : Host V σ) (m : σ) (n : Nat) : ∃ m', n < (H.desk m').log.length := by
  refine ⟨H.modifyDesk (fun d => { d with log := List.replicate (n + 1) ⟨.debug, ""⟩ }) m, ?_⟩
  rw [H.desk_modifyDesk, List.length_replicate]
  omega

end Callers

/-! ## Traced computations -/

section Traced

variable {τ ε α β : Type} {H : Host V σ} {view : τ → σ}

/-- A computation that is ended by a call: it fails, and leaves the desk as the call does. -/
def Host.StoppedAt (H : Host V σ) (view : τ → σ) (m : σ) (r : Except ε α × τ) : Prop :=
  ∃ e s, r = (.error e, s) ∧ H.desk (view s) = H.desk m

/-- A call that returns leaves no note of a failed walk where there was none. -/
def Host.Trusted (H : Host V σ) (call : Calling V σ) : Prop :=
  ∀ q : Request V σ, (H.desk q.machine).failure = none →
    ∀ v m, q.answer call = (.ok v, m) → (H.desk m).failure = none

/-- What the renderer relies on in the computations of an engine. The state of the engine is seen
in theirs by `view`. -/
structure Host.Traced (H : Host V σ) (view : τ → σ) (x : Calling V σ → Step τ ε α) : Prop where
  /-- A call that fails is not made at all, or is the end. -/
  stops {s : τ} {q : Request V σ} {call call' : Calling V σ} {f : Fault} {m : σ} :
    SameBut q call call' → q.answer call' = (.error f, m) →
      (x call').run s = (x call).run s ∨ H.StoppedAt view m ((x call').run s)
  /-- Without a failed walk in the beginning, there is none when a call is made. -/
  calm {s : τ} {call : Calling V σ} {q : Request V σ} :
    H.Trusted call → (H.desk (view s)).failure = none →
      Asks (fun call => (x call).run s) call q → (H.desk q.machine).failure = none
  /-- A note of a failed walk in the end is due to a call. -/
  source {s : τ} {call : Calling V σ} :
    H.Trusted call → (H.desk (view s)).failure = none →
      (H.desk (view ((x call).run s).2)).failure ≠ none →
        ∃ q, Asks (fun call => (x call).run s) call q ∧
          (H.desk (q.answer call).2).failure = (H.desk (view ((x call).run s).2)).failure

namespace Host.Traced

variable {x : Calling V σ → Step τ ε α} {s : τ} {call : Calling V σ} {p q : Request V σ}

/-- If a computation makes a call, then it ends there should the call fail. -/
theorem stoppedAt_of_asks (hx : H.Traced view x) (h : Asks (fun call => (x call).run s) call q)
    {call' : Calling V σ} {f : Fault} {m : σ} (hsame : SameBut q call call')
    (hfails : q.answer call' = (.error f, m)) : H.StoppedAt view m ((x call').run s) := by
  obtain ⟨other, hother, hne⟩ := h
  -- The run cannot agree both with `call` and with `other`, so it is stopped in one comparison.
  rcases hx.stops hsame hfails with heq | hstopped
  · rcases hx.stops (hother.symm.trans hsame) hfails with heq' | hstopped
    · exact absurd (heq'.symm.trans heq) hne
    · exact hstopped
  · exact hstopped

/-- A call that is made and fails is the end. -/
theorem stoppedAt_of_fails (hx : H.Traced view x) (h : Asks (fun call => (x call).run s) call q)
    {f : Fault} {m : σ} (hfails : q.answer call = (.error f, m)) :
    H.StoppedAt view m ((x call).run s) :=
  hx.stoppedAt_of_asks h (fun _ _ => rfl) hfails

/-- A computation makes a call also when more is done with its end, if the log of a failure is
kept. -/
theorem asks_of_log (hx : H.Traced view x) (h : Asks (fun call => (x call).run s) call q)
    {ρ : Type} {g : Calling V σ → Except ε α × τ → ρ} (log : ρ → Log)
    (hlog : ∀ call e s, log (g call (.error e, s)) = (H.desk (view s)).log) :
    Asks (fun call => g call ((x call).run s)) call q := by
  obtain ⟨m, hm⟩ := exists_longer_log H (view s) (log (g call ((x call).run s))).length
  have hsame := sameBut_failingAt q invalidOperation m call
  refine ⟨_, hsame, fun heq => ?_⟩
  obtain ⟨e, s', hrun, hview⟩ := hx.stoppedAt_of_asks h hsame (answer_failingAt q _ m call)
  have hend : log (g call ((x call).run s)) = (H.desk m).log := by
    rw [← hview, ← hlog (failingAt q invalidOperation m call) e s', ← hrun]
    exact congrArg log heq.symm
  rw [hend] at hm
  exact lt_irrefl _ hm

/-- A computation that is ended by a call makes no other call that fails. -/
theorem not_asks_of_stoppedAt (hx : H.Traced view x) {m m' : σ}
    (hstopped : H.StoppedAt view m ((x call).run s)) {f : Fault}
    (hfails : q.answer call = (.error f, m'))
    (hne : (H.desk m).log.length ≠ (H.desk m').log.length) :
    ¬ Asks (fun call => (x call).run s) call q := by
  intro h
  obtain ⟨e, s', hrun, hview⟩ := hstopped
  obtain ⟨e', s'', hrun', hview'⟩ := hx.stoppedAt_of_fails h hfails
  rw [hrun] at hrun'
  cases hrun'
  exact hne (congrArg (fun d => d.log.length) (hview.symm.trans hview'))

/-- At most one of the calls that are made fails. -/
theorem eq_of_fails (hx : H.Traced view x) (hp : Asks (fun call => (x call).run s) call p)
    (hq : Asks (fun call => (x call).run s) call q) {f g : Fault} {m m' : σ}
    (hpfails : p.answer call = (.error f, m)) (hqfails : q.answer call = (.error g, m')) :
    p = q := by
  by_contra hne
  obtain ⟨k, hk⟩ := exists_longer_log H m' (H.desk m').log.length
  obtain ⟨l, hl⟩ := exists_longer_log H m ((H.desk m).log.length + (H.desk k).log.length)
  -- Let the calls fail in states `k` and `l` of their own: each of them hides the other one.
  have hpsame := sameBut_failingAt p f k call
  have hpstopped := hx.stoppedAt_of_asks hp hpsame (answer_failingAt p f k call)
  have hqhidden := hx.not_asks_of_stoppedAt hpstopped ((hpsame q (Ne.symm hne)).trans hqfails)
    (by omega)
  have hqsame := sameBut_failingAt q g l call
  have hqstopped := hx.stoppedAt_of_asks hq hqsame (answer_failingAt q g l call)
  have hphidden := hx.not_asks_of_stoppedAt hqstopped ((hqsame p hne).trans hpfails)
    (by omega)
  -- With both failing so, neither could be made first.
  have hboth : SameBut p (failingAt q g l call) (failingAt q g l (failingAt p f k call)) := by
    intro r hr
    by_cases hrq : r = q
    · rw [hrq, answer_failingAt, answer_failingAt]
    · rw [sameBut_failingAt q g l _ r hrq, hpsame r hr, hqsame r hrq]
  have hrun : (x (failingAt p f k call)).run s = (x (failingAt q g l call)).run s :=
    (eq_of_not_asks hqhidden (sameBut_failingAt q g l _)).symm.trans
      (eq_of_not_asks hphidden hboth)
  obtain ⟨e, s₁, hrun₁, hview₁⟩ := hpstopped
  obtain ⟨e', s₂, hrun₂, hview₂⟩ := hqstopped
  rw [hrun₁, hrun₂] at hrun
  cases hrun
  have hlogs : (H.desk k).log.length = (H.desk l).log.length :=
    congrArg (fun d => d.log.length) (hview₁.symm.trans hview₂)
  omega

/-- A computation that returns leaves no note of a failed walk where there was none. -/
theorem failure_of_ok (hx : H.Traced view x) (hcall : H.Trusted call)
    (hs : (H.desk (view s)).failure = none) {a : α} {s₁ : τ}
    (hrun : (x call).run s = (.ok a, s₁)) : (H.desk (view s₁)).failure = none := by
  by_contra hne
  obtain ⟨q, hq, hfailure⟩ := hx.source hcall hs (by rw [hrun]; exact hne)
  rw [hrun] at hfailure
  have hstart := hx.calm hcall hs hq
  rcases hanswer : q.answer call with ⟨f | v, m⟩
  · obtain ⟨e, s', hstopped, -⟩ := hx.stoppedAt_of_fails hq hanswer
    rw [hrun] at hstopped
    cases hstopped
  · have hm := hcall q hstart v m hanswer
    rw [hanswer] at hfailure
    exact hne (hfailure.symm.trans hm)

/-! ## Sequences -/

/-- How a sequence goes on after a run of its first part. -/
def goOn (f : α → Step τ ε β) : Except ε α × τ → Except ε β × τ
  | (.ok a, s) => (f a).run s
  | (.error e, s) => (.error e, s)

theorem run_bind_eq_goOn (y : Step τ ε α) (f : α → Step τ ε β) (s : τ) :
    (y >>= f).run s = goOn f (y.run s) := by
  rw [Step.run_bind]
  rcases y.run s with ⟨e | a, s₁⟩ <;> rfl

/-- The calls of a sequence are those of its parts, as far as it comes. -/
theorem asks_bind_iff (hx : H.Traced view x) {f : Calling V σ → α → Step τ ε β} :
    Asks (fun call => (x call >>= f call).run s) call q ↔
      Asks (fun call => (x call).run s) call q ∨
        ∃ a s₁, (x call).run s = (.ok a, s₁) ∧ Asks (fun call => (f call a).run s₁) call q := by
  have hfirst : Asks (fun call => (x call).run s) call q →
      Asks (fun call => (x call >>= f call).run s) call q := by
    intro h
    simp only [run_bind_eq_goOn]
    exact hx.asks_of_log (g := fun call => goOn (f call)) h (fun r => (H.desk (view r.2)).log)
      fun _ _ _ => rfl
  constructor
  · intro h
    by_cases hask : Asks (fun call => (x call).run s) call q
    · exact .inl hask
    · obtain ⟨call', hsame, hne⟩ := h
      have heq := eq_of_not_asks hask hsame
      simp only [Step.run_bind] at heq hne
      rw [heq] at hne
      rcases hrun : (x call).run s with ⟨e | a, s₁⟩
      · rw [hrun] at hne
        exact absurd rfl hne
      · rw [hrun] at hne
        exact .inr ⟨a, s₁, rfl, call', hsame, hne⟩
  · rintro (h | ⟨a, s₁, hrun, h⟩)
    · exact hfirst h
    · by_cases hask : Asks (fun call => (x call).run s) call q
      · exact hfirst hask
      · obtain ⟨call', hsame, hne⟩ := h
        have heq := eq_of_not_asks hask hsame
        refine ⟨call', hsame, ?_⟩
        simp only [Step.run_bind] at heq ⊢
        rw [heq, hrun]
        exact hne

theorem bind (hx : H.Traced view x) {f : Calling V σ → α → Step τ ε β}
    (hf : ∀ a, H.Traced view fun call => f call a) :
    H.Traced view fun call => x call >>= f call where
  stops {s q call call' fault m} hsame hfails := by
    rcases hx.stops (s := s) hsame hfails with heq | ⟨e, s₁, hrun, hview⟩
    · rcases hrun : (x call).run s with ⟨e | a, s₁⟩
      · left
        rw [Step.run_bind_of_error (heq.trans hrun), Step.run_bind_of_error hrun]
      · rw [Step.run_bind_of_ok (heq.trans hrun), Step.run_bind_of_ok hrun]
        exact (hf a).stops hsame hfails
    · right
      exact ⟨e, s₁, Step.run_bind_of_error hrun, hview⟩
  calm {s call q} hcall hs h := by
    rcases hx.asks_bind_iff.mp h with h | ⟨a, s₁, hrun, h⟩
    · exact hx.calm hcall hs h
    · exact (hf a).calm hcall (hx.failure_of_ok hcall hs hrun) h
  source {s call} hcall hs hend := by
    rcases hrun : (x call).run s with ⟨e | a, s₁⟩
    · rw [Step.run_bind_of_error hrun] at hend ⊢
      obtain ⟨q, hq, hfailure⟩ := hx.source hcall hs (by rw [hrun]; exact hend)
      rw [hrun] at hfailure
      exact ⟨q, hx.asks_bind_iff.mpr (.inl hq), hfailure⟩
    · rw [Step.run_bind_of_ok hrun] at hend ⊢
      obtain ⟨q, hq, hfailure⟩ := (hf a).source hcall (hx.failure_of_ok hcall hs hrun) hend
      exact ⟨q, hx.asks_bind_iff.mpr (.inr ⟨a, s₁, hrun, hq⟩), hfailure⟩

end Host.Traced

/-! ## What is traced -/

/-- A computation without calls that leaves the note of a failed walk as it is. -/
theorem traced_const {y : Step τ ε α}
    (h : ∀ s, (H.desk (view (y.run s).2)).failure = (H.desk (view s)).failure) :
    H.Traced view fun _ => y where
  stops _ _ := .inl rfl
  calm _ _ hq := by
    obtain ⟨_, _, hne⟩ := hq
    exact absurd rfl hne
  source _ hs hend := by
    rw [h, hs] at hend
    exact absurd rfl hend

/-- A computation that makes one call and then ends, at once if the call fails. -/
theorem traced_ask (request : τ → Request V σ)
    (finish : τ → Except Fault V × σ → Except ε α × τ)
    (hrequest : ∀ s, (H.desk (request s).machine).failure = (H.desk (view s)).failure)
    (hfails : ∀ s f m, H.StoppedAt view m (finish s (.error f, m)))
    (hreturns : ∀ s v m, (H.desk (view (finish s (.ok v, m)).2)).failure = (H.desk m).failure) :
    H.Traced view fun call => Step.of fun s => finish s ((request s).answer call) where
  stops {s q call call' f m} hsame hanswer := by
    rw [Step.run_of, Step.run_of]
    by_cases hq : request s = q
    · right
      rw [hq, hanswer]
      exact hfails s f m
    · left
      rw [hsame _ hq]
  calm {s call q} _ hs h := by
    by_cases hq : request s = q
    · rw [← hq, hrequest, hs]
    · obtain ⟨call', hsame, hne⟩ := h
      simp only [Step.run_of] at hne
      rw [hsame _ hq] at hne
      exact absurd rfl hne
  source {s call} _ hs hend := by
    simp only [Step.run_of] at hend ⊢
    refine ⟨request s, ?_, ?_⟩
    · obtain ⟨m, hm⟩ := exists_longer_log H (view s)
        (H.desk (view (finish s ((request s).answer call)).2)).log.length
      refine ⟨_, sameBut_failingAt _ invalidOperation m call, fun heq => ?_⟩
      obtain ⟨e, s', hfinish, hview⟩ := hfails s invalidOperation m
      simp only [answer_failingAt, hfinish] at heq
      rw [← heq, hview] at hm
      exact lt_irrefl _ hm
    · rcases (request s).answer call with ⟨f | v, m⟩
      · obtain ⟨e, s', hfinish, hview⟩ := hfails s f m
        rw [hfinish, hview]
      · rw [hreturns]

def relabel (g : ε → ε) : Except ε α × τ → Except ε α × τ
  | (.ok a, s) => (.ok a, s)
  | (.error e, s) => (.error (g e), s)

theorem run_tryCatch_throw (y : Step τ ε α) (g : ε → ε) (s : τ) :
    Step.run (tryCatch y fun e => throw (g e)) s = relabel g (y.run s) := by
  rw [Step.run_tryCatch]
  rcases y.run s with ⟨e | a, s₁⟩ <;> rfl

theorem snd_relabel (g : ε → ε) (r : Except ε α × τ) : (relabel g r).2 = r.2 := by
  rcases r with ⟨e | a, s⟩ <;> rfl

/-- A computation whose errors are changed is still traced. -/
theorem Host.Traced.tryCatch {x : Calling V σ → Step τ ε α} (hx : H.Traced view x) (g : ε → ε) :
    H.Traced view fun call => tryCatch (x call) fun e => throw (g e) where
  stops {s q call call' f m} hsame hfails := by
    simp only [run_tryCatch_throw]
    rcases hx.stops (s := s) hsame hfails with heq | ⟨e, s', hrun, hview⟩
    · exact .inl (congrArg (relabel g) heq)
    · exact .inr ⟨g e, s', by rw [hrun]; rfl, hview⟩
  calm hcall hs h := by
    simp only [run_tryCatch_throw] at h
    exact hx.calm hcall hs h.of_comp
  source {s call} hcall hs hend := by
    simp only [run_tryCatch_throw, snd_relabel] at hend ⊢
    obtain ⟨q, hq, hfailure⟩ := hx.source hcall hs hend
    have hlog := hx.asks_of_log (g := fun _ => relabel g) hq
      (fun r : Except ε α × τ => (H.desk (view r.2)).log) fun _ _ _ => rfl
    exact ⟨q, hlog, hfailure⟩

theorem Host.Traced.ite {x y : Calling V σ → Step τ ε α} {c : Prop} [Decidable c]
    (hx : H.Traced view x) (hy : H.Traced view y) :
    H.Traced view fun call => if c then x call else y call := by
  by_cases hc : c
  · simpa only [if_pos hc] using hx
  · simpa only [if_neg hc] using hy

end Traced

/-! ## Methods of sinks -/

/-- A call of a method of a sink as it is made: the number of the sink, the method with its
arguments, and the state. -/
structure SinkCall (V σ : Type) where
  sink : Nat
  method : String
  args : List V
  machine : σ

/-- What the call writes into the sink. -/
def Host.emission? (H : Host V σ) (c : SinkCall V σ) : Option Emission :=
  match c.method with
  | "line" => (H.content c.machine c.args).toOption.map .line
  | "write" => (H.content c.machine c.args).toOption.map .raw
  | _ => none

/-- Does the call say that everything below the node is handled? -/
def SinkCall.handles (c : SinkCall V σ) : Bool :=
  c.method == "handled" && c.args.isEmpty

/-- What the call does to the sink. -/
def Host.change (H : Host V σ) (c : SinkCall V σ) (s : Sink) : Sink :=
  { s with
    emitted := s.emitted ++ (H.emission? c).toList
    handled := s.handled || c.handles }

section Methods

variable {H : Host V σ}

theorem modifySink_id (n : Nat) (d : Desk) : d.modifySink n id = d := by
  rw [Desk.modifySink, List.modify_id]

theorem modifySink_change {c : SinkCall V σ} (h : c.handles = false) (n : Nat) (d : Desk) :
    d.modifySink n (H.change c)
      = ((H.emission? c).map fun e => d.modifySink n (Sink.emit e)).getD d := by
  rcases hemission : H.emission? c with _ | e
  · have hchange : H.change c = id := by
      funext s
      simp [Host.change, hemission, h]
    rw [hchange, modifySink_id]
    rfl
  · have hchange : H.change c = Sink.emit e := by
      funext s
      simp [Host.change, hemission, h, Sink.emit]
    rw [hchange]
    rfl

/-- A step on the desk that is taken if a check succeeds. -/
theorem desk_run_checked {α β : Type} (check : Except Fault α) (g : α → Desk → Desk) (b : β)
    (m : σ) :
    H.desk (Step.run (Step.lift check >>= fun a => modify (H.modifyDesk (g a)) >>= fun _ =>
        pure b : Step σ Fault β) m).2
      = (check.toOption.map fun a => g a (H.desk m)).getD (H.desk m) := by
  cases check with
  | error f => rfl
  | ok a => exact H.desk_modifyDesk (g a) m

/-- A method of a sink changes this sink and nothing else on the desk, and one that fails changes
nothing. -/
theorem desk_run_callSink (n : Nat) (name : String) (args : List V) (m : σ) :
    H.desk ((H.callSink n name args).run m).2
      = (H.desk m).modifySink n (H.change ⟨n, name, args, m⟩) := by
  unfold Host.callSink
  simp only
  split
  · -- a line
    have hemission : H.emission? ⟨n, "line", args, m⟩
        = (H.content m args).toOption.map .line := rfl
    rw [Step.run_bind_of_ok (Step.run_get m),
      desk_run_checked (H.content m args) fun a => Desk.modifySink n (Sink.emit (.line a)),
      modifySink_change rfl, hemission, Option.map_map]
    rfl
  · -- text as it is
    have hemission : H.emission? ⟨n, "write", args, m⟩
        = (H.content m args).toOption.map .raw := rfl
    rw [Step.run_bind_of_ok (Step.run_get m),
      desk_run_checked (H.content m args) fun a => Desk.modifySink n (Sink.emit (.raw a)),
      modifySink_change rfl, hemission, Option.map_map]
    rfl
  · -- the node is handled, unless there are arguments
    rw [desk_run_checked (noMore args) fun _ =>
      Desk.modifySink n fun s => { s with handled := true }]
    cases args with
    | nil =>
        have hchange : H.change ⟨n, "handled", [], m⟩ = fun s => { s with handled := true } := by
          funext s
          simp [Host.change, Host.emission?, SinkCall.handles]
        rw [hchange]
        rfl
    | cons v vs =>
        rw [modifySink_change (by simp [SinkCall.handles])]
        rfl
  · -- there is no such method
    rename_i hline hwrite hhandled
    have hhandles : SinkCall.handles ⟨n, name, args, m⟩ = false := by
      simp [SinkCall.handles, beq_eq_false_iff_ne.mpr hhandled]
    have hemission : H.emission? ⟨n, name, args, m⟩ = none := by
      unfold Host.emission?
      split
      · exact absurd ‹_› hline
      · exact absurd ‹_› hwrite
      · rfl
    rw [modifySink_change hhandles, hemission]
    rfl

theorem traced_callSink (n : Nat) (name : String) (args : List V) :
    H.Traced id fun _ => H.callSink n name args :=
  traced_const fun m => by
    show (H.desk ((H.callSink n name args).run m).2).failure = (H.desk m).failure
    rw [desk_run_callSink]
    rfl

end Methods

end SiteConf.Template
