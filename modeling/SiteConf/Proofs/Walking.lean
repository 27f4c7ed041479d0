import SiteConf.Proofs.Loading
import SiteConf.Proofs.Nesting

set_option autoImplicit false

/-! # Walking over loaded configurations

A walk over a loaded configuration visits nodes of the tree, each with the path, the key and the
line of its node, and calls no hook twice with one path (`walk_visits`). -/

namespace SiteConf.Writer

open KeyPath

variable {σ : Type}

/-- An error that a walk may end with, when all nodes have lines: the walker has found no writer
for a node, or has wrapped what a hook has thrown; both name a line. What a hook has thrown with a
path and a line of its own is kept. -/
inductive Reported (tree : Tree) (cs : List Call) : Error → Prop where
  | missing {steps : List Tree.Step} {u : Tree} (hu : tree.at? steps = some u) (line : Nat) :
      Reported tree cs (.noWriter (ofSteps steps) (some line))
  | wrapped {c : Call} {e : Error} (hc : c ∈ cs) (he : c.answer = .error e) {line : Nat}
      (hline : c.visit.line = some line) :
      Reported tree cs (.writerFailed c.visit.path (some line) e.message)
  | kept {c : Call} (hc : c ∈ cs) {path : String} {line : LineRef} {message : String}
      (he : c.answer = .error (.writerFailed path line message)) :
      Reported tree cs (.writerFailed path line message)

section Loaded

variable {tree : Tree} {w : Walker σ}

/-- The line of a located visit is the line of its node. -/
theorem Located.exists_line {role : Role} {v : Visit} {steps : List Tree.Step}
    (h : Located w KeyPath.root tree role v steps)
    (hlines : ∀ steps u, tree.at? steps = some u →
      (w.origins.lineOf (ofSteps steps)).isSome = true) :
    v.path = ofSteps steps ∧
      ∃ line, v.line = some line ∧ w.origins.lineOf (ofSteps steps) = some line := by
  have hpath : v.path = ofSteps steps := by
    rw [h.path, KeyPath.root, String.empty_append]
  obtain ⟨line, hline⟩ := Option.isSome_iff_exists.mp (hlines steps _ h.node)
  refine ⟨hpath, line, ?_, hline⟩
  rw [h.line, hpath, hline]

/-- A failure at a located node is reported with a line. -/
theorem reported_of_follows {cs : List Call} {e : Ending} {err : Error}
    (hresult : e.result = .error err) (hfollows : e.Follows w cs)
    (hlocated : ∀ v, e.node? = some v → ∃ role steps, Located w KeyPath.root tree role v steps)
    (hlines : ∀ steps u, tree.at? steps = some u →
      (w.origins.lineOf (ofSteps steps)).isSome = true) : Reported tree cs err := by
  cases e with
  | done => cases hresult
  | missing v =>
      obtain ⟨role, steps, hv⟩ := hlocated v rfl
      obtain ⟨hpath, line, hline, -⟩ := hv.exists_line hlines
      obtain rfl := Except.error.inj hresult
      rw [hpath, hline]
      exact .missing hv.node line
  | raised v e =>
      obtain ⟨before, c, rfl, -, rfl, he⟩ := hfollows
      obtain ⟨role, steps, hv⟩ := hlocated c.visit rfl
      obtain ⟨-, line, hline, -⟩ := hv.exists_line hlines
      have hc : c ∈ before ++ [c] := by simp
      have hreport : ReportedFor c.visit e err :=
        Except.error.inj hresult ▸ reportedFor_located c.visit e
      cases hreport with
      | kept path line message => exact .kept hc he
      | wrapped =>
          rw [hline]
          exact .wrapped hc he hline

end Loaded

/-- **Every visit of a loaded configuration is addressed, made once and located.** Each call of a
hook, and each note that is taken of a field, gets a path that leads to the value it gets, and to
no other node; its key is the name of the field, for an item the name of the field that owns it;
its line is known and is that of the node. No hook is called twice with one path, and what the
walker reports names a line. -/
theorem walk_visits {c : Compiler} {name text : String} {doc : Document}
    (h : (c.load name text).result = .ok doc) (registry : Registry σ) (note : Visit → σ → σ)
    (s : σ) :
    let w : Walker σ := ⟨registry, doc.origins, note⟩
    let cs := calls w 0 KeyPath.root doc.tree s
    Step.run (walk w.watched doc.tree) (s, [])
        = ((Step.run (walk w doc.tree) s).1, (Step.run (walk w doc.tree) s).2, cs) ∧
      (∀ call ∈ cs, ∃ steps line, doc.tree.at? steps = some call.visit.value ∧
        call.visit.path = ofSteps steps ∧
        (∀ other u, doc.tree.at? other = some u → ofSteps other = call.visit.path →
          other = steps) ∧
        call.role.Names call.visit.key steps ∧ call.visit.line = some line ∧
        doc.origins.lineOf (ofSteps steps) = some line) ∧
      (cs.map Call.slot).Nodup ∧
      ∀ err, (Step.run (walk w doc.tree) s).1 = .error err → Reported doc.tree cs err := by
  intro w cs
  obtain ⟨hkeyed, hlines⟩ := Compiler.keyed_of_load h
  obtain ⟨e, hmakes, hresult, hwatched⟩ := exists_makes w KeyPath.root 0 doc.tree s
  have hin := Part.in_root doc.tree 0
  obtain ⟨hcalls, hfail⟩ := hmakes.located hkeyed hin
  refine ⟨hwatched, fun call hcall => ?_, hmakes.nodup_slots hkeyed hin, fun err herr => ?_⟩
  · obtain ⟨steps, -, hlocated⟩ := hcalls call hcall
    obtain ⟨hpath, line, hline, htable⟩ := hlocated.exists_line hlines
    refine ⟨steps, line, hlocated.node, hpath, fun other u hu hother => ?_, hlocated.names, hline,
      htable⟩
    exact hkeyed.steps_eq_of_ofSteps_eq hu hlocated.node (hother.trans hpath)
  · refine reported_of_follows (hresult.trans herr) hmakes.follows (fun v hv => ?_) hlines
    obtain ⟨role, steps, -, hlocated⟩ := hfail v hv
    exact ⟨role, steps, hlocated⟩

/-- Writers for the items of `servers` and for the field `p`. -/
def siteRegistry : Registry Unit :=
  [("servers", ⟨some .nothing, some fun _ => pure false, some fun _ => pure (), none⟩),
    ("locations", ⟨some .nothing, none, none, none⟩),
    ("p", ⟨some (.call fun _ => pure true), none, none, none⟩)]

/-- A location that the server shares, written on the second line. -/
def sharedText : String :=
  "\x7blocations: [\n\x7bp: 2\x7d], servers: [\x7b\x7d]\x7d"

def sharedSite : Document :=
  ⟨.mapping [("locations", .sequence [.mapping [("p", .scalar (.int 2))]]),
      ("servers", .sequence [.mapping []])],
    ⟨[("", 1), (".locations", 1), (".locations.0", 2), (".locations.0.p", 2), (".servers", 2),
      (".servers.0", 2)]⟩⟩

theorem load_sharedText : (Compiler.load {} "site" sharedText).result = .ok sharedSite.settle := by
  have hsource : Source.preprocessNamed [] [] "site" sharedText = .ok sharedText := by
    decide +kernel
  have hparse : (Document.parse sharedText).result = .ok sharedSite :=
    Document.result_parse_eq_ok_iff.mpr
      ⟨[⟨.lbrace, 1⟩, ⟨.ident "locations", 1⟩, ⟨.colon, 1⟩, ⟨.lbracket, 1⟩, ⟨.lbrace, 2⟩,
          ⟨.ident "p", 2⟩, ⟨.colon, 2⟩, ⟨.int 2, 2⟩, ⟨.rbrace, 2⟩, ⟨.rbracket, 2⟩, ⟨.comma, 2⟩,
          ⟨.ident "servers", 2⟩, ⟨.colon, 2⟩, ⟨.lbracket, 2⟩, ⟨.lbrace, 2⟩, ⟨.rbrace, 2⟩,
          ⟨.rbracket, 2⟩, ⟨.rbrace, 2⟩, ⟨.eof, 2⟩],
        .mapping 1 [(⟨"locations", 1⟩,
            .sequence 1 [.mapping 2 [(⟨"p", 2⟩, .constant 2 (.int 2))]]),
          (⟨"servers", 2⟩, .sequence 2 [.mapping 2 []])],
        by decide +kernel, by cbv, by cbv⟩
  exact Compiler.result_load_eq_ok_iff.mpr ⟨sharedText, sharedSite, hsource, hparse, rfl⟩

/-- The shared location is visited in the server, with the line on which it is written. -/
theorem walk_visits_sharedText :
    (Compiler.load {} "site" sharedText).result = .ok sharedSite.settle ∧
      ∃ cs : List Call,
        Step.run (walk (Walker.watched ⟨siteRegistry, sharedSite.settle.origins, fun _ s => s⟩)
          sharedSite.settle.tree) ((), []) = (.ok (), (), cs) ∧
        cs.map (fun call => (call.visit.path, call.visit.line))
          = [(".servers", some 2), (".servers.0", some 2), (".servers.0.locations", some 1),
              (".servers.0.locations.0.p", some 2), (".servers.0.locations.0.p", some 2),
              (".servers.0", some 2)] ∧
        (cs.map Call.slot).Nodup := by
  obtain ⟨hwatched, -, hnodup, -⟩ :=
    walk_visits load_sharedText siteRegistry (fun _ s => s) ()
  exact ⟨load_sharedText, _, hwatched, by decide +kernel, hnodup⟩

end SiteConf.Writer
