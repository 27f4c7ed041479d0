import SiteConf.Proofs.Lockstep
import SiteConf.Proofs.SettledTree

set_option autoImplicit false

/-! # Lines do not steer

The table of lines is there for messages. Two documents with the same tree and any two tables
settle into the same tree, and walks over the same tree with the two tables stay in lockstep when
the hooks do not read the line of a visit: every call, all text and the result are the same, up to
the lines that visits and errors carry.

What a hook reads is said by a relation `S` on the states: hooks are *blind* when visits that
differ in their lines only, in states that `S` relates, make no difference to them. On a page, `S`
relates pages with the same text, whose logs, which name lines, may differ. -/

namespace SiteConf.Writer

variable {σ : Type} {S : σ → σ → Prop}

/-! ## Hooks that do not read lines -/

/-- Lines are not told apart. -/
def anyLine : LineRef → LineRef → Prop :=
  fun _ _ => True

/-- The hooks of the registry do not read the lines of visits. -/
def Registry.LineBlind (S : σ → σ → Prop) (r : Registry σ) : Prop :=
  ∀ name, (r.writersOf name).Alike anyLine S (r.writersOf name)

/-- The note of a field may name its line, but only where `S` does not look. -/
def NoteBlind (S : σ → σ → Prop) (note : Visit → σ → σ) : Prop :=
  ∀ v v' s s', v.Alike anyLine v' → S s s' → S (note v s) (note v' s')

theorem FieldWriters.alike_empty {L : LineRef → LineRef → Prop} :
    ({} : FieldWriters σ).Alike L S {} :=
  ⟨.none, .none, .none, .none⟩

/-- It is enough to look at the bundles of a registry. -/
theorem Registry.lineBlind_of_forall_mem {r : Registry σ}
    (h : ∀ bundle ∈ r, bundle.2.Alike anyLine S bundle.2) : r.LineBlind S := by
  intro name
  rcases hget : Ordered.get? name r with _ | f
  · rw [writersOf, hget]
    exact FieldWriters.alike_empty
  · rw [writersOf, hget]
    exact h (name, f) (Ordered.mem_of_get? hget)

/-- Blind hooks do not notice the table of lines. -/
theorem Registry.LineBlind.walksAlike {r : Registry σ} {note : Visit → σ → σ}
    (hr : r.LineBlind S) (hnote : NoteBlind S note) (o o' : Origins) (t : Tree) (level : Nat)
    (path : String) {s s' : σ} (hs : S s s') :
    WalksAlike anyLine S ⟨r, o, note⟩ ⟨r, o', note⟩ t level path s s' := by
  have halike : Walker.Alike anyLine S t.fieldNames ⟨r, o, note⟩ ⟨r, o', note⟩ :=
    ⟨fun name _ => hr name, fun _ => trivial, hnote⟩
  exact walkTree_alike halike level path hs

/-! ## Pages -/

def Page.SameText (p p' : Page) : Prop :=
  p.emitter = p'.emitter

/-- What is noted of a field goes to the log. -/
theorem Page.noteBlind : NoteBlind Page.SameText Page.note :=
  fun _ _ _ _ _ h => h

theorem write_alike {r : Registry Page} (hr : r.LineBlind Page.SameText) (o o' : Origins)
    (t : Tree) : ResultAlike anyLine (write r o t).1 (write r o' t).1 := by
  have hwalks := hr.walksAlike Page.noteBlind o o' t 0 KeyPath.root (rfl : Page.SameText {} {})
  obtain ⟨hresult, hstate, -⟩ := hwalks
  rw [write, write, walk, walk]
  rcases hrun : Step.run (walkTree ⟨r, o, Page.note⟩ 0 KeyPath.root t) {} with ⟨result, page⟩
  rcases hrun' : Step.run (walkTree ⟨r, o', Page.note⟩ 0 KeyPath.root t) {} with ⟨result', page'⟩
  rw [hrun, hrun'] at hresult hstate
  cases hresult with
  | ok a =>
      have htext : page.emitter = page'.emitter := hstate
      show ResultAlike anyLine (.ok page.emitter.text) (.ok page'.emitter.text)
      rw [htext]
      exact .ok _
  | error he => exact .error he

/-! ## Both at once -/

/-- **Origins never steer.** Whatever two tables a tree comes with, it settles into the same tree.
With hooks that do not read the lines of visits, the walks over the tree make the same calls in
the same order, for the same keys, values, paths and levels and with the same answers; they end in
states that are alike, both with success or both with the same error up to its line. On a page the
text is the same. -/
theorem origins_do_not_steer (tree : Tree) (o o' : Origins) :
    (Document.settle ⟨tree, o⟩).tree = (Document.settle ⟨tree, o'⟩).tree ∧
    (∀ {σ : Type} (S : σ → σ → Prop) (r : Registry σ) (note : Visit → σ → σ),
      r.LineBlind S → NoteBlind S note → ∀ (level : Nat) (path : String) (s s' : σ), S s s' →
        WalksAlike anyLine S ⟨r, o, note⟩ ⟨r, o', note⟩ tree level path s s') ∧
    (∀ r : Registry Page, r.LineBlind Page.SameText →
      ResultAlike anyLine (write r o tree).1 (write r o' tree).1 ∧
      (Step.run (walk ⟨r, o, Page.note⟩ tree) {}).2.emitter.text
        = (Step.run (walk ⟨r, o', Page.note⟩ tree) {}).2.emitter.text) := by
  refine ⟨?_, fun S r note hr hnote level path s s' hs => ?_, fun r hr => ⟨?_, ?_⟩⟩
  · rw [Document.tree_settle, Document.tree_settle]
  · exact hr.walksAlike hnote o o' tree level path hs
  · exact write_alike hr o o' tree
  · have hwalks := hr.walksAlike Page.noteBlind o o' tree 0 KeyPath.root
      (rfl : Page.SameText {} {})
    exact congrArg Emitter.text hwalks.state

/-- A port beside servers that inherit a header. -/
def portSite : Tree :=
  .mapping [("port", .scalar (.int 80)), ("headers", .sequence [.scalar (.str "x")]),
    ("servers", .sequence [.mapping [("locations", .sequence [.mapping []])]])]

/-- A writer that emits the name of the field `port`. -/
def nameRegistry : Registry Page :=
  [("port", ⟨none, none, none, some fun v => Step.of fun page =>
    (.ok (), { page with emitter := page.emitter.line v.level v.key })⟩)]

theorem nameRegistry_lineBlind : nameRegistry.LineBlind Page.SameText := by
  refine Registry.lineBlind_of_forall_mem fun bundle hbundle => ?_
  obtain rfl := List.mem_singleton.mp hbundle
  refine ⟨.none, .none, .none, .some ?_⟩
  intro v v' page page' hv hpage
  have hemitter : page.emitter = page'.emitter := hpage
  refine ⟨rfl, ?_⟩
  show page.emitter.line v.level v.key = page'.emitter.line v'.level v'.key
  rw [hemitter, hv.level, hv.key]

/-- Both walks emit the port and miss the writer of `headers`, on different lines. -/
theorem origins_do_not_steer_portSite :
    nameRegistry.LineBlind Page.SameText ∧
      (Document.settle ⟨portSite, ⟨[]⟩⟩).tree
        = (Document.settle ⟨portSite, ⟨[(".headers", 7)]⟩⟩).tree ∧
      (write nameRegistry ⟨[]⟩ portSite).1 = .error (.noWriter ".headers" none) ∧
      (write nameRegistry ⟨[(".headers", 7)]⟩ portSite).1
        = .error (.noWriter ".headers" (some 7)) ∧
      WalksAlike anyLine Page.SameText ⟨nameRegistry, ⟨[]⟩, Page.note⟩
        ⟨nameRegistry, ⟨[(".headers", 7)]⟩, Page.note⟩ portSite 0 KeyPath.root {} {} ∧
      (Step.run (walk ⟨nameRegistry, ⟨[(".headers", 7)]⟩, Page.note⟩ portSite) {}).2.emitter.text
        = "port\n" := by
  obtain ⟨htree, hwalks, hpages⟩ := origins_do_not_steer portSite ⟨[]⟩ ⟨[(".headers", 7)]⟩
  refine ⟨nameRegistry_lineBlind, htree, by decide, by decide, ?_, ?_⟩
  · exact hwalks _ _ _ nameRegistry_lineBlind Page.noteBlind 0 KeyPath.root {} {} rfl
  · rw [← (hpages nameRegistry nameRegistry_lineBlind).2]
    decide

end SiteConf.Writer
