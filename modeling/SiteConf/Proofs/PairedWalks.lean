import SiteConf.Proofs.Fields

set_option autoImplicit false

/-! # Walks in pairs

Two walks over the same tree go through the same nodes, perhaps at different levels and below
different paths. `Walker.Paired` lists what they do at a node, and says that a relation `C` between
the computations of the two walks holds for each of these things, whenever the walks are at places
that `At` relates. Then `C` holds for the walks (`walkTree_paired`): this is the one induction over
two walks, and what relates a walk to another walk, or a walk to itself, follows from it. -/

namespace SiteConf.Writer

variable {σ σ' : Type}

/-! ## Entering a field -/

/-- Is what is inside the field written one level deeper? -/
def FieldWriters.indents (f : FieldWriters σ) : Bool :=
  match f.opening with
  | some (.call _) => true
  | _ => false

/-- Enters a field: is it handled? -/
def FieldWriters.ask (f : FieldWriters σ) (v : Visit) : Step σ Error Bool :=
  match f.opening with
  | some .nothing => pure false
  | some (.call hook) => call hook v
  | none => if v.value.isPlain then pure false else throw (.noWriter v.path v.line)

/-- The level inside a field does not depend on what its hook answers. -/
theorem enter_eq_ask (f : FieldWriters σ) (v : Visit) :
    enter f.opening v
      = f.ask v >>= fun handled => pure (handled, v.level + f.indents.toNat) := by
  unfold FieldWriters.ask FieldWriters.indents
  rcases f.opening with _ | _ | hook
  · rw [enter]
    split
    · rfl
    · rfl
  · rfl
  · rfl

theorem innerLevel_field (w : Walker σ) (v : Visit) :
    w.innerLevel .field v = v.level + (w.registry.writersOf v.key).indents.toNat := by
  unfold Walker.innerLevel FieldWriters.indents
  rcases (w.registry.writersOf v.key).opening with _ | _ | hook
  · rfl
  · rfl
  · rfl

def Walker.noting (w : Walker σ) (v : Visit) : Step σ Error Unit :=
  Step.of fun s => (.ok (), w.note v s)

theorem around_eq_ask (w : Walker σ) (v : Visit)
    (inside : Option (FieldWriters σ) → Nat → Step σ Error Unit) :
    around w v inside
      = w.noting v >>= fun _ => (w.registry.writersOf v.key).ask v >>= fun handled =>
          (if handled then pure () else inside (Ordered.get? v.key w.registry)
            (w.innerLevel .field v)) >>= fun _ =>
          callClose (w.registry.writersOf v.key).closing v := by
  rw [around_eq, bracket, comeTo, bind_assoc, innerLevel_field]
  refine bind_congr fun _ => ?_
  rw [enter_eq_ask, bind_assoc]
  rfl

theorem aroundItem_eq_call (openItem : OpenHook σ) (closeItem : Option (CloseHook σ)) (v : Visit)
    (inside : Step σ Error Unit) :
    aroundItem openItem closeItem v inside
      = call openItem v >>= fun handled =>
          (if handled then pure () else inside) >>= fun _ => callClose closeItem v := by
  unfold aroundItem
  refine bind_congr fun handled => ?_
  cases handled
  · rfl
  · rfl

/-! ## What two walks do -/

/-- At places that `At` relates, all that the two walks do to fields with the given names is
related by `C`, which sequences keep. -/
structure Walker.Paired (C : ∀ {α : Type}, Step σ Error α → Step σ' Error α → Prop)
    (At : Nat → String → Nat → String → Prop) (names : List String) (w : Walker σ)
    (w' : Walker σ') : Prop where
  pure : ∀ {α : Type} (a : α), C (pure a) (pure a)
  bind : ∀ {α β : Type} {x : Step σ Error α} {x' : Step σ' Error α} {f : α → Step σ Error β}
    {f' : α → Step σ' Error β}, C x x' → (∀ a, C (f a) (f' a)) → C (x >>= f) (x' >>= f')
  child : ∀ {l p l' p'}, At l p l' p' → ∀ key, At l (KeyPath.child p key) l' (KeyPath.child p' key)
  item : ∀ {l p l' p'}, At l p l' p' → ∀ i, At l (KeyPath.item p i) l' (KeyPath.item p' i)
  deeper : ∀ {l p l' p'}, At l p l' p' → At (l + 1) p (l' + 1) p'
  indents : ∀ key ∈ names,
    (w.registry.writersOf key).indents = (w'.registry.writersOf key).indents
  noting : ∀ key ∈ names, ∀ (t : Tree) {l p l' p'}, At l p l' p' →
    C (w.noting (w.visit key t p l)) (w'.noting (w'.visit key t p' l'))
  ask : ∀ key ∈ names, ∀ (t : Tree) {l p l' p'}, At l p l' p' →
    C ((w.registry.writersOf key).ask (w.visit key t p l))
      ((w'.registry.writersOf key).ask (w'.visit key t p' l'))
  openItem : ∀ key ∈ names, Option.Rel
    (fun hook hook' => ∀ (t : Tree) {l p l' p'}, At l p l' p' →
      C (call hook (w.visit key t p l)) (call hook' (w'.visit key t p' l')))
    (w.registry.writersOf key).openItem (w'.registry.writersOf key).openItem
  closeItem : ∀ key ∈ names, ∀ (t : Tree) {l p l' p'}, At l p l' p' →
    C (callClose (w.registry.writersOf key).closeItem (w.visit key t p l))
      (callClose (w'.registry.writersOf key).closeItem (w'.visit key t p' l'))
  closing : ∀ key ∈ names, ∀ (t : Tree) {l p l' p'}, At l p l' p' →
    C (callClose (w.registry.writersOf key).closing (w.visit key t p l))
      (callClose (w'.registry.writersOf key).closing (w'.visit key t p' l'))

section Paired

variable {C : ∀ {α : Type}, Step σ Error α → Step σ' Error α → Prop}
  {At : Nat → String → Nat → String → Prop} {names : List String} {w : Walker σ} {w' : Walker σ'}
  {l l' : Nat} {p p' : String}

theorem Walker.Paired.mono (h : w.Paired C At names w') {names' : List String}
    (hsub : ∀ name ∈ names', name ∈ names) : w.Paired C At names' w' where
  pure := h.pure
  bind := h.bind
  child := h.child
  item := h.item
  deeper := h.deeper
  indents key hkey := h.indents key (hsub key hkey)
  noting key hkey := h.noting key (hsub key hkey)
  ask key hkey := h.ask key (hsub key hkey)
  openItem key hkey := h.openItem key (hsub key hkey)
  closeItem key hkey := h.closeItem key (hsub key hkey)
  closing key hkey := h.closing key (hsub key hkey)

/-- Inside a field both walks are deeper, or none is. -/
theorem Walker.Paired.inner (h : w.Paired C At names w') {key : String} (hkey : key ∈ names)
    (t : Tree) (hat : At l p l' p') :
    At (w.innerLevel .field (w.visit key t p l)) p
      (w'.innerLevel .field (w'.visit key t p' l')) p' := by
  rw [innerLevel_field, innerLevel_field]
  show At (l + (w.registry.writersOf key).indents.toNat) p
    (l' + (w'.registry.writersOf key).indents.toNat) p'
  rw [h.indents key hkey]
  cases (w'.registry.writersOf key).indents with
  | false => exact hat
  | true => exact h.deeper hat

theorem handled_paired (h : w.Paired C At names w') {x : Step σ Error Unit}
    {x' : Step σ' Error Unit} (hx : C x x') (handled : Bool) :
    C (if handled then pure () else x) (if handled then pure () else x') := by
  cases handled with
  | true => exact h.pure ()
  | false => exact hx

theorem around_paired (h : w.Paired C At names w') {key : String} (hkey : key ∈ names) (t : Tree)
    (hat : At l p l' p') {inside : Option (FieldWriters σ) → Nat → Step σ Error Unit}
    {inside' : Option (FieldWriters σ') → Nat → Step σ' Error Unit}
    (hinside : ∀ inner inner', At inner p inner' p' →
      C (inside (Ordered.get? key w.registry) inner)
        (inside' (Ordered.get? key w'.registry) inner')) :
    C (around w (w.visit key t p l) inside) (around w' (w'.visit key t p' l') inside') := by
  rw [around_eq_ask, around_eq_ask]
  refine h.bind (h.noting key hkey t hat) fun _ => ?_
  refine h.bind (h.ask key hkey t hat) fun handled => ?_
  refine h.bind (handled_paired h ?_ handled) fun _ => h.closing key hkey t hat
  exact hinside _ _ (h.inner hkey t hat)

mutual

/-- **What relates all that two walks do relates the walks.** The recursion is that of the walk;
each part asks for the names that occur in its part of the tree. -/
theorem walkTree_paired : ∀ (t : Tree) {l l' : Nat} {p p' : String},
    w.Paired C At t.fieldNames w' → At l p l' p' → C (walkTree w l p t) (walkTree w' l' p' t)
  | .scalar v, l, l', p, p', h, hat => by
      rw [walkTree, walkTree]
      exact h.pure ()
  | .sequence items, l, l', p, p', h, hat => by
      rw [walkTree, walkTree]
      exact walkItems_paired items 0 h hat
  | .mapping fields, l, l', p, p', h, hat => by
      rw [walkTree, walkTree]
      exact walkFields_paired fields h hat

theorem walkItems_paired : ∀ (items : List Tree) (index : Nat) {l l' : Nat} {p p' : String},
    w.Paired C At (Tree.fieldNamesOfItems items) w' → At l p l' p' →
    C (walkItems w l p index items) (walkItems w' l' p' index items)
  | [], index, l, l', p, p', h, hat => by
      rw [walkItems, walkItems]
      exact h.pure ()
  | t :: ts, index, l, l', p, p', h, hat => by
      rw [walkItems, walkItems]
      rw [Tree.fieldNamesOfItems] at h
      have ht := h.mono fun name hname => List.mem_append_left _ hname
      have hts := h.mono fun name hname => List.mem_append_right _ hname
      exact h.bind (walkTree_paired t ht (h.item hat index)) fun _ =>
        walkItems_paired ts (index + 1) hts hat

theorem walkFields_paired : ∀ (fields : List (String × Tree)) {l l' : Nat} {p p' : String},
    w.Paired C At (Tree.fieldNamesOfFields fields) w' → At l p l' p' →
    C (walkFields w l p fields) (walkFields w' l' p' fields)
  | [], l, l', p, p', h, hat => by
      rw [walkFields, walkFields]
      exact h.pure ()
  | (key, t) :: rest, l, l', p, p', h, hat => by
      rw [walkFields, walkFields]
      rw [Tree.fieldNamesOfFields] at h
      have ht := h.mono fun name hname => List.mem_append_left _ hname
      have hrest := h.mono fun name hname => List.mem_append_right _ hname
      exact h.bind (visitField_paired t key ht (h.child hat key)) fun _ =>
        walkFields_paired rest hrest hat

theorem visitField_paired : ∀ (t : Tree) (key : String) {l l' : Nat} {p p' : String},
    w.Paired C At (key :: t.fieldNames) w' → At l p l' p' →
    C (visitField w l p key t) (visitField w' l' p' key t)
  | .scalar v, key, l, l', p, p', h, hat => by
      rw [visitField, visitField]
      exact around_paired h List.mem_cons_self _ hat fun inner inner' hinner => h.pure ()
  | .mapping fields, key, l, l', p, p', h, hat => by
      rw [visitField, visitField]
      have hfields := h.mono fun name hname => List.mem_cons_of_mem key hname
      exact around_paired h List.mem_cons_self _ hat fun inner inner' hinner =>
        walkFields_paired fields hfields hinner
  | .sequence items, key, l, l', p, p', h, hat => by
      rw [visitField, visitField]
      have hitems := h.mono fun name hname => List.mem_cons_of_mem key hname
      refine around_paired h List.mem_cons_self _ hat fun inner inner' hinner => ?_
      simp only [Registry.bind_openItem, Registry.bind_closeItem]
      -- both fields have a hook for their items, or none has
      have hopens := h.openItem key List.mem_cons_self
      rcases hopen : (w.registry.writersOf key).openItem with _ | openItem <;>
        rcases hopen' : (w'.registry.writersOf key).openItem with _ | openItem' <;>
        rw [hopen, hopen'] at hopens
      · exact walkItems_paired items 0 hitems hinner
      · cases hopens
      · cases hopens
      · cases hopens with
        | some hopens =>
            exact visitItems_paired items (fun t {_ _ _ _} => hopens t)
              (fun t {_ _ _ _} => h.closeItem key List.mem_cons_self t) 0 hitems hinner

theorem visitItems_paired : ∀ (items : List Tree) {key : String} {openItem : OpenHook σ}
    {openItem' : OpenHook σ'} {closeItem : Option (CloseHook σ)}
    {closeItem' : Option (CloseHook σ')}
    (_ : ∀ (t : Tree) {l p l' p'}, At l p l' p' →
      C (call openItem (w.visit key t p l)) (call openItem' (w'.visit key t p' l')))
    (_ : ∀ (t : Tree) {l p l' p'}, At l p l' p' →
      C (callClose closeItem (w.visit key t p l)) (callClose closeItem' (w'.visit key t p' l')))
    (index : Nat) {l l' : Nat} {p p' : String},
    w.Paired C At (Tree.fieldNamesOfItems items) w' → At l p l' p' →
    C (visitItems w openItem closeItem l p key index items)
      (visitItems w' openItem' closeItem' l' p' key index items)
  | [], key, openItem, openItem', closeItem, closeItem', hopen, hclose, index, l, l', p, p', h,
      hat => by
      rw [visitItems, visitItems]
      exact h.pure ()
  | t :: ts, key, openItem, openItem', closeItem, closeItem', hopen, hclose, index, l, l', p, p',
      h, hat => by
      rw [visitItems, visitItems, aroundItem_eq_call, aroundItem_eq_call]
      rw [Tree.fieldNamesOfItems] at h
      have ht := h.mono fun name hname => List.mem_append_left _ hname
      have hts := h.mono fun name hname => List.mem_append_right _ hname
      have hhere := h.item hat index
      refine h.bind ?_ fun _ => visitItems_paired ts hopen hclose (index + 1) hts hat
      refine h.bind (hopen t hhere) fun handled => ?_
      refine h.bind (handled_paired h ?_ handled) fun _ => hclose t hhere
      exact walkTree_paired t ht (h.deeper hhere)

end

end Paired

/-! ## Walks at the same places -/

/-- The two walks are at the same level and path. -/
def SamePlace (l : Nat) (p : String) (l' : Nat) (p' : String) : Prop :=
  l = l' ∧ p = p'

section SamePlace

variable {l l' : Nat} {p p' : String}

theorem SamePlace.child (h : SamePlace l p l' p') (key : String) :
    SamePlace l (KeyPath.child p key) l' (KeyPath.child p' key) :=
  ⟨h.1, by rw [h.2]⟩

theorem SamePlace.item (h : SamePlace l p l' p') (i : Nat) :
    SamePlace l (KeyPath.item p i) l' (KeyPath.item p' i) :=
  ⟨h.1, by rw [h.2]⟩

theorem SamePlace.deeper (h : SamePlace l p l' p') : SamePlace (l + 1) p (l' + 1) p' :=
  ⟨by rw [h.1], h.2⟩

end SamePlace

end SiteConf.Writer
