import SiteConf.Proofs.Fields
import SiteConf.Proofs.Replay
import SiteConf.Proofs.Visits

set_option autoImplicit false

/-! # Where a walk fails

A walk comes to a field if all hooks that open what the field sits in have answered that something
is left to do. Of a field that has no opening writer and is neither a text nor an integer it then
says that the writer is missing.

A walk whose hooks succeed fails exactly when there is such a field, and it reports the first one;
else it reports what a hook has thrown (`walk_fails_at_first_unwritten`). -/

namespace SiteConf.Writer

open KeyPath

variable {σ : Type}

/-! ## Fields that a walk comes to -/

/-- What is inside the node is left to the walk: it is a field whose opening does nothing, or a text
or an integer without a writer, or the hook that opens it has said so. -/
inductive Unhandled (w : Walker σ) (cs : List Call) : Role → Visit → Prop where
  | nothing {v : Visit} (h : (w.registry.writersOf v.key).opening = some .nothing) :
      Unhandled w cs .field v
  | plain {v : Visit} (h : (w.registry.writersOf v.key).opening = none)
      (hplain : v.value.isPlain = true) : Unhandled w cs .field v
  | called {role : Role} {v : Visit} (h : ⟨role, .opening, v, .ok false⟩ ∈ cs) :
      Unhandled w cs role v

/-- The walk that makes the calls comes to the field. -/
def FieldSpot.Reached (w : Walker σ) (cs : List Call) (f : FieldSpot) : Prop :=
  ∀ n ∈ f.trail, Unhandled w cs n.1 n.2

/-- The field has an opening writer, or it is a text or an integer. -/
def FieldSpot.Provided (w : Walker σ) (f : FieldSpot) : Prop :=
  (w.registry.writersOf f.visit.key).opening.isSome = true ∨
    (∃ text, f.visit.value = .scalar (.str text)) ∨ ∃ n, f.visit.value = .scalar (.int n)

/-- The walk comes to the field and needs a writer that is missing. -/
structure FieldSpot.Unwritten (w : Walker σ) (cs : List Call) (f : FieldSpot) : Prop where
  reached : f.Reached w cs
  missing : ¬ f.Provided w

/-- The first of the fields whose writer is missing. -/
def FirstUnwritten (w : Walker σ) (cs : List Call) (fs : List FieldSpot) (f : FieldSpot) : Prop :=
  ∃ before after, fs = before ++ f :: after ∧ (∀ g ∈ before, ¬ g.Unwritten w cs) ∧
    f.Unwritten w cs

theorem isPlain_iff {t : Tree} :
    t.isPlain = true ↔ (∃ text, t = .scalar (.str text)) ∨ ∃ n, t = .scalar (.int n) := by
  rcases t with (text | n | b) | items | fields <;> simp [Tree.isPlain]

theorem FieldSpot.provided_iff {w : Walker σ} {f : FieldSpot} :
    f.Provided w ↔
      ((w.registry.writersOf f.visit.key).opening = none → f.visit.value.isPlain = true) := by
  rw [FieldSpot.Provided, ← isPlain_iff]
  rcases (w.registry.writersOf f.visit.key).opening with _ | opening <;> simp

/-! ## Lists of fields that fit an ending -/

section Fits

variable {w : Walker σ} {cs : List Call} {e : Ending} {fs gs : List FieldSpot} {f : FieldSpot}

theorem FirstUnwritten.mem (h : FirstUnwritten w cs fs f) : f ∈ fs := by
  obtain ⟨before, after, rfl, -, -⟩ := h
  simp

theorem FirstUnwritten.append (h : FirstUnwritten w cs fs f) (gs : List FieldSpot) :
    FirstUnwritten w cs (fs ++ gs) f := by
  obtain ⟨before, after, rfl, hbefore, hf⟩ := h
  exact ⟨before, after ++ gs, by simp, hbefore, hf⟩

theorem FirstUnwritten.of_append (hfs : ∀ g ∈ fs, ¬ g.Unwritten w cs)
    (h : FirstUnwritten w cs gs f) : FirstUnwritten w cs (fs ++ gs) f := by
  obtain ⟨before, after, rfl, hbefore, hf⟩ := h
  exact ⟨fs ++ before, after, by simp, List.forall_mem_append.mpr ⟨hfs, hbefore⟩, hf⟩

/-- Of the fields none lacks a writer, or the walk ends at the first one that does. -/
def Ending.Fits (w : Walker σ) (cs : List Call) (e : Ending) (fs : List FieldSpot) : Prop :=
  (∀ f ∈ fs, ¬ f.Unwritten w cs) ∨ ∃ f, FirstUnwritten w cs fs f ∧ e = .missing f.visit

theorem Ending.Fits.append (hfs : e.Fits w cs fs) (hgs : e.Fits w cs gs) :
    e.Fits w cs (fs ++ gs) := by
  rcases hfs with hfs | ⟨f, hf, he⟩
  · rcases hgs with hgs | ⟨g, hg, he⟩
    · exact .inl (List.forall_mem_append.mpr ⟨hfs, hgs⟩)
    · exact .inr ⟨g, hg.of_append hfs, he⟩
  · exact .inr ⟨f, hf.append gs, he⟩

/-- Behind a field that lacks a writer there may be any fields. -/
theorem Ending.Fits.append_any (hfs : e.Fits w cs fs) (hf : ∃ f ∈ fs, f.Unwritten w cs)
    (gs : List FieldSpot) : e.Fits w cs (fs ++ gs) := by
  rcases hfs with hfs | ⟨f, hfirst, he⟩
  · obtain ⟨f, hmem, hf⟩ := hf
    exact absurd hf (hfs f hmem)
  · exact .inr ⟨f, hfirst.append gs, he⟩

end Fits

/-! ## Insides that a walk has gone through -/

/-- The level at which a walk writes the inside of a node it has opened. -/
theorem Opened.inner_eq {w : Walker σ} {role : Role} {v : Visit} {os : List Call} {handled : Bool}
    {inner : Nat} (h : Opened w role v os (.ok (handled, inner))) :
    inner = w.innerLevel role v := by
  cases h with
  | nothing h => simp [Walker.innerLevel, h]
  | plain h => simp [Walker.innerLevel, h]
  | called h =>
      cases role with
      | item => rfl
      | field =>
          obtain ⟨hook, hhook⟩ := h
          simp [Walker.innerLevel, hhook]

/-- A part of the walk, with calls among `cs` and with its ending unless it goes through, is the
inside of a node. -/
def Walked (w : Walker σ) (base : String) (cs : List Call) (e : Ending) (owner : Option String)
    (level : Nat) (path : String) (t : Tree) : Prop :=
  ∃ steps cs' e', base ++ ofSteps steps = path ∧
    Makes w base (.through owner level steps t.children) cs' e' ∧ cs' ⊆ cs ∧
    (e' = .done ∨ e' = e)

theorem Walked.mono {w : Walker σ} {base path : String} {cs cs' : List Call} {e e' : Ending}
    {owner : Option String} {level : Nat} {t : Tree} (h : Walked w base cs e owner level path t)
    (hcs : cs ⊆ cs') (he : e = .done ∨ e = e') : Walked w base cs' e' owner level path t := by
  obtain ⟨steps, ds, e'', hpath, hmakes, hds, he''⟩ := h
  refine ⟨steps, ds, e'', hpath, hmakes, List.Subset.trans hds hcs, ?_⟩
  rcases he'' with rfl | rfl
  · exact .inl rfl
  · exact he

section Opened

variable {w : Walker σ} {role : Role} {v : Visit} {os cs : List Call} {inner : Nat}

/-- Only a node that is opened and not handled has a call that says so. -/
theorem Opened.of_unhandled {r : Except Ending (Bool × Nat)} (h : Opened w role v os r)
    {role' : Role} {u : Visit} (hc : ⟨role', .opening, u, .ok false⟩ ∈ os) :
    role' = role ∧ u = v ∧ r = .ok (false, w.innerLevel role v) := by
  obtain ⟨hrole, -, hvisit⟩ := h.of_mem hc
  refine ⟨hrole, hvisit, ?_⟩
  have hentered : ⟨role', .opening, u, .ok false⟩ ∉ entered role v := by
    intro hmem
    cases (of_mem_entered hmem).2.1
  cases h with
  | nothing | plain | missing => exact absurd hc hentered
  | called hopens handled =>
      rcases List.mem_append.mp hc with hc | hc
      · exact absurd hc hentered
      · cases List.mem_singleton.mp hc
        rw [(Opened.called hopens false).inner_eq]
  | failed _ err =>
      rcases List.mem_append.mp hc with hc | hc
      · exact absurd hc hentered
      · simp at hc

theorem Opened.unhandled (h : Opened w role v os (.ok (false, inner))) (hos : os ⊆ cs) :
    Unhandled w cs role v := by
  cases h with
  | nothing h => exact .nothing h
  | plain h hplain => exact .plain h hplain
  | called => exact .called (hos (by simp))

theorem unhandled_append {trail : List (Role × Visit)}
    (htrail : ∀ n ∈ trail, Unhandled w cs n.1 n.2) (h : Unhandled w cs role v) :
    ∀ n ∈ trail ++ [(role, v)], Unhandled w cs n.1 n.2 := by
  intro n hn
  rcases List.mem_append.mp hn with hn | hn
  · exact htrail n hn
  · obtain rfl := List.mem_singleton.mp hn
    exact h

/-- A node that is handled has been opened by a hook. -/
theorem Opened.of_handled (h : Opened w role v os (.ok (true, inner)))
    (hunhandled : Unhandled w cs role v) : ⟨role, .opening, v, .ok false⟩ ∈ cs := by
  cases h with
  | called hopens =>
      cases hunhandled with
      | nothing hnothing =>
          obtain ⟨hook, hhook⟩ := hopens
          rw [hnothing] at hhook
          cases hhook
      | plain hnone =>
          obtain ⟨hook, hhook⟩ := hopens
          rw [hnone] at hhook
          cases hhook
      | called hcall => exact hcall

theorem unwritten_of_missing {trail : List (Role × Visit)}
    (htrail : ∀ n ∈ trail, Unhandled w cs n.1 n.2)
    (hnone : (w.registry.writersOf v.key).opening = none) (hplain : v.value.isPlain = false) :
    FieldSpot.Unwritten w cs ⟨v, trail⟩ := by
  refine ⟨htrail, fun hprovided => ?_⟩
  cases (FieldSpot.provided_iff.mp hprovided hnone).symm.trans hplain

/-- A field that is opened lacks no writer. -/
theorem Opened.not_unwritten {a : Bool × Nat} (h : Opened w role v os (.ok a))
    (trail : List (Role × Visit)) : ∀ f ∈ fieldAt trail role v, ¬ f.Unwritten w cs := by
  intro f hf hunwritten
  cases role with
  | item => cases hf
  | field =>
      obtain rfl := List.mem_singleton.mp hf
      apply hunwritten.missing
      rw [FieldSpot.provided_iff]
      intro hnone
      cases h with
      | nothing h => cases h.symm.trans hnone
      | plain _ hplain => exact hplain
      | called h =>
          obtain ⟨hook, hhook⟩ := h
          cases hhook.symm.trans hnone

end Opened

section Makes

variable {w : Walker σ} {base : String} {p : Part} {cs cs' : List Call} {e e' : Ending}

/-- **Where a hook has left the inside of a node to the walk, the walk has gone through it**, as far
as it came. -/
theorem Makes.walked (h : Makes w base p cs e) {role : Role} {v : Visit}
    (hc : ⟨role, .opening, v, .ok false⟩ ∈ cs) :
    Walked w base cs e (ownerIn w role v.key) (w.innerLevel role v) v.path v.value := by
  induction h with
  | nil => cases hc
  | stop _ _ ih => exact ih hc
  | next _ _ ihchild ihrest =>
      rcases List.mem_append.mp hc with hc | hc
      · exact (ihchild hc).mono (List.subset_append_left _ _) (.inl rfl)
      · exact (ihrest hc).mono (List.subset_append_right _ _) (.inr rfl)
  | pass _ _ ih => exact ih hc
  | refused _ hopen => cases (hopen.of_unhandled hc).2.2
  | broken hrole hopen hinside _ ih =>
      -- the call opens this node, or it is made inside
      rcases List.mem_append.mp hc with hc | hc
      · obtain ⟨rfl, rfl, hr⟩ := hopen.of_unhandled hc
        cases hr
        exact ⟨_, _, _, rfl, hinside, List.subset_append_right _ _, .inr rfl⟩
      · exact (ih hc).mono (List.subset_append_right _ _) (.inr rfl)
  | closed hrole hopen hinside hclose ih =>
      rcases List.mem_append.mp hc with hc | hc
      · rcases List.mem_append.mp hc with hc | hc
        · obtain ⟨rfl, rfl, hr⟩ := hopen.of_unhandled hc
          cases hr
          refine ⟨_, _, _, rfl, hinside, ?_, .inl rfl⟩
          exact List.Subset.trans (List.subset_append_right _ _) (List.subset_append_left _ _)
        · refine (ih hc).mono ?_ (.inl rfl)
          exact List.Subset.trans (List.subset_append_right _ _) (List.subset_append_left _ _)
      · cases (hclose.of_mem hc).2.1

/-- A part that ends at a field without a writer holds such a field. -/
theorem Makes.exists_unwritten (h : Makes w base p cs' e') {u : Visit} (he : e' = .missing u)
    (hcs : cs' ⊆ cs) {trail : List (Role × Visit)}
    (htrail : ∀ n ∈ trail, Unhandled w cs n.1 n.2) :
    ∃ f ∈ p.fields w base trail, f.Unwritten w cs := by
  induction h generalizing trail with
  | nil => cases he
  | stop _ _ ih =>
      obtain ⟨f, hf, hunwritten⟩ := ih he hcs htrail
      exact ⟨f, List.mem_append_left _ hf, hunwritten⟩
  | next _ _ _ ihrest =>
      obtain ⟨f, hf, hunwritten⟩ := ihrest he (List.append_subset.mp hcs).2 htrail
      exact ⟨f, List.mem_append_right _ hf, hunwritten⟩
  | pass hrole _ ih =>
      rw [Part.fields_one_of_none hrole]
      exact ih he hcs htrail
  | refused hrole hopen =>
      rw [Part.fields_one_of_some hrole rfl]
      cases hopen with
      | failed => cases he
      | missing hnone hplain =>
          exact ⟨⟨_, trail⟩, List.mem_append_left _ (List.mem_singleton.mpr rfl),
            unwritten_of_missing htrail hnone hplain⟩
  | @broken _ _ _ _ _ role _ handled _ _ _ _ hrole hopen hinside _ ih =>
      -- a node that is handled has nothing inside at which the walk could end
      cases handled with
      | true =>
          cases hinside
          cases he
      | false =>
          obtain ⟨hos, hbody⟩ := List.append_subset.mp hcs
          have hhere := hopen.unhandled hos
          obtain ⟨f, hf, hunwritten⟩ := ih he hbody (unhandled_append htrail hhere)
          rw [Part.fields_one_of_some hrole rfl, ← hopen.inner_eq]
          exact ⟨f, List.mem_append_right _ hf, hunwritten⟩
  | closed _ _ _ hclose =>
      cases hclose with
      | nothing | called | failed => cases he

end Makes

/-! ## The whole walk -/

/-- The calls, none of which fails, and the ending are those of a whole walk. -/
structure Whole (w : Walker σ) (base : String) (cs : List Call) (e : Ending) : Prop where
  walked : ∀ {role : Role} {v : Visit}, ⟨role, .opening, v, .ok false⟩ ∈ cs →
    Walked w base cs e (ownerIn w role v.key) (w.innerLevel role v) v.path v.value
  not_raised : ∀ v err, e ≠ .raised v err

/-- Wherever the tree is the inside of a node, the fields in it fit the ending, if the walk has gone
through the inside. -/
def InsideFits (w : Walker σ) (base : String) (cs : List Call) (e : Ending) (t : Tree) : Prop :=
  ∀ trail owner level path, (∀ n ∈ trail, Unhandled w cs n.1 n.2) →
    Walked w base cs e owner level path t → e.Fits w cs (fieldsIn w trail owner level path t)

section Whole

variable {w : Walker σ} {base : String} {cs cs' : List Call} {e e' : Ending}
  {owner : Option String} {level : Nat} {steps : List Tree.Step} {step : Tree.Step} {t : Tree}
  {trail : List (Role × Visit)}

/-- A node that was opened. When it was handled and yet a call says that it was not, there is
another node with this visit, and the walk has gone through the inside of that one. -/
theorem Opened.fits (hwhole : Whole w base cs e) {role : Role} {v : Visit} {os : List Call}
    {handled : Bool} {inner : Nat} (hopen : Opened w role v os (.ok (handled, inner)))
    (hbody : handled = false → Walked w base cs e (ownerIn w role v.key) inner v.path v.value)
    (hinside : InsideFits w base cs e v.value)
    (htrail : ∀ n ∈ trail, Unhandled w cs n.1 n.2) :
    e.Fits w cs (fieldAt trail role v
      ++ fieldsIn w (trail ++ [(role, v)]) (ownerIn w role v.key) (w.innerLevel role v) v.path
        v.value) := by
  refine Ending.Fits.append (.inl (hopen.not_unwritten trail)) ?_
  by_cases hunhandled : Unhandled w cs role v
  · apply hinside _ _ _ _ (unhandled_append htrail hunhandled)
    cases handled with
    | false =>
        rw [← hopen.inner_eq]
        exact hbody rfl
    | true => exact hwhole.walked (hopen.of_handled hunhandled)
  · -- the walk comes to nothing that sits in the node
    refine .inl fun f hf hunwritten => hunhandled ?_
    have hsits : (role, v) ∈ f.trail := (of_mem_fieldsIn _ hf).1.subset (by simp)
    exact hunwritten.reached (role, v) hsits

theorem Makes.fits_one (hwhole : Whole w base cs e)
    (h : Makes w base (.one owner level steps step t) cs' e') (hcs : cs' ⊆ cs)
    (he : e' = .done ∨ e' = e) (hinside : InsideFits w base cs e t)
    (htrail : ∀ n ∈ trail, Unhandled w cs n.1 n.2) :
    e.Fits w cs ((Part.one owner level steps step t).fields w base trail) := by
  cases h with
  | pass hrole hmakes =>
      rw [Part.fields_one_of_none hrole, Part.fields, ← fieldsIn_eq]
      exact hinside _ _ _ _ htrail ⟨_, _, _, rfl, hmakes, hcs, he⟩
  | refused hrole hopen =>
      rw [Part.fields_one_of_some hrole rfl]
      cases hopen with
      | missing hnone hplain =>
          -- the walk ends here, so this is the first field that lacks a writer
          rcases he with he | he
          · cases he
          · have hunwritten := unwritten_of_missing htrail hnone hplain
            exact .inr ⟨_, ⟨[], _, rfl, List.forall_mem_nil _, hunwritten⟩, he.symm⟩
      | failed _ err =>
          rcases he with he | he
          · cases he
          · exact absurd he.symm (hwhole.not_raised _ _)
  | broken hrole hopen hmakes hne =>
      rw [Part.fields_one_of_some hrole rfl, Part.fields, ← fieldsIn_eq]
      refine hopen.fits hwhole ?_ hinside htrail
      rintro rfl
      exact ⟨_, _, _, rfl, hmakes, (List.append_subset.mp hcs).2, he⟩
  | closed hrole hopen hmakes hclose =>
      rw [Part.fields_one_of_some hrole rfl, Part.fields, ← fieldsIn_eq]
      refine hopen.fits hwhole ?_ hinside htrail
      rintro rfl
      have hleft := (List.append_subset.mp hcs).1
      exact ⟨_, _, _, rfl, hmakes, (List.append_subset.mp hleft).2, .inl rfl⟩

theorem Makes.fits_through (hwhole : Whole w base cs e) {children : List (Tree.Step × Tree)}
    (h : Makes w base (.through owner level steps children) cs' e') (hcs : cs' ⊆ cs)
    (he : e' = .done ∨ e' = e) (hinside : ∀ c ∈ children, InsideFits w base cs e c.2)
    (htrail : ∀ n ∈ trail, Unhandled w cs n.1 n.2) :
    e.Fits w cs ((Part.through owner level steps children).fields w base trail) := by
  induction children generalizing cs' with
  | nil => exact .inl (List.forall_mem_nil _)
  | cons child rest ih =>
      obtain ⟨hchild, hrest⟩ := List.forall_mem_cons.mp hinside
      cases h with
      | stop hmakes hne =>
          have hfits := hmakes.fits_one hwhole hcs he hchild htrail
          -- the walk ends in this child, so what comes behind it does not matter
          have hmissing : ∃ u, e' = .missing u := by
            rcases he with rfl | rfl
            · exact absurd rfl hne
            · cases e' with
              | done => exact absurd rfl hne
              | missing u => exact ⟨u, rfl⟩
              | raised v err => exact absurd rfl (hwhole.not_raised v err)
          obtain ⟨u, hu⟩ := hmissing
          exact hfits.append_any (hmakes.exists_unwritten hu hcs htrail) _
      | next hmakes hmakes' =>
          obtain ⟨hleft, hright⟩ := List.append_subset.mp hcs
          exact (hmakes.fits_one hwhole hleft (.inl rfl) hchild htrail).append
            (ih hmakes' hright hrest)

theorem Whole.insideFits (hwhole : Whole w base cs e) (t : Tree) : InsideFits w base cs e t := by
  induction t using Tree.children_induction with
  | h t ih =>
      rintro trail owner level path htrail ⟨steps, cs', e', rfl, hmakes, hcs, he⟩
      rw [fieldsIn_eq]
      exact hmakes.fits_through hwhole hcs he ih htrail

/-- A walk none of whose hooks fails goes through if no field lacks a writer, and else ends at the
first one that does. -/
theorem Makes.done_or_first (h : Makes w base (.through none level [] t.children) cs e)
    (hraised : ∀ v err, e ≠ .raised v err) :
    (e = .done ∧ ∀ f ∈ fieldsIn w [] none level base t, ¬ f.Unwritten w cs) ∨
      ∃ f, FirstUnwritten w cs (fieldsIn w [] none level base t) f ∧ e = .missing f.visit := by
  have hbase : base ++ ofSteps [] = base := String.append_empty
  have hfits := Whole.insideFits ⟨h.walked, hraised⟩ t [] none level base (List.forall_mem_nil _)
    ⟨[], cs, e, hbase, h, List.Subset.refl cs, .inr rfl⟩
  cases e with
  | done =>
      rcases hfits with hnone | ⟨f, -, he⟩
      · exact .inl ⟨rfl, hnone⟩
      · cases he
  | missing u =>
      refine .inr (hfits.resolve_left fun hnone => ?_)
      obtain ⟨f, hf, hunwritten⟩ :=
        h.exists_unwritten rfl (List.Subset.refl cs) (List.forall_mem_nil _)
      rw [Part.fields, hbase, ← fieldsIn_eq] at hf
      exact hnone f hf hunwritten
  | raised v err => exact absurd rfl (hraised v err)

/-- The error that a walk reports for a field without a writer. -/
def Walker.missingError (w : Walker σ) (f : FieldSpot) : Error :=
  .noWriter f.visit.path (w.origins.lineOf f.visit.path)

theorem Makes.result_of_succeeds (h : Makes w base (.through none level [] t.children) cs e)
    (hsucceeds : ∀ c ∈ cs, c.Succeeds) :
    (e.result = .ok () ∧ ∀ f ∈ fieldsIn w [] none level base t, ¬ f.Unwritten w cs) ∨
      ∃ f, FirstUnwritten w cs (fieldsIn w [] none level base t) f ∧
        e.result = .error (w.missingError f) := by
  have hraised : ∀ v err, e ≠ .raised v err := by
    rintro v err rfl
    obtain ⟨before, c, rfl, -, -, hanswer⟩ := h.follows
    obtain ⟨handled, hhandled⟩ := hsucceeds c (by simp)
    cases hhandled.symm.trans hanswer
  rcases h.done_or_first hraised with ⟨rfl, hnone⟩ | ⟨f, hfirst, rfl⟩
  · exact .inl ⟨rfl, hnone⟩
  · refine .inr ⟨f, hfirst, ?_⟩
    rw [Ending.result, (of_mem_fieldsIn t hfirst.mem).2, Walker.missingError]

end Whole

/-! ## What a walk reports -/

/-- The error is the report of the failure of the last call. -/
def LastFailed (cs : List Call) (err : Error) : Prop :=
  ∃ before c e, cs = before ++ [c] ∧ (∀ x ∈ before, x.Succeeds) ∧ c.answer = .error e ∧
    ReportedFor c.visit e err

theorem Ending.Follows.succeeds_or_failed {w : Walker σ} {cs : List Call} {e : Ending}
    {err : Error} (h : e.Follows w cs) (herr : e.result = .error err) :
    (∀ c ∈ cs, c.Succeeds) ∨ LastFailed cs err := by
  cases e with
  | done => cases herr
  | missing u => exact .inl h.1
  | raised v e =>
      obtain ⟨before, c, hcs, hbefore, rfl, hanswer⟩ := h
      obtain rfl := Except.error.inj herr
      exact .inr ⟨before, c, e, hcs, hbefore, hanswer, reportedFor_located c.visit e⟩

/-- **A walk fails where a writer is missing, or a hook fails, and says so.** It leaves the state
that its calls leave, and no more. If no hook fails, it goes through exactly if all fields that it
comes to are provided for, and else it names the first one, of all fields in document order, that
is not. In general it ends in this way, or it reports the failure of the last call, for the node
of that call. -/
theorem walk_fails_at_first_unwritten (w : Walker σ) (level : Nat) (path : String) (t : Tree)
    (s : σ) :
    let cs := calls w level path t s
    let fields := fieldsIn w [] none level path t
    let result := (Step.run (walkTree w level path t) s).1
    let state := (Step.run (walkTree w level path t) s).2
    Step.run (walkTree w.watched level path t) (s, []) = (result, state, cs) ∧
      state = replay w cs s ∧ fields.map (fun f => f.visit.key) = t.fieldNames ∧
      ((∀ c ∈ cs, c.Succeeds) →
        (result = .ok () ↔ ∀ f ∈ fields, f.Reached w cs → f.Provided w) ∧
        ∀ err, result = .error err →
          ∃ f, FirstUnwritten w cs fields f ∧ err = w.missingError f) ∧
      ∀ err, result = .error err →
        ((∀ c ∈ cs, c.Succeeds) ∧ ∃ f, FirstUnwritten w cs fields f ∧ err = w.missingError f) ∨
          LastFailed cs err := by
  intro cs fields result state
  obtain ⟨e, hmakes, hresult, hwatched⟩ := exists_makes w path level t s
  have hsucceeding : (∀ c ∈ cs, c.Succeeds) →
      (result = .ok () ↔ ∀ f ∈ fields, f.Reached w cs → f.Provided w) ∧
        ∀ err, result = .error err →
          ∃ f, FirstUnwritten w cs fields f ∧ err = w.missingError f := by
    intro hsucceeds
    rcases hmakes.result_of_succeeds hsucceeds with ⟨hok, hnone⟩ | ⟨f, hfirst, herror⟩
    · have hthis : result = .ok () := hresult.symm.trans hok
      refine ⟨⟨fun _ f hf hreached => ?_, fun _ => hthis⟩, fun err herr => ?_⟩
      · by_contra hmissing
        exact hnone f hf ⟨hreached, hmissing⟩
      · cases hthis.symm.trans herr
    · have hthis : result = .error (w.missingError f) := hresult.symm.trans herror
      refine ⟨⟨fun hok => ?_, fun hprovided => ?_⟩, fun err herr => ?_⟩
      · cases hthis.symm.trans hok
      · have hmem := hfirst.mem
        obtain ⟨-, -, -, -, hreached, hmissing⟩ := hfirst
        exact absurd (hprovided f hmem hreached) hmissing
      · exact ⟨f, hfirst, Except.error.inj (herr.symm.trans hthis)⟩
  refine ⟨hwatched, run_walkTree_eq_replay w level path t s,
    map_key_fieldsIn w t [] none level path, hsucceeding, fun err herr => ?_⟩
  rcases hmakes.follows.succeeds_or_failed (hresult.trans herr) with hsucceeds | hfailed
  · exact .inl ⟨hsucceeds, (hsucceeding hsucceeds).2 err herr⟩
  · exact .inr hfailed

/-- A walk over sites of servers. What is under `notes` is handled, and so is not looked at; the
items of `servers` are opened and left to the walk; of `tls` the writers are given. -/
def tlsWalker (tls : FieldWriters (List String)) : Walker (List String) where
  registry :=
    [("notes", ⟨some (.call fun v => Step.of fun s => (.ok true, s ++ [v.path])), none, none,
        none⟩),
      ("servers", ⟨some .nothing, some fun v => Step.of fun s => (.ok false, s ++ [v.path]), none,
        none⟩),
      ("tls", tls)]
  origins := ⟨[(".servers.0.tls", 4)]⟩
  note _ s := s

/-- A site with two truth values, of which the first is a note. -/
def tlsSite : Tree :=
  .mapping [("notes", .mapping [("draft", .scalar (.bool true))]),
    ("servers", .sequence [.mapping [("name", .scalar (.str "a")),
      ("tls", .scalar (.bool true))]])]

/-- A writer that says of another field that its writer is missing. -/
def failingTls : FieldWriters (List String) :=
  ⟨some (.call fun _ => throw (.noWriter "other" none)), none, none, none⟩

/-- Without a writer for `tls` the walk ends there, with what the hooks before it have written. If
the writer says that another one is missing, the error is wrapped with the node of `tls`. -/
theorem walk_fails_at_first_unwritten_tlsSite :
    (∃ f, FirstUnwritten (tlsWalker {}) (calls (tlsWalker {}) 0 KeyPath.root tlsSite [])
        (fieldsIn (tlsWalker {}) [] none 0 KeyPath.root tlsSite) f ∧
      f.visit.path = ".servers.0.tls") ∧
    Step.run (walk (tlsWalker {}) tlsSite) []
      = (.error (.noWriter ".servers.0.tls" (some 4)), [".notes", ".servers.0"]) ∧
    LastFailed (calls (tlsWalker failingTls) 0 KeyPath.root tlsSite [])
      (.writerFailed ".servers.0.tls" (some 4) (Error.noWriter "other" none).message) := by
  have hall : (calls (tlsWalker {}) 0 KeyPath.root tlsSite []).all (fun c => c.answer.isOk)
      = true := by rfl
  have hsucceeds : ∀ c ∈ calls (tlsWalker {}) 0 KeyPath.root tlsSite [], c.Succeeds := by
    intro c hc
    have hok := List.all_eq_true.mp hall c hc
    rcases hanswer : c.answer with e | handled
    · rw [hanswer] at hok
      cases hok
    · exact ⟨handled, hanswer⟩
  obtain ⟨-, -, -, hsucceeding, -⟩ :=
    walk_fails_at_first_unwritten (tlsWalker {}) 0 KeyPath.root tlsSite []
  obtain ⟨-, -, -, -, hfailing⟩ :=
    walk_fails_at_first_unwritten (tlsWalker failingTls) 0 KeyPath.root tlsSite []
  refine ⟨?_, by rfl, ?_⟩
  · obtain ⟨f, hfirst, herr⟩ :=
      (hsucceeding hsucceeds).2 (.noWriter ".servers.0.tls" (some 4)) (by rfl)
    exact ⟨f, hfirst, (Error.noWriter.inj herr).1.symm⟩
  · rcases hfailing (.writerFailed ".servers.0.tls" (some 4) (Error.noWriter "other" none).message)
      (by rfl) with ⟨-, f, -, herr⟩ | hfailed
    · cases herr
    · exact hfailed

end SiteConf.Writer
