import RowCheck.Proofs.Infer.Group
import RowCheck.Proofs.Typing.Expr

/-!
Checking a group, as far as types go. If nothing is found at fault, then every body is well typed
once the group is done: the equations that were solved along the way hold under the substitution
that all nodes are settled with.
-/
namespace RowCheck

namespace Unifier

variable {u : Unifier}

theorem sound_empty (tracing : Bool) : Sound { Unifier.empty with tracing } where
  substitution := Substitution.empty_valid
  pending := nofun
  spotless _ _ := rfl
  inclusions _ := nofun

theorem generalize_errors (u : Unifier) (t : Ty) (env : TypeEnv) (topLevel : Bool) :
    (generalize t env topLevel u).2.errors = u.errors := by
  cases topLevel <;> rfl

/-- The end of a pass keeps all that is known of types. -/
theorem finish_leads (hu : u.Sound) : u.Leads (finish u).2 := by
  have hg := (finish_grows hu.toValid).1
  by_cases he : u.errors = []
  · exact hu.leads_of_sameTypes hg (finish_sameTypes (hu.inclusions he))
  · have hne : (finish u).2.errors ≠ [] := fun h => he (hg.errors_nil h)
    exact ⟨hg, ⟨hg.valid, fun h => absurd h hne, fun h => absurd h hne⟩, fun h => absurd h hne⟩

end Unifier

namespace Checker

open Unifier

variable {r : Registries} {outer : TypeEnv} {Γ : Context} {c : Checker}

/-- The names of a group as those of a pattern. -/
def groupNames (ps : List (ValueDecl × Ty)) : List (String × Ty × Span) :=
  ps.map fun p => (p.1.name.text, p.2, p.1.span)

theorem start_sound {env : TypeEnv} (henv : env.Below 0) (tracing : Bool) :
    (start env tracing).Sound where
  toValid := start_valid henv tracing
  sound := (freshRow_gives (sound_empty tracing)).1.sound
  written := nofun

theorem setScope_stays (hc : c.Sound) :
    c.Stays (modify fun c => { c with scope := .opened }) (fun _ _ => True) :=
  ⟨⟨⟨⟨⟨hc.unifier, hc.env, hc.context, TypeScope.below_opened _⟩, hc.sound, nofun⟩, hc.sound.leads⟩,
    fun _ => rfl, fun _ => rfl⟩, trivial⟩

theorem setActive_gives (hc : c.Sound) (p : Option ActivePattern) :
    c.Gives (modify fun c => { c with active := p }) (fun _ c' => c' = { c with active := p }) :=
  ⟨⟨⟨⟨hc.unifier, hc.env, hc.context, hc.scope⟩, hc.sound, hc.written⟩, hc.sound.leads⟩, rfl⟩

theorem bindPlaceholders_gives (hc : c.Sound) (ds : List ValueDecl) :
    c.Gives (bindPlaceholders ds) (fun ps c' => ps.map (·.1) = ds ∧
      (∀ p ∈ ps, ∀ u : Unifier, u.Knows p.2) ∧ (c'.unifier.errors = [] →
        c'.env = c.env.bindNames (groupNames ps) ∧ c'.active = c.active)) := by
  induction ds generalizing c with
  | nil => exact .pure hc ⟨rfl, by simp, fun _ => ⟨rfl, rfl⟩⟩
  | cons d ds ih =>
    unfold bindPlaceholders
    refine (Stays.lift hc (freshType_gives hc.sound)).gives.bind fun t c₁ _ h₁ => ?_
    obtain ⟨h₁, ht⟩ := h₁
    have hbelow := h₁.sound.env.bind d.name.text (Scheme.below_mono_iff.2 (ht c₁.unifier).below)
    refine (modifyEnv_gives h₁.sound hbelow).bind fun _ c₂ h₂ hc₂ => ?_
    refine (ih h₂.sound).bind fun ps c₃ h₃ hps => .pure h₃.sound ⟨by simp [hps.1], ?_, fun he => ?_⟩
    · simp only [List.mem_cons, forall_eq_or_imp]
      exact ⟨ht, hps.2.1⟩
    · obtain ⟨henv, hactive⟩ := hps.2.2 he
      have he₁ := (h₂.trans h₃).errors_nil he
      subst hc₂
      rw [henv, hactive]
      dsimp only
      rw [h₁.env he₁, h₁.active he₁]
      exact ⟨rfl, rfl⟩

/-- The body of a function must have the written result type, if there is one. -/
theorem resultType_stays (hc : c.Sound) (d : FnDecl) {m : Expected → CheckM (TExpr × Row)}
    {Q : TExpr × Row → Checker → Prop}
    (hm : ∀ e c', c.Follows c' → (∀ p ∈ e, c'.unifier.Knows p.1) → c'.Stays (m e) Q) :
    c.Stays (match d.result with
      | some written => do
        let t ← resolving (written.resolve r.types)
        pure (some (t, (Provenance.of d.body.span .resultType).relatedTo written.span)) >>= m
      | none => pure none >>= m) Q := by
  split
  · rename_i written _
    refine (resolveType_stays hc r.types written).bind fun t c₁ h₁ ht => hm _ _ h₁ ?_
    rintro p ⟨⟩
    exact ht
  · exact hm _ _ hc.follows (by simp)

theorem inferFunction_stays (hr : r.Defined) (hfree : r.ErrorFree) (hc : c.Sound)
    (hΓ : c.Within r outer Γ) (d : FnDecl) :
    c.Stays (inferFunction r d) (fun q c' => c'.unifier.WellTyped r outer Γ q.1) := by
  have hbody : Infers r outer d.body := infers hr hfree d.body
  unfold inferFunction
  refine resultType_stays hc d fun expected c₁ h₁ he => ?_
  have hΓ₁ := hΓ.follows h₁
  dsimp only
  split
  · refine (inContext_stays hbody h₁.sound hΓ₁ he).bind fun q c₂ h₂ hq => ?_
    exact (exposedEffects_stays h₂.sound hq.1 _ _).bind fun _ _ h₃ _ =>
      .pure h₃.sound (hq.2.leads h₃.unifier)
  · exact (inferLambda_stays hbody h₁.sound hΓ₁ d.params d.span he _).imp fun _ _ _ h => h.1

theorem inferActive_stays (hr : r.Defined) (hfree : r.ErrorFree) (hc : c.Sound)
    (hΓ : c.Within r outer Γ) (hactive : c.unifier.errors = [] → c.active = none)
    (d : ActiveDecl) :
    c.Stays (inferActive r d) (fun q c' => c'.unifier.WellTyped r outer Γ q.1) := by
  refine Gives.stays (Q := fun q c' => c'.unifier.WellTyped r outer Γ q.1 ∧
    (c'.unifier.errors = [] → c'.env = c.env ∧ c'.active = c.active)) ?_ (fun _ _ h => h.2)
    |>.imp fun _ _ _ h => h.1
  unfold inferActive
  refine (setActive_gives hc _).bind fun _ c₁ h₁ hc₁ => ?_
  have hΓ₁ : c₁.Within r outer Γ := by
    intro he
    subst hc₁
    exact ⟨(hΓ he).1, fun p hp => hr.owned d.name.text p hp⟩
  have hexpected : c₁.unifier.Knows (.named d.name.text []) := knows_of_closed rfl rfl
  refine (inferLambda_stays (infers hr hfree d.body) h₁.sound hΓ₁ [d.param] d.span
    (by rintro p ⟨⟩; exact hexpected) none).gives.bind fun q c₂ _ h₂ => ?_
  obtain ⟨h₂, hq⟩ := h₂
  refine (setActive_gives h₂.sound none).bind fun _ c₃ h₃ hc₃ =>
    .pure h₃.sound ⟨hq.1.leads h₃.unifier, fun he => ?_⟩
  subst hc₃
  refine ⟨(h₂.env he).trans (hc₁ ▸ rfl), (hactive ?_).symm⟩
  exact (h₁.trans h₂.toLeads).errors_nil he

/-- What is known of a checked declaration whose name stands for some type. -/
structure KnowsDecl (u : Unifier) (r : Registries) (outer : TypeEnv) (Γ : Context)
    (p : ValueDecl × Ty) (k : Checked) : Prop where
  decl : k.decl = p.1
  body : u.WellTyped r outer Γ k.body
  ty : u.Forces fun v => v.apply p.2 = v.apply k.body.ty

theorem KnowsDecl.leads {u u' : Unifier} {p : ValueDecl × Ty} {k : Checked}
    (h : KnowsDecl u r outer Γ p k) (hu : u.Leads u') : KnowsDecl u' r outer Γ p k :=
  ⟨h.decl, h.body.leads hu, h.ty.leads hu⟩

theorem knows_of_mem {u : Unifier} {ps : List (ValueDecl × Ty)} {ks : List Checked}
    (h : List.Forall₂ (KnowsDecl u r outer Γ) ps ks) :
    ∀ k ∈ ks, ∃ p, KnowsDecl u r outer Γ p k := by
  induction h with
  | nil => simp
  | cons hk _ ih =>
    simp only [List.mem_cons, forall_eq_or_imp]
    exact ⟨⟨_, hk⟩, ih⟩

theorem inferDecls_stays (hr : r.Defined) (hfree : r.ErrorFree) (hc : c.Sound)
    (hΓ : c.Within r outer Γ) (hactive : c.unifier.errors = [] → c.active = none)
    {ps : List (ValueDecl × Ty)} (hps : ∀ p ∈ ps, ∀ u : Unifier, u.Knows p.2) :
    c.Stays (inferDecls r ps) (fun ks c' =>
      List.Forall₂ (KnowsDecl c'.unifier r outer Γ) ps ks) := by
  induction ps generalizing c with
  | nil => exact .pure hc .nil
  | cons p ps ih =>
    obtain ⟨d, placeholder⟩ := p
    simp only [List.mem_cons, forall_eq_or_imp] at hps
    have hkeep : ∀ {c' : Checker}, c.Follows c' → c'.unifier.errors = [] → c'.active = none :=
      fun h he => (h.active he).trans (hactive (h.errors_nil he))
    have hrest : ∀ {c' : Checker} {q : TExpr × Row}, c.Follows c' →
        c'.unifier.WellTyped r outer Γ q.1 → c'.Stays (do
          Unifier.unify placeholder q.1.ty
            ((Provenance.of d.span .recursiveUse).relatedTo d.name.span)
          return ⟨d, q.1, q.2⟩ :: (← inferDecls r ps)) (fun ks c' =>
            List.Forall₂ (KnowsDecl c'.unifier r outer Γ) ((d, placeholder) :: ps) ks) := by
      intro c' q h hq
      refine (unify_stays h.sound (hps.1 _) hq.knows _).bind fun _ c₁ h₁ heq => ?_
      refine (ih h₁.sound (hΓ.follows (h.trans h₁)) (hkeep (h.trans h₁)) hps.2).bind
        fun ks c₂ h₂ hks => .pure h₂.sound (.cons ⟨rfl, ?_, heq.leads h₂.unifier⟩ hks)
      exact hq.leads (h₁.trans h₂).unifier
    unfold inferDecls
    refine (setScope_stays hc).bind fun _ c₁ h₁ _ => ?_
    have hΓ₁ := hΓ.follows h₁
    dsimp only
    cases d with
    | fn f =>
      exact (inferFunction_stays hr hfree h₁.sound hΓ₁ f).bind fun _ _ h hq =>
        hrest (h₁.trans h) hq
    | active a =>
      exact (inferActive_stays hr hfree h₁.sound hΓ₁ (hkeep h₁) a).bind fun _ _ h hq =>
        hrest (h₁.trans h) hq

/-- Whatever group is checked: what is known of its declarations at the end. -/
theorem inferGroup_gives (hr : r.Defined) (hfree : r.ErrorFree) (hc : c.Sound)
    (henv : c.env.Proper) (hactive : c.active = none) (ds : List ValueDecl) :
    c.Gives (inferGroup r ds) (fun ks c' => ∃ ps : List (ValueDecl × Ty), ps.map (·.1) = ds ∧
      List.Forall₂ (KnowsDecl c'.unifier r c.env (.bindNames [] (groupNames ps))) ps ks) := by
  unfold inferGroup
  refine (pushScope_gives hc).bind fun _ c₁ h₁ hc₁ => ?_
  refine (bindPlaceholders_gives h₁.sound ds).bind fun ps c₂ h₂ hps => ?_
  obtain ⟨hds, hknows, hscope⟩ := hps
  have hΓ : c₂.Within r c.env (.bindNames [] (groupNames ps)) := by
    intro he
    obtain ⟨he₂, ha₂⟩ := hscope he
    subst hc₁
    rw [he₂, ha₂]
    refine ⟨henv.models_self.pushScope.bindNames fun n hn => ?_, by simp [hactive]⟩
    obtain ⟨p, hp, rfl⟩ := List.mem_map.1 hn
    exact (hknows p hp c₂.unifier).proper he
  have hactive₂ : c₂.unifier.errors = [] → c₂.active = none := fun he => by
    rw [(hscope he).2, hc₁]
    exact hactive
  refine (inferDecls_stays hr hfree h₂.sound hΓ hactive₂ hknows).gives.bind fun ks c₃ _ h₃ => ?_
  refine (popScope_gives h₃.1.sound).bind fun _ c₄ h₄ _ => ?_
  have hlead := finish_leads h₄.sound.sound
  refine (Stays.lift (x := Unifier.finish) (Q := fun _ _ => True) h₄.sound ⟨hlead, trivial⟩).gives.bind
    fun _ c₅ _ h₅ => .pure h₅.1.sound ⟨ps, hds, ?_⟩
  exact h₃.2.imp fun p k hk => hk.leads (h₄.trans h₅.1.toLeads).unifier

theorem recordScheme_gives (hc : c.Sound) (name : Name) (s : Scheme) :
    c.Gives (recordScheme name s) (fun _ c' => c'.unifier = c.unifier) := by
  simp only [recordScheme, Gives, modify, modifyGet, MonadStateOf.modifyGet, StateT.modifyGet,
    Pure.pure]
  split
  · exact ⟨⟨⟨⟨hc.unifier, hc.env, hc.context, hc.scope⟩, hc.sound, hc.written⟩, hc.sound.leads⟩, rfl⟩
  · exact ⟨hc.leads, rfl⟩

/-- Giving declarations their schemes keeps all that is known of types, and finds no fault. -/
theorem closeSchemes_gives (hc : c.Sound) (failed : Bool) {ks : List Checked}
    (hks : ∀ k ∈ ks, c.unifier.Knows k.body.ty) :
    c.Gives (closeSchemes failed ks) (fun _ c' => c'.unifier.errors = c.unifier.errors) := by
  induction ks generalizing c with
  | nil => exact .pure hc rfl
  | cons k ks ih =>
    simp only [List.mem_cons, forall_eq_or_imp] at hks
    have hrest : ∀ {c' : Checker} {s : Scheme}, c.Leads c' →
        c'.unifier.errors = c.unifier.errors → c'.Gives (do
          recordScheme k.decl.name s
          return (k.decl.name.text, s) :: (← closeSchemes failed ks))
          (fun _ c'' => c''.unifier.errors = c.unifier.errors) := by
      intro c' s h herr
      refine (recordScheme_gives h.sound _ _).bind fun _ c₁ h₁ hsame => ?_
      refine (ih h₁.sound fun k hk => (hks.2 k hk).leads (h.trans h₁).unifier).bind
        fun _ c₂ h₂ herr₂ => .pure h₂.sound ?_
      rw [herr₂, hsame, herr]
    unfold closeSchemes
    dsimp only
    split
    · exact hrest hc.leads rfl
    · have hgen := generalize_gives hc.sound hks.1 c.env true
      refine .get_bind ?_
      refine (Stays.lift hc (Q := fun _ u => u.errors = c.unifier.errors)
        ⟨hgen.1, generalize_errors ..⟩).gives.bind fun s c₁ _ h₁ => ?_
      exact hrest h₁.1.toLeads h₁.2

end Checker

open Checker Unifier

/-- The function that a checked declaration is settled to. -/
theorem Checker.Checked.function?_settle (r : Registries) (s : Substitution) (k : Checked) :
    (k.settle r s).function? = some ⟨k.decl.name.text, k.decl.span, (k.body.settle s).ty,
      s.findRow k.effects, k.body.settle s⟩ := by
  unfold settle
  dsimp only
  split <;> rfl

/-- The names of a settled group have the types that the names stood for along the way. -/
theorem Context.settle_groupNames {r : Registries} {outer : TypeEnv} {Γ : Context} {v : Unifier}
    (hv : v.Sound) (he : v.errors = []) {ps : List (ValueDecl × Ty)} {ks : List Checked}
    (h : List.Forall₂ (KnowsDecl v r outer Γ) ps ks) :
    (bindNames [] (groupNames ps)).settle v.substitution =
      .ofGroup ((ks.map (Checked.settle r v.substitution)).filterMap TDecl.function?) := by
  rw [settle_bindNames, ofGroup]
  refine congrArg (bindNames []) ?_
  have hsome : TDecl.function? ∘ Checked.settle r v.substitution = _ :=
    funext (Checked.function?_settle r v.substitution)
  rw [List.filterMap_map, hsome, List.filterMap_eq_map', List.map_map, groupNames, List.map_map]
  induction h with
  | nil => rfl
  | @cons p k ps ks hk _ ih =>
    have hty : v.substitution.apply p.2 = (k.body.settle v.substitution).ty :=
      (hk.ty.here hv he).trans (TExpr.ty_settle k.body).symm
    rw [List.map_cons, List.map_cons, ih]
    simp only [Function.comp_apply, hty, hk.decl]

/-- What is known at the end of a group that is accepted against closed schemes, if neither these nor
the declared types have that of a failed expression within. -/
theorem checkGroup_knows {r : Registries} (hr : r.Defined) (hfree : r.ErrorFree) {env : TypeEnv}
    (henv : env.Below 0) (hproper : env.Proper) (tracing : Bool) {decls : List Decl}
    (h : (checkGroup r env tracing decls).diagnostics = []) :
    ∃ (v : Unifier) (ps : List (ValueDecl × Ty)) (ks : List Checked), v.Sound ∧ v.errors = [] ∧
      ps.map (·.1) = decls.filterMap Decl.value? ∧
      (checkGroup r env tracing decls).decls = ks.map (Checked.settle r v.substitution) ∧
      List.Forall₂ (KnowsDecl v r env (.bindNames [] (groupNames ps))) ps ks := by
  obtain ⟨hlead, ps, hds, hks⟩ := inferGroup_gives hr hfree (start_sound henv tracing) hproper rfl
    (decls.filterMap Decl.value?)
  -- giving the declarations their schemes closes rows, but keeps what is known of types
  obtain ⟨hclose, herr⟩ := closeSchemes_gives hlead.sound
    ((checkGroup r env tracing decls).diagnostics.any (·.isError)) fun k hk =>
      (knows_of_mem hks k hk).elim fun _ h => h.body.knows
  exact ⟨_, ps, _, hclose.sound.sound, herr.trans h, hds, rfl,
    hks.imp fun p k hk => hk.leads hclose.unifier⟩

/-- Every body of a group that is accepted against closed schemes is well typed. The definitions that
any module collects are as they should be (`Module.registries_defined`). -/
theorem checkGroup_typed {r : Registries} (hr : r.Defined) (hfree : r.ErrorFree) {env : TypeEnv}
    (henv : env.Below 0) (hproper : env.Proper) (tracing : Bool) {decls : List Decl}
    (h : (checkGroup r env tracing decls).diagnostics = []) :
    List.Forall₂ (fun d t => ∃ f, t.function? = some f ∧ f.WellTyped r env
        ((checkGroup r env tracing decls).decls.filterMap TDecl.function?) d)
      (decls.filterMap Decl.value?) (checkGroup r env tracing decls).decls := by
  obtain ⟨v, ps, ks, hv, he, hds, hdecls, hks⟩ := checkGroup_knows hr hfree henv hproper tracing h
  have hgroup := Context.settle_groupNames hv he hks
  rw [hdecls, ← hds]
  refine List.forall₂_map_left_iff.2 (List.forall₂_map_right_iff.2 (hks.imp fun p k hk => ?_))
  refine ⟨_, Checked.function?_settle r _ k, congrArg (·.name.text) hk.decl, rfl, ?_⟩
  have hbody := hk.body.typed.here hv he
  rw [hgroup] at hbody
  exact hbody

/-- A type, and two functions one of which uses the other:
```
type opt<'a> = None | Some('a)
fn fetch(o, other) { match o { Some(x) when x > other => x, _ => other } }
fn tell(n) { let say = fn(s) { print(s) }; say("told"); fetch(Some(n + 1), 0) }
```
-/
def telling : List Decl :=
  let name := Name.mk .synthetic
  let var := Expr.var .synthetic
  let int := fun n => Expr.lit .synthetic (.int n)
  [.type ⟨.synthetic, name "opt", [name "a"],
      [⟨name "None", []⟩, ⟨name "Some", [.var .synthetic "a"]⟩]⟩,
    .fn ⟨.synthetic, name "fetch", [⟨name "o", none⟩, ⟨name "other", none⟩], none, none,
      .matchOn .synthetic (var "o")
        [.mk (.ctor .synthetic "Some" [.var .synthetic "x"])
          (some (.binary .synthetic .gt .synthetic (var "x") (var "other"))) (var "x"),
        .mk (.wild .synthetic) none (var "other")]⟩,
    .fn ⟨.synthetic, name "tell", [⟨name "n", none⟩], none, none,
      .letIn .synthetic (name "say") none
        (.lam .synthetic [⟨name "s", none⟩] (.call .synthetic (var "print") [var "s"]))
        (.seq .synthetic [.call .synthetic (var "say") [.lit .synthetic (.string "told")],
          .call .synthetic (var "fetch")
            [.construct .synthetic (name "Some")
              [.binary .synthetic .add .synthetic (var "n") (int 1)],
            int 0]])⟩]

theorem printing_proper : printing.Proper := by
  intro x s hs
  have hmem := SortedMap.mem_of_get?_ofList hs
  simp only [List.mem_singleton, Prod.mk.injEq] at hmem
  obtain ⟨-, rfl⟩ := hmem
  rfl

theorem telling_typed :
    List.Forall₂ (fun d t => ∃ f, t.function? = some f ∧ f.WellTyped (Module.registries telling).1
        printing ((checkGroup (Module.registries telling).1 printing false
          telling).decls.filterMap TDecl.function?) d)
      (telling.filterMap Decl.value?)
      (checkGroup (Module.registries telling).1 printing false telling).decls :=
  checkGroup_typed (Module.registries_defined telling)
    (Registries.errorFree_of_types (by decide +kernel)) printing_below printing_proper false
    (List.isEmpty_iff.1 (by decide +kernel))

end RowCheck
