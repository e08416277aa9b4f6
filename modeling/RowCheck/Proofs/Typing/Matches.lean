import RowCheck.Proofs.Typing.Accounts

/-!
The rows of matches. Settled, the row of a match has the labels of the scrutinee, the guards and the
bodies, and those of the first active pattern that its arms apply; and it has no others. So what a
second pattern performs is missing there.
-/
namespace RowCheck

namespace Checker

open Unifier

variable {r : Registries} {outer : TypeEnv} {Γ : Context} {c : Checker}

/-! ## Declarations -/

theorem inferFunction_accounts (hr : r.Defined) (hfree : r.ErrorFree) (hc : c.Sound)
    (hΓ : c.Within r outer Γ) (d : FnDecl) :
    c.Stays (inferFunction r d) (fun q c' => ∀ x o, c.Means x o → c'.Accounted x o q.1.nodes) := by
  have hbody : AccountsFor r outer d.body := accountsFor hr hfree d.body
  have hwell : Infers r outer d.body := infers hr hfree d.body
  unfold inferFunction
  refine resultType_stays hc d fun expected c₁ h₁ he => ?_
  have hΓ₁ := hΓ.follows h₁
  dsimp only
  split
  · have hin : c₁.Stays (inContext (infer r d.body) expected) (fun q c' =>
        q.2.Below c'.unifier.rowCount ∧ ∀ x o, c₁.Means x o → c'.Accounted x o q.1.nodes) :=
      ⟨(inContext_stays hwell h₁.sound hΓ₁ he).1, (inContext_accounts hbody h₁.sound hΓ₁ he).2⟩
    refine hin.bind fun q c₂ h₂ hq => (exposedEffects_stays h₂.sound hq.1 _ _).bind
      fun _ c₃ h₃ _ => .pure h₃.sound fun x o hx => ?_
    exact (hq.2 x o (hx.follows h₁)).leads h₃.toLeads
  · have hlambda := inferLambda_accounts hbody h₁.sound hΓ₁ d.params d.span he
      (d.effects.map fun row => (row, d.name.text))
    exact ⟨(inferLambda_stays hwell h₁.sound hΓ₁ d.params d.span he _).1,
      fun x o hx => hlambda.2 x o (hx.follows h₁)⟩

theorem inferActive_accounts (hr : r.Defined) (hfree : r.ErrorFree) (hc : c.Sound)
    (hΓ : c.Within r outer Γ) (hactive : c.unifier.errors = [] → c.active = none)
    (d : ActiveDecl) :
    c.Stays (inferActive r d) (fun q c' => ∀ x o, c.Means x o → c'.Accounted x o q.1.nodes) := by
  suffices h : c.Gives (inferActive r d) (fun q c' => ∀ x o, c.Means x o →
      c'.Accounted x o q.1.nodes) from ⟨(inferActive_stays hr hfree hc hΓ hactive d).1, h.2⟩
  unfold inferActive
  refine (setActive_gives hc _).bind fun _ c₁ h₁ hc₁ => ?_
  subst hc₁
  have hΓ₁ : Within { c with active := r.active.get? d.name.text } r outer Γ := fun he =>
    ⟨(hΓ he).1, fun p hp => hr.owned d.name.text p hp⟩
  have hexpected : c.unifier.Knows (.named d.name.text []) := knows_of_closed rfl rfl
  refine (inferLambda_accounts (accountsFor hr hfree d.body) h₁.sound hΓ₁ [d.param] d.span
    (by rintro p ⟨⟩; exact hexpected) none).bind fun q c₂ h₂ hq => ?_
  exact (setActive_gives h₂.sound none).bind fun _ c₃ h₃ _ =>
    .pure h₃.sound fun x o hx => (hq x o hx).leads h₃

theorem inferDecls_accounts (hr : r.Defined) (hfree : r.ErrorFree) (hc : c.Sound)
    (hΓ : c.Within r outer Γ) (hactive : c.unifier.errors = [] → c.active = none)
    {ps : List (ValueDecl × Ty)} (hps : ∀ p ∈ ps, ∀ u : Unifier, u.Knows p.2) :
    c.Gives (inferDecls r ps) (fun ks c' => ∀ k ∈ ks, ∀ x o, c.Means x o →
      c'.Accounted x o k.body.nodes) := by
  induction ps generalizing c with
  | nil => exact .pure hc (List.forall_mem_nil _)
  | cons p ps ih =>
    obtain ⟨d, placeholder⟩ := p
    simp only [List.mem_cons, forall_eq_or_imp] at hps
    have hkeep : ∀ {c' : Checker}, c.Follows c' → c'.unifier.errors = [] → c'.active = none :=
      fun h he => (h.active he).trans (hactive (h.errors_nil he))
    have hrest : ∀ {c' : Checker} {q : TExpr × Row}, c.Follows c' →
        c'.unifier.WellTyped r outer Γ q.1 →
        (∀ x o, c.Means x o → c'.Accounted x o q.1.nodes) → c'.Gives (do
          Unifier.unify placeholder q.1.ty
            ((Provenance.of d.span .recursiveUse).relatedTo d.name.span)
          return ⟨d, q.1, q.2⟩ :: (← inferDecls r ps)) (fun ks c'' => ∀ k ∈ ks, ∀ x o,
            c.Means x o → c''.Accounted x o k.body.nodes) := by
      intro c' q h hq hacc
      refine (unify_stays h.sound (hps.1 _) hq.knows _).gives.bind fun _ c₁ _ h₁ => ?_
      replace h₁ := h₁.1
      have h₀₁ := h.trans h₁
      refine (ih h₁.sound (hΓ.follows h₀₁) (hkeep h₀₁) hps.2).bind fun ks c₂ h₂ hks =>
        .pure h₂.sound (List.forall_mem_cons.2 ⟨fun x o hx => ?_, fun k hk x o hx => ?_⟩)
      · exact (hacc x o hx).leads (h₁.toLeads.trans h₂)
      · exact hks k hk x o (hx.follows h₀₁)
    unfold inferDecls
    refine (setScope_stays hc).gives.bind fun _ c₁ _ h₁ => ?_
    replace h₁ := h₁.1
    have hΓ₁ := hΓ.follows h₁
    dsimp only
    cases d with
    | fn f =>
      refine ((inferFunction_stays hr hfree h₁.sound hΓ₁ f).and
        (inferFunction_accounts hr hfree h₁.sound hΓ₁ f)).gives.bind fun q c₂ _ h₂ => ?_
      obtain ⟨h₂, hq, hacc⟩ := h₂
      exact hrest (h₁.trans h₂) hq fun x o hx => hacc x o (hx.follows h₁)
    | active a =>
      refine ((inferActive_stays hr hfree h₁.sound hΓ₁ (hkeep h₁) a).and
        (inferActive_accounts hr hfree h₁.sound hΓ₁ (hkeep h₁) a)).gives.bind
        fun q c₂ _ h₂ => ?_
      obtain ⟨h₂, hq, hacc⟩ := h₂
      exact hrest (h₁.trans h₂) hq fun x o hx => hacc x o (hx.follows h₁)

/-- What a name has where the names of a group are in scope, if it has something. -/
def SchemeIn (outer : TypeEnv) (Γ : Context) (x : String) (o : Option Scheme) : Prop :=
  (∃ t, Γ.lookup x = some (.plain t) ∧ o = some (.mono t)) ∨
    Γ.lookup x = none ∧ o = outer.lookup x

/-- Whatever group is checked: its matches account for their patterns at the end, and its
declarations are known. -/
theorem inferGroup_accounts (hr : r.Defined) (hfree : r.ErrorFree) (hc : c.Sound)
    (henv : c.env.Proper) (hactive : c.active = none) (ds : List ValueDecl) :
    c.Gives (inferGroup r ds) (fun ks c' => ∃ ps : List (ValueDecl × Ty),
      List.Forall₂ (KnowsDecl c'.unifier r c.env (.bindNames [] (groupNames ps))) ps ks ∧
      ∀ k ∈ ks, ∀ x o, SchemeIn c.env (.bindNames [] (groupNames ps)) x o →
        c'.Accounted x o k.body.nodes) := by
  unfold inferGroup
  refine (pushScope_gives hc).bind fun _ c₁ h₁ hc₁ => ?_
  refine (bindPlaceholders_gives h₁.sound ds).bind fun ps c₂ h₂ hps => ?_
  obtain ⟨-, hknows, hscope⟩ := hps
  have hΓ : c₂.Within r c.env (.bindNames [] (groupNames ps)) := by
    intro he
    obtain ⟨he₂, ha₂⟩ := hscope he
    subst hc₁
    rw [he₂, ha₂]
    refine ⟨henv.models_self.pushScope.bindNames fun n hn => ?_, by simp [hactive]⟩
    obtain ⟨p, hp, rfl⟩ := List.mem_map.1 hn
    exact (hknows p hp c₂.unifier).proper he
  have hactive₂ : c₂.unifier.errors = [] → c₂.active = none := fun he => by
    rw [(hscope he).2, hc₁]
    exact hactive
  refine ((inferDecls_stays hr hfree h₂.sound hΓ hactive₂ hknows).gives.and
    (inferDecls_accounts hr hfree h₂.sound hΓ hactive₂ hknows)).bind fun ks c₃ _ h₃ => ?_
  obtain ⟨⟨h₃, hks⟩, hacc⟩ := h₃
  refine (popScope_gives h₃.sound).bind fun _ c₄ h₄ _ => ?_
  have hlead := finish_leads h₄.sound.sound
  refine (Stays.lift (x := Unifier.finish) (Q := fun _ _ => True) h₄.sound
    ⟨hlead, trivial⟩).gives.bind fun _ c₅ _ h₅ => .pure h₅.1.sound ⟨ps, ?_, fun k hk x o hx => ?_⟩
  · exact hks.imp fun p k hk => hk.leads (h₄.trans h₅.1.toLeads).unifier
  · refine (hacc k hk x o fun he => ?_).leads (h₄.trans h₅.1.toLeads)
    obtain ⟨hmodels, -⟩ := hΓ he
    rcases hx with ⟨t, ht, rfl⟩ | ⟨hnone, rfl⟩
    · exact hmodels.plain x t ht
    · exact hmodels.outer x hnone

end Checker

open Checker Unifier

/-- What is known at the end of a group that is accepted against closed schemes. -/
theorem checkGroup_accounts {r : Registries} (hr : r.Defined) (hfree : r.ErrorFree) {env : TypeEnv}
    (henv : env.Below 0) (hproper : env.Proper) (tracing : Bool) {decls : List Decl}
    (h : (checkGroup r env tracing decls).diagnostics = []) :
    ∃ (v : Unifier) (Γ : Context) (ks : List Checked), v.Sound ∧ v.errors = [] ∧
      (checkGroup r env tracing decls).decls = ks.map (Checked.settle r v.substitution) ∧
      Γ.settle v.substitution =
        .ofGroup ((checkGroup r env tracing decls).decls.filterMap TDecl.function?) ∧
      ∀ k ∈ ks, ∀ x o, SchemeIn env Γ x o → (∀ n ∈ k.body.nodes, x ∉ n.binds) →
        ∀ n ∈ k.body.nodes, v.HeadsMatch x o n := by
  obtain ⟨hlead, ps, hks, hacc⟩ := inferGroup_accounts hr hfree (start_sound henv tracing) hproper
    rfl (decls.filterMap Decl.value?)
  obtain ⟨hclose, herr⟩ := closeSchemes_gives hlead.sound
    ((checkGroup r env tracing decls).diagnostics.any (·.isError)) fun k hk =>
      (knows_of_mem hks k hk).elim fun _ h => h.body.knows
  have hv := hclose.sound.sound
  have he := herr.trans h
  refine ⟨_, _, _, hv, he, rfl, Context.settle_groupNames hv he (hks.imp fun p k hk =>
    hk.leads hclose.unifier), fun k hk x o hx => ?_⟩
  exact ((hacc k hk x o hx).leads hclose) he

theorem Row.mem_foldl_union {l : String} {rows : List Row} {e : Row} :
    l ∈ (rows.foldl Row.union e).labels ↔ l ∈ e.labels ∨ ∃ s ∈ rows, l ∈ s.labels := by
  induction rows generalizing e with
  | nil => simp
  | cons s rows ih => rw [List.foldl_cons, ih, Row.union, SortedSet.mem_union]; simp [or_assoc]

/-- The labels of a settled node are those of its own row and of its parts. -/
theorem TExpr.mem_effects_settle {s : Substitution} {n : TExpr} {l : String} :
    l ∈ (n.settle s).effects.labels ↔ l ∈ (s.findRow n.effects).labels ∨
      ∃ e ∈ (n.settle s).parts, l ∈ e.effects.labels := by
  rw [effects_settle, Row.mem_foldl_union, parts_settle]
  simp

/-- A match that is settled was one before. -/
theorem TExpr.matchOn_mem_nodes_settle {σ : Substitution} {e : TExpr} {i : Info} {s : TExpr}
    {arms : List TArm} {tree : Option DecisionTree}
    (h : .matchOn i s arms tree ∈ (e.settle σ).nodes) : ∃ i₀ s₀ arms₀,
      .matchOn i₀ s₀ arms₀ tree ∈ e.nodes ∧
      (TExpr.matchOn i₀ s₀ arms₀ tree).settle σ = .matchOn i s arms tree := by
  rw [nodes_settle] at h
  obtain ⟨n, hn, hsettle⟩ := List.mem_map.1 h
  cases n with
  | matchOn i₀ s₀ arms₀ tree₀ =>
    obtain rfl : tree₀ = tree := by
      simp only [settle, matchOn.injEq] at hsettle
      exact hsettle.2.2.2
    exact ⟨i₀, s₀, arms₀, hn, hsettle⟩
  | _ => simp [settle] at hsettle

theorem exists_not_mem_names (names : List String) : ∃ x, x ∉ names := by
  have hinfinite : Infinite String := .of_injective String.ofList fun l l' h => by
    simpa using congrArg String.toList h
  obtain ⟨x, hx⟩ := Infinite.exists_notMem_finset names.toFinset
  exact ⟨x, by simpa using hx⟩

theorem Context.lookup_ofGroup_eq_none_iff {fs : List TFunction} {x : String} :
    (Context.ofGroup fs).lookup x = none ↔ x ∉ fs.map (·.name) := by
  have hnames : (fs.map fun f => (f.name, f.ty, f.span)).map (·.1) = fs.map (·.name) := by
    rw [List.map_map]
    rfl
  rw [← hnames, ofGroup]
  generalize fs.map (fun f => (f.name, f.ty, f.span)) = names
  refine ⟨fun h hx => ?_, fun hx => lookup_bindNames hx⟩
  -- the last name that is bound comes first
  induction names using List.reverseRecOn with
  | nil => cases hx
  | append_singleton names n ih =>
    rw [bindNames, List.foldl_append, List.foldl_cons, List.foldl_nil, List.lookup_cons] at h
    split at h
    · cases h
    · rename_i hne
      rw [List.map_append, List.mem_append, List.map_singleton, List.mem_singleton] at hx
      exact ih h (hx.resolve_right (beq_eq_false_iff_ne.1 hne))

/-- Whether a name stands for a function that performs a row, where those of a group are in
scope. -/
def ArrowIn (r : Registries) (env : TypeEnv) (group : List TFunction) (x : String) (e : Row) :
    Prop :=
  ∃ (i : Info) (p q : Ty), i.ty = .fn p q e ∧ Typed r env (.ofGroup group) (.var i x)

/-- The row of a match in a group that is accepted has the labels of its parts, and those of the
function of the first active pattern that its arms apply, if they do; and no others. The pattern
must have a function, and no local name may hide that. -/
theorem checkGroup_matches {r : Registries} (hr : r.Defined) (hfree : r.ErrorFree) {env : TypeEnv}
    (henv : env.Below 0) (hproper : env.Proper) (tracing : Bool) {decls : List Decl}
    (h : (checkGroup r env tracing decls).diagnostics = []) {group : List TFunction}
    (hgroup : group = (checkGroup r env tracing decls).decls.filterMap TDecl.function?) :
    ∀ f ∈ group, ∀ i s arms tree, .matchOn i s arms tree ∈ f.body.nodes → ∃ own : Row,
      (∀ l, l ∈ i.effects.labels ↔ l ∈ own.labels ∨
        ∃ e ∈ s :: arms.flatMap TArm.parts, l ∈ e.effects.labels) ∧
      (arms.flatMap (·.pattern.applied) = [] → own = .pure) ∧
      ∀ x xs, arms.flatMap (·.pattern.applied) = x :: xs → x ∉ f.body.locals →
        x ∈ group.map (·.name) ∨ (env.lookup x).isSome = true → ArrowIn r env group x own := by
  obtain ⟨v, Γ, ks, hv, he, hdecls, hΓ, hacc⟩ := checkGroup_accounts hr hfree henv hproper tracing h
  rw [← hgroup] at hΓ
  have hlookup : ∀ x, (Context.ofGroup group).lookup x =
      (Γ.lookup x).map (Entry.settle v.substitution) := fun x => by rw [← hΓ, Context.lookup_settle]
  intro f hf i s arms tree hmem
  rw [hgroup, hdecls, List.mem_filterMap] at hf
  obtain ⟨t, ht, hf⟩ := hf
  obtain ⟨k, hk, rfl⟩ := List.mem_map.1 ht
  rw [Checker.Checked.function?_settle, Option.some.injEq] at hf
  subst hf
  obtain ⟨i₀, s₀, arms₀, hn, hsettle⟩ := TExpr.matchOn_mem_nodes_settle hmem
  have happlied : arms.flatMap (·.pattern.applied) = arms₀.flatMap (·.pattern.applied) := by
    simp only [TExpr.settle, TExpr.matchOn.injEq] at hsettle
    rw [← hsettle.2.2.1]
    exact TExpr.flatMap_settleArms_pattern (TPattern.applied_settle _) arms₀
  have hheads : ∀ x o, SchemeIn env Γ x o → x ∉ k.body.locals →
      v.Heads x o (arms.flatMap (·.pattern.applied)) i₀.effects := by
    intro x o hx hlocal
    rw [happlied]
    exact hacc k hk x o hx (fun m hm hb => hlocal (List.mem_flatMap.2 ⟨m, hm, hb⟩)) _ hn
  rw [TExpr.locals_settle]
  refine ⟨v.findRow i₀.effects, fun l => ?_, fun hnil => ?_, fun x xs hcons hlocal hknown => ?_⟩
  · have hlabels := TExpr.mem_effects_settle (s := v.substitution) (l := l)
      (n := .matchOn i₀ s₀ arms₀ tree)
    rwa [hsettle] at hlabels
  · obtain ⟨x, hx⟩ := exists_not_mem_names (k.body.locals ++ group.map (·.name))
    rw [List.mem_append, not_or] at hx
    have hnone : Γ.lookup x = none := by
      rw [← Option.map_eq_none_iff, ← hlookup]
      exact Context.lookup_ofGroup_eq_none_iff.2 hx.2
    have hpure := hheads x _ (.inr ⟨hnone, rfl⟩) hx.1
    rw [hnil] at hpure
    rw [show i₀.effects = .pure from hpure]
    exact Unifier.findRow_closed rfl
  · rw [hcons] at hheads
    cases hx : Γ.lookup x with
    | none =>
      have hgroup : (Context.ofGroup group).lookup x = none := by rw [hlookup, hx]; rfl
      obtain ⟨s, hs⟩ := Option.isSome_iff_exists.1
        (hknown.resolve_left (Context.lookup_ofGroup_eq_none_iff.1 hgroup))
      obtain ⟨p, q, -, hinst⟩ := (((hheads x _ (.inr ⟨hx, rfl⟩) hlocal).2 rfl) s hs).here hv he
      exact ⟨.quiet .synthetic (.fn p q _), p, q, rfl, .outer hgroup hs hinst⟩
    | some entry =>
      cases entry with
      | plain t =>
        obtain ⟨p, q, hty, -⟩ :=
          (((hheads x _ (.inl ⟨t, hx, rfl⟩) hlocal).2 rfl) _ rfl).here hv he
        refine ⟨.quiet .synthetic (.fn p q _), p, q, rfl, .plain ?_⟩
        rw [hlookup, hx]
        exact congrArg (some ∘ Entry.plain) (hty rfl)
      | general =>
        refine ⟨.quiet .synthetic (.fn .unit .unit _), _, _, rfl, .general ?_⟩
        rw [hlookup, hx]
        rfl

def Ty.arrowRow? : Ty → Option Row
  | .fn _ _ e => some e
  | _ => none

/-- The row of each match of an expression, and the active patterns that its arms apply. -/
def TExpr.matchRows (e : TExpr) : List (Row × List String) :=
  e.nodes.filterMap fun
    | .matchOn i _ arms _ => some (i.effects, arms.flatMap (·.pattern.applied))
    | _ => none

/-- Two active patterns, of which the second prints, and a function whose one match applies both:
```
active Brief(s: String) = Short { if s = "" { Short } else { NoMatch } }
active Loud(s: String) = Heard { print(s); Heard }
fn hear(s) { match s { Short => 1, Heard => 2 } }
```
-/
def hearing : List Decl :=
  let name := Name.mk .synthetic
  let var := Expr.var .synthetic
  let build := fun c => Expr.construct .synthetic (name c) []
  let param : Param := ⟨name "s", some (.named .synthetic "String" [])⟩
  [.active ⟨.synthetic, name "Brief", [⟨name "Short", []⟩], false, param,
      .cond .synthetic
        (.binary .synthetic .eq .synthetic (var "s") (.lit .synthetic (.string "")))
        (build "Short") (build noMatch)⟩,
    .active ⟨.synthetic, name "Loud", [⟨name "Heard", []⟩], true, param,
      .seq .synthetic [.call .synthetic (var "print") [var "s"], build "Heard"]⟩,
    .fn ⟨.synthetic, name "hear", [⟨name "s", none⟩], none, none,
      .matchOn .synthetic (var "s")
        [.mk (.ctor .synthetic "Short" []) none (.lit .synthetic (.int 1)),
        .mk (.ctor .synthetic "Heard" []) none (.lit .synthetic (.int 2))]⟩]

/-- The first active pattern of the match is accounted for. -/
theorem hearing_matches :
    let group := (checkGroup (Module.registries hearing).1 printing false hearing).decls.filterMap
      TDecl.function?
    ∃ f ∈ group, ∃ i s arms tree, .matchOn i s arms tree ∈ f.body.nodes ∧ ∃ own : Row,
      (∀ l, l ∈ i.effects.labels ↔ l ∈ own.labels ∨
        ∃ e ∈ s :: arms.flatMap TArm.parts, l ∈ e.effects.labels) ∧
      ArrowIn (Module.registries hearing).1 printing group "Brief" own := by
  intro group
  have hrows : group.flatMap (·.body.matchRows) = [(.pure, ["Brief", "Loud"])] := by decide +kernel
  obtain ⟨f, hf, hrow⟩ := List.mem_flatMap.1 (hrows ▸ List.mem_singleton_self _)
  obtain ⟨n, hn, hrow⟩ := List.mem_filterMap.1 hrow
  split at hrow
  · rename_i i s arms tree
    obtain ⟨-, happlied⟩ := Prod.mk.inj (Option.some.inj hrow)
    obtain ⟨own, hlabels, -, harrow⟩ := checkGroup_matches (Module.registries_defined hearing)
      (Registries.errorFree_of_types (by decide +kernel)) printing_below printing_proper false
      (List.isEmpty_iff.1 (by decide +kernel)) rfl f hf i s arms tree hn
    have hlocals : ∀ f ∈ group, "Brief" ∉ f.body.locals := by decide +kernel
    exact ⟨f, hf, i, s, arms, tree, hn, own, hlabels,
      harrow "Brief" ["Loud"] happlied (hlocals f hf) (.inl (by decide +kernel))⟩
  · cases hrow

/-- What the second performs is missing in the row of the match. -/
theorem hearing_matchRows :
    let result := checkGroup (Module.registries hearing).1 printing false hearing
    let functions := result.decls.filterMap TDecl.function?
    result.diagnostics.isEmpty = true ∧
    functions.map (fun f => (f.name, f.ty.arrowRow?)) = [("Brief", some .pure),
      ("Loud", some (.closed ["io"])), ("hear", some (.closed ["io"]))] ∧
    functions.flatMap (·.body.matchRows) = [(.pure, ["Brief", "Loud"])] := by
  decide +kernel

end RowCheck
