import RowCheck.Proofs.Infer.Expr

/-!
Checking a group. If nothing is found at fault, then all that was promised along the way holds once
the group is done; so no effect that a function performs is missing from its arrow or from the row
that is written for it.
-/
namespace RowCheck

theorem Row.Covers.trans {a b c : Row} (h : a.Covers b) (h' : b.Covers c) : a.Covers c where
  labels x hx := h.labels x (h'.labels x hx)
  tail := by
    rcases h'.tail with ht | ht
    · exact .inl ht
    · rw [ht]
      exact h.tail

namespace Unifier

variable {u u' v : Unifier}

theorem honours_of_covers {row within : Row} (h : (u.findRow within).Covers (u.findRow row)) :
    u.Honours row within where
  flows := h.labels
  tail v hv := by
    rcases h.tail with ht | ht
    · rw [ht] at hv
      cases hv
    · exact ht ▸ hv

/-- Whether all that is promised in a state holds in another one. -/
def Fulfils (u v : Unifier) : Prop :=
  ∀ row within, u.Promises row within → (v.findRow within).Covers (v.findRow row)

theorem Fulfils.grows (h : u.Fulfils v) (hv : v.Valid) {w : Unifier} (hw : v.Grows w) :
    u.Fulfils w := fun row within hp =>
  ((honours_of_covers (h row within hp)).grows hv hw).covers

/-- The end of a pass without errors fulfils all promises. -/
theorem finish_fulfils (hu : u.Valid) (he : (finish u).2.errors = []) :
    u.Fulfils (finish u).2 := by
  obtain ⟨hg, hh⟩ := finish_grows hu
  have he' : u.errors = [] := List.prefix_nil.1 (he ▸ hg.errors)
  exact fun row within hp => hp _ hg he (hh (he.trans he'.symm))

theorem Fulfils.exposes (h : u.Fulfils v) {effects : Row} {body : TExpr}
    (hb : u.Exposes effects body) :
    (v.findRow effects).Covers (body.settle v.substitution).effects := by
  obtain ⟨inner, hinner, hperf⟩ := hb
  exact TExpr.covers_effects_settle body fun r hr =>
    (h inner effects hinner).trans (h r inner (hperf r hr))

theorem Fulfils.shows (h : u.Fulfils v) {e : TExpr} (he : ∀ l ∈ e.lambdas, u.Shows l) :
    ∀ l ∈ (e.settle v.substitution).lambdas,
      ∃ p q row, l.1.ty = .fn p q row ∧ row.Covers l.2.effects := by
  intro l hl
  rw [TExpr.lambdas_settle] at hl
  obtain ⟨k, hk, rfl⟩ := List.mem_map.1 hl
  obtain ⟨p, q, effects, ht, hexp⟩ := he k hk
  exact ⟨_, _, _, congrArg v.substitution.apply ht, h.exposes hexp⟩

end Unifier

/-! ## Declarations -/

namespace ValueDecl

/-- The number of arguments after which the body is evaluated. -/
def arity : ValueDecl → Nat
  | fn d => d.params.length
  | active _ => 1

/-- The closed row of effects that is written for a declaration, if there is one. -/
def written? : ValueDecl → Option Row
  | fn d => d.effects.bind RowExpr.closed?
  | active _ => none

end ValueDecl

namespace Checker

variable {r : Registries} {c : Checker}

theorem setScope_does (hc : c.Valid) :
    c.Does (modify (fun c => { c with scope := .opened })) (fun _ _ => True) :=
  ⟨⟨⟨hc.unifier, hc.env, hc.context, TypeScope.below_opened _⟩, hc.unifier.advances, rfl⟩, trivial⟩

theorem setActive_does (hc : c.Valid) (p : Option ActivePattern) :
    c.Does (modify (fun c => { c with active := p })) (fun _ _ => True) :=
  ⟨⟨⟨hc.unifier, hc.env, hc.context, hc.scope⟩, hc.unifier.advances, rfl⟩, trivial⟩

/-- The body of a function must have the written result type, if there is one. -/
theorem resultType_does (hc : c.Valid) (d : FnDecl) {m : Expected → CheckM (TExpr × Row)}
    {Q : TExpr × Row → Checker → Prop}
    (hm : ∀ e c', c.Advances c' → (∀ p ∈ e, p.1.Below c'.unifier.rowCount) → c'.Does (m e) Q) :
    c.Does (match d.result with
      | some written => do
        let t ← resolving (written.resolve r.types)
        pure (some (t, (Provenance.of d.body.span .resultType).relatedTo written.span)) >>= m
      | none => pure none >>= m) Q := by
  split
  · rename_i written _
    refine (resolving_does hc (TypeExpr.resolve_resolves r.types written _ _ hc.unifier
      hc.scope)).bind fun t c₁ h₁ ht => hm _ _ h₁ ?_
    rintro p ⟨⟩
    exact ht
  · exact hm _ _ hc.advances (by simp)

theorem inferFunction_does (hr : r.RowsClosed) (hc : c.Valid) (d : FnDecl) :
    c.Does (inferFunction r d) (fun p c' =>
      c'.unifier.Vouches d.params.length (ValueDecl.fn d).written? p) := by
  have hwritten : (d.effects.map (fun row => (row, d.name.text))).bind (·.1.closed?) =
      (ValueDecl.fn d).written? := by
    rw [Option.bind_map]
    rfl
  unfold inferFunction
  refine resultType_does hc d fun expected c₁ h₁ he => ?_
  dsimp only
  split
  · rename_i hparams
    refine (inContext_does h₁.valid (infer_does hr d.body) he).bind fun p c₂ h₂ hp => ?_
    refine (exposedEffects_does h₂.valid hp.1 _ _).bind fun effects c₃ h₃ heff =>
      .pure h₃.valid ?_
    have hk := hp.2.advances h₃.unifier
    refine ⟨hk.ty, hk.lambdas, ?_, hwritten ▸ heff.2.2⟩
    rw [List.isEmpty_iff.1 hparams]
    exact ⟨p.2, heff.2.1, hk.performed⟩
  · rename_i hparams
    refine (inferLambda_does h₁.valid d.params (infer_does hr d.body) d.span he _).imp
      fun p c₂ h₂ hp => ?_
    have hlen : max d.params.length 1 = d.params.length := by
      rw [List.isEmpty_iff] at hparams
      have := List.length_pos_iff.2 hparams
      omega
    rw [hlen, hwritten] at hp
    exact hp.2

theorem inferActive_does (hr : r.RowsClosed) (hc : c.Valid) (d : ActiveDecl) :
    c.Does (inferActive r d) (fun p c' => c'.unifier.Vouches 1 none p) := by
  unfold inferActive
  refine (setActive_does hc _).bind fun _ c₁ h₁ _ => ?_
  refine (inferLambda_does h₁.valid [d.param] (infer_does hr d.body) d.span ?_ none).bind
    fun p c₂ h₂ hp => ?_
  · rintro p ⟨⟩
    exact Ty.below_of_effects_eq_nil rfl
  · exact (setActive_does h₂.valid none).bind fun _ _ h₃ _ => .pure h₃.valid
      (hp.2.advances h₃.unifier)

theorem bindPlaceholders_does (hc : c.Valid) (ds : List ValueDecl) :
    c.Does (bindPlaceholders ds) (fun ps c' => ps.map (·.1) = ds ∧
      ∀ p ∈ ps, p.2.Below c'.unifier.rowCount) := by
  induction ds generalizing c with
  | nil => exact .pure hc ⟨rfl, by simp⟩
  | cons d ds ih =>
    unfold bindPlaceholders
    refine .lift_bind hc (Unifier.freshType_does hc.unifier) fun t c₁ h₁ ht => ?_
    refine (bindMono_does h₁.valid d.name.text (ht _)).bind fun _ c₂ h₂ _ => ?_
    refine (ih h₂.valid).bind fun ps c₃ h₃ hps => .pure h₃.valid ⟨by simp [hps.1], ?_⟩
    simp only [List.mem_cons, forall_eq_or_imp]
    exact ⟨ht _, hps.2⟩

/-- Whether a state vouches for a checked declaration as one of `d`. -/
def Confirms (u : Unifier) (d : ValueDecl) (k : Checked) : Prop :=
  k.decl = d ∧ u.Vouches d.arity d.written? (k.body, k.effects)

theorem body_below {u : Unifier} {ds : List ValueDecl} {ks : List Checked}
    (h : List.Forall₂ (Confirms u) ds ks) : ∀ k ∈ ks, k.body.ty.Below u.rowCount := by
  induction h with
  | nil => simp
  | cons hk _ ih =>
    simp only [List.mem_cons, forall_eq_or_imp]
    exact ⟨hk.2.ty, ih⟩

theorem inferDecls_does (hr : r.RowsClosed) (hc : c.Valid) {ps : List (ValueDecl × Ty)}
    (hps : ∀ p ∈ ps, p.2.Below c.unifier.rowCount) :
    c.Does (inferDecls r ps) (fun ks c' =>
      List.Forall₂ (Confirms c'.unifier) (ps.map (·.1)) ks) := by
  induction ps generalizing c with
  | nil => exact .pure hc .nil
  | cons p ps ih =>
    obtain ⟨d, placeholder⟩ := p
    simp only [List.mem_cons, forall_eq_or_imp] at hps
    have hrest : ∀ {c' : Checker} {q : TExpr × Row}, c.Advances c' →
        c'.unifier.Vouches d.arity d.written? q → c'.Does (do
          Unifier.unify placeholder q.1.ty
            ((Provenance.of d.span .recursiveUse).relatedTo d.name.span)
          return ⟨d, q.1, q.2⟩ :: (← inferDecls r ps)) (fun ks c' =>
            List.Forall₂ (Confirms c'.unifier) (d :: ps.map (·.1)) ks) := by
      intro c' q h hq
      refine (unify_does h.valid (hps.1.mono h.rows) hq.ty _).bind fun _ c₁ h₁ _ => ?_
      refine (ih h₁.valid fun p hp => (hps.2 p hp).mono (h.trans h₁).rows).bind
        fun ks c₂ h₂ hks => .pure h₂.valid (.cons ⟨rfl, ?_⟩ hks)
      exact hq.advances (h₁.trans h₂).unifier
    unfold inferDecls
    refine (setScope_does hc).bind fun _ c₁ h₁ _ => ?_
    dsimp only
    cases d with
    | fn f => exact (inferFunction_does hr h₁.valid f).bind fun _ _ h hq => hrest (h₁.trans h) hq
    | active a => exact (inferActive_does hr h₁.valid a).bind fun _ _ h hq => hrest (h₁.trans h) hq

theorem closeSchemes_does (hc : c.Valid) (failed : Bool) {ks : List Checked}
    (hks : ∀ k ∈ ks, k.body.ty.Below c.unifier.rowCount) :
    c.Does (closeSchemes failed ks) (fun _ _ => True) := by
  induction ks generalizing c with
  | nil => exact .pure hc trivial
  | cons k ks ih =>
    simp only [List.mem_cons, forall_eq_or_imp] at hks
    have hrest : ∀ {c' : Checker} {s : Scheme}, c.Advances c' → c'.Does (do
        recordScheme k.decl.name s
        return (k.decl.name.text, s) :: (← closeSchemes failed ks)) (fun _ _ => True) := by
      intro c' s h
      refine (recordScheme_does h.valid _ _).bind fun _ c₁ h₁ _ => ?_
      exact (ih h₁.valid fun k hk => (hks.2 k hk).mono (h.trans h₁).rows).bind
        fun _ _ h₂ _ => .pure h₂.valid trivial
    unfold closeSchemes
    dsimp only
    split
    · exact hrest hc.advances
    · exact .get_bind (.lift_bind hc (Unifier.generalize_does hc.unifier hks.1 _ _)
        fun _ _ h _ => hrest h)

/-- Whatever group is checked, a state without errors at the end vouches for all its declarations:
every promise made on the way is fulfilled then. -/
theorem inferGroup_fulfils (hr : r.RowsClosed) (hc : c.Valid) (ds : List ValueDecl)
    (he : (inferGroup r ds c).2.unifier.errors = []) :
    (inferGroup r ds c).2.Valid ∧ ∃ u : Unifier, u.Fulfils (inferGroup r ds c).2.unifier ∧
      u.rowCount ≤ (inferGroup r ds c).2.unifier.rowCount ∧
      List.Forall₂ (Confirms u) ds (inferGroup r ds c).1 := by
  have hdoes : c.Does (do
      modifyEnv .pushScope
      let placeholders ← bindPlaceholders ds
      let checked ← inferDecls r placeholders
      modifyEnv .popScope
      return checked) (fun ks c' => List.Forall₂ (Confirms c'.unifier) ds ks) := by
    refine (pushScope_does hc).bind fun _ c₁ h₁ _ => ?_
    refine (bindPlaceholders_does h₁.valid ds).bind fun ps c₂ h₂ hps => ?_
    refine (inferDecls_does hr h₂.valid hps.2).bind fun ks c₃ h₃ hks => ?_
    refine (popScope_does h₃.valid).bind fun _ c₄ h₄ _ => .pure h₄.valid ?_
    rw [hps.1] at hks
    exact hks.imp fun d k hk => ⟨hk.1, hk.2.advances h₄.unifier⟩
  obtain ⟨hadv, hks⟩ := hdoes
  obtain ⟨hg, -⟩ := Unifier.finish_grows hadv.valid.unifier
  exact ⟨⟨hg.valid, hadv.valid.env.mono hg.rows, hadv.valid.context.mono hg.rows,
    hadv.valid.scope.mono hg.rows⟩, _, Unifier.finish_fulfils hadv.valid.unifier he, hg.rows, hks⟩

theorem start_valid {env : TypeEnv} (henv : env.Below 0) (tracing : Bool) :
    (start env tracing).Valid := by
  have hempty : Unifier.Valid { Unifier.empty with tracing } :=
    ⟨Substitution.empty_valid, fun c hc => by cases hc⟩
  obtain ⟨hadv, hrow⟩ := Unifier.freshRow_does hempty
  exact ⟨hadv.valid, henv.mono (Nat.zero_le _), hrow, TypeScope.below_opened _⟩

end Checker

/-- Whether the effects of a declaration are shown in full: the arrow of every lambda covers what
its body performs, the row of the declaration covers what it performs once it has all arguments, and
is the written one where that is closed. -/
structure TFunction.ShowsEffects (d : ValueDecl) (f : TFunction) : Prop where
  name : f.name = d.name.text
  lambdas : ∀ l ∈ f.body.lambdas, ∃ p q row, l.1.ty = .fn p q row ∧ row.Covers l.2.effects
  body : f.effects.Covers (f.body.peel d.arity).effects
  written : ∀ row ∈ d.written?, f.effects = row ∧
    ∀ x ∈ (f.body.peel d.arity).effects.labels, x ∈ row.labels

theorem RowExpr.tail_closed? {row : RowExpr} {e : Row} (h : row.closed? = some e) :
    e.tail = none := by
  unfold closed? at h
  split at h
  · cases h
    rfl
  · cases h

theorem ValueDecl.tail_written? {d : ValueDecl} {row : Row} (h : d.written? = some row) :
    row.tail = none := by
  cases d with
  | fn d =>
    obtain ⟨e, -, he⟩ := Option.bind_eq_some_iff.1 h
    exact RowExpr.tail_closed? he
  | active d => cases h

/-- A declaration that was vouched for shows its effects once all promises are fulfilled. -/
theorem Checker.Confirms.showsEffects {u v : Unifier} (h : u.Fulfils v) {d : ValueDecl}
    {k : Checker.Checked} (hk : Checker.Confirms u d k) (r : Registries) :
    ∃ f, (k.settle r v.substitution).function? = some f ∧ f.ShowsEffects d := by
  obtain ⟨rfl, hv⟩ := hk
  have hbody := h.exposes hv.exposes
  rw [← TExpr.peel_settle] at hbody
  have hshows : TFunction.ShowsEffects k.decl ⟨k.decl.name.text, k.decl.span,
      (k.body.settle v.substitution).ty, v.findRow k.effects, k.body.settle v.substitution⟩ := by
    refine ⟨rfl, h.shows hv.lambdas, hbody, fun row hrow => ?_⟩
    have heff : v.findRow k.effects = row := by
      obtain rfl := hv.written row hrow
      exact Unifier.findRow_closed (ValueDecl.tail_written? hrow)
    exact ⟨heff, heff ▸ hbody.labels⟩
  unfold Checker.Checked.settle
  dsimp only
  split <;> exact ⟨_, rfl, ‹_ = _› ▸ hshows⟩

/-- Once nothing was found at fault with a group, its declarations show their effects in each state that
is left of it. -/
theorem Checker.inferGroup_showsEffects {r : Registries} (hr : r.RowsClosed) {c : Checker}
    (hc : c.Valid) (ds : List ValueDecl) (he : (inferGroup r ds c).2.unifier.errors = [])
    {v : Unifier} (hv : (inferGroup r ds c).2.unifier.Grows v) :
    List.Forall₂ (fun d k => ∃ f, (k.settle r v.substitution).function? = some f ∧ f.ShowsEffects d)
      ds (inferGroup r ds c).1 := by
  obtain ⟨hvalid, u, hful, -, hks⟩ := inferGroup_fulfils hr hc ds he
  exact hks.imp fun d k hk => hk.showsEffects (hful.grows hvalid.unifier hv) r

/-- The declarations of an accepted group are settled after they were given their schemes, which closes
rows. -/
theorem checkGroup_settles {r : Registries} (hr : r.RowsClosed) {env : TypeEnv}
    (henv : env.Below 0) (tracing : Bool) {decls : List Decl}
    (h : (checkGroup r env tracing decls).diagnostics = []) :
    let last := Checker.inferGroup r (decls.filterMap Decl.value?) (.start env tracing)
    last.2.Valid ∧ (∀ k ∈ last.1, k.body.ty.Below last.2.unifier.rowCount) ∧
      (checkGroup r env tracing decls).schemes = (Checker.closeSchemes false last.1 last.2).1 ∧
      ∃ v, last.2.unifier.Grows v ∧
        (checkGroup r env tracing decls).decls = last.1.map (Checker.Checked.settle r v.substitution) := by
  intro last
  obtain ⟨hvalid, u, -, hrows, hks⟩ := Checker.inferGroup_fulfils hr
    (Checker.start_valid henv tracing) (decls.filterMap Decl.value?) h
  have hbelow : ∀ k ∈ last.1, k.body.ty.Below last.2.unifier.rowCount := fun k hk =>
    (Checker.body_below hks k hk).mono hrows
  have hfailed : last.2.unifier.errors.any (·.isError) = false := by
    rw [show last.2.unifier.errors = [] from h, List.any_nil]
  have hclose := (Checker.closeSchemes_does hvalid false hbelow).1
  rw [← hfailed] at hclose ⊢
  exact ⟨hvalid, hbelow, rfl, _, hclose.unifier.toGrows, rfl⟩

/-- A group that is accepted against closed schemes shows all its effects. The declared types
mention no row variables, as the definitions that any module collects
(`Module.registries_collected`). -/
theorem checkGroup_showsEffects {r : Registries} (hr : r.RowsClosed) {env : TypeEnv}
    (henv : env.Below 0) (tracing : Bool) {decls : List Decl}
    (h : (checkGroup r env tracing decls).diagnostics = []) :
    List.Forall₂ (fun d t => ∃ f, t.function? = some f ∧ f.ShowsEffects d)
      (decls.filterMap Decl.value?) (checkGroup r env tracing decls).decls := by
  obtain ⟨-, -, -, v, hv, hdecls⟩ := checkGroup_settles hr henv tracing h
  have hshows := Checker.inferGroup_showsEffects hr (Checker.start_valid henv tracing)
    (decls.filterMap Decl.value?) h hv
  rw [hdecls]
  exact List.forall₂_map_right_iff.2 hshows

/-- A function with a written row that hands its parameter to a function of its own:
`fn relay(x) [io] { (fn(y) { print(y) })(x) }`. -/
def relay : Decl :=
  let name := Name.mk .synthetic
  .fn ⟨.synthetic, name "relay", [⟨name "x", none⟩], none,
    some ⟨.synthetic, [name "io"], none⟩,
    .call .synthetic (.lam .synthetic [⟨name "y", none⟩]
      (.call .synthetic (.var .synthetic "print") [.var .synthetic "y"]))
      [.var .synthetic "x"]⟩

/-- An environment with one global function, which performs an effect. -/
def printing : TypeEnv :=
  .ofGlobals (.ofList [("print", .mono (.fn .string .unit (.closed ["io"])))])

theorem printing_below : printing.Below 0 where
  globals name s hs := by
    have hmem := SortedMap.mem_of_get?_ofList hs
    simp only [List.mem_singleton, Prod.mk.injEq] at hmem
    obtain ⟨-, rfl⟩ := hmem
    refine Scheme.below_mono_iff.2 (Ty.below_fn.2 ⟨?_, ?_, Row.below_closed rfl⟩)
    · exact Ty.below_of_effects_eq_nil rfl
    · exact Ty.below_of_effects_eq_nil rfl
  scopes scope hscope := by cases hscope

theorem relay_showsEffects :
    List.Forall₂ (fun d t => ∃ f, t.function? = some f ∧ f.ShowsEffects d)
      ([relay].filterMap Decl.value?)
      (checkGroup (Module.registries [relay]).1 printing false [relay]).decls :=
  checkGroup_showsEffects (Module.registries_collected [relay]).rowsClosed printing_below false
    (List.isEmpty_iff.1 (by decide +kernel))

end RowCheck
