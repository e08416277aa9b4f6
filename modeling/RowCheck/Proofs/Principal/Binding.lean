import RowCheck.Proofs.Principal.Rules

/-!
Binding names in the functional core: the parameters of a function, whose types are new variables, and
the scheme of a local name.
-/
namespace RowCheck
namespace Checker

open Unifier

variable {D : TyVar → Prop} {c c' : Checker} {f : TyVar → Ty}

theorem Tells.modify_bind {β : Type} {g : Checker → Checker} {k : PUnit → CheckM β}
    {R : β → Checker → Prop} (hg : (g c).unifier = c.unifier) (h : (g c).Tells (k ⟨⟩) R) :
    c.Tells (modify g >>= k) R := fun he =>
  ⟨(congrArg Unifier.errors hg).symm.trans (h he).1, (h he).2⟩

theorem Finds.modify_bind {β : Type} {g : Checker → Checker} {k : PUnit → CheckM β}
    {R : (TyVar → Ty) → β → Checker → Prop} (hg : (g c).unifier = c.unifier)
    (h : (g c).Finds f (k ⟨⟩) R) : c.Finds f (modify g >>= k) R := by
  obtain ⟨he, hle, f', hf', hagree, hr⟩ := h
  rw [hg] at hle hagree
  exact ⟨he, hle, f', hf', hagree, hr⟩

/-! ## Parameters -/

/-- What binding parameters does: each has a new variable for its type, which may be assigned any type,
and what was assumed goes on to be so with the parameters on top. -/
structure BindsParams (D : TyVar → Prop) (ps : List Param) (c : Checker) (bs : List Binder)
    (c' : Checker) : Prop where
  unifier : c.unifier.Idles D c'.unifier
  context : c'.context = c.context
  env : c'.env.Sits D c'.unifier
  scopes : c'.env.scopes ≠ []
  popScope : c'.env.popScope = c.env.popScope
  length : ps.length = bs.length
  owns : ∀ b ∈ bs, c'.unifier.Owns D b.ty
  assumed : ∀ (f : TyVar → Ty) (Γ : Assumptions), Γ.Covers f c.env →
    (Γ.bindParams ps (bs.map fun b => b.ty.under f)).Covers f c'.env
  assigned : ∀ (f : TyVar → Ty) (ts : List Ty), ps.length = ts.length →
    ∃ f', (∀ v < c.unifier.typeCount, f' v = f v) ∧ bs.map (fun b => b.ty.under f') = ts ∧
      ∀ Γ : Assumptions, c.env.Covers f Γ → c'.env.Covers f' (Γ.bindParams ps ts)

theorem bindParams_cons {p : Param} {ps : List Param} (hp : p.type = none) (hv : p.name.Valid)
    (c : Checker) : bindParams .empty (p :: ps) c =
      (⟨p.name.text, p.name.span, .var c.unifier.typeCount, none⟩ ::
        (bindParams .empty ps { c with
          unifier := (freshType c.unifier).2
          env := c.env.bind p.name.text (.mono (.var c.unifier.typeCount)) }).1,
        (bindParams .empty ps { c with
          unifier := (freshType c.unifier).2
          env := c.env.bind p.name.text (.mono (.var c.unifier.typeCount)) }).2) := by
  rw [bindParams, checkName_valid hv, hp]
  rfl

theorem bindParams_binds {ps : List Param} (hps : ∀ p ∈ ps, p.type = none ∧ p.name.Valid)
    (hu : c.unifier.Tidy D) (henv : c.env.Sits D c.unifier) (hscopes : c.env.scopes ≠ []) :
    BindsParams D ps c (bindParams .empty ps c).1 (bindParams .empty ps c).2 := by
  induction ps generalizing c with
  | nil =>
    exact ⟨hu.idles, rfl, henv, hscopes, rfl, rfl, List.forall_mem_nil _, fun _ _ h => h,
      fun f ts hts => ⟨f, fun _ _ => rfl, (List.length_eq_zero_iff.1 hts.symm).symm, fun _ h => h⟩⟩
  | cons p ps ih =>
    simp only [List.mem_cons, forall_eq_or_imp] at hps
    obtain ⟨-, hcount, hi, howns⟩ := freshType_idles hu
    have hmono : (Scheme.mono (.var c.unifier.typeCount)).Sits D (freshType c.unifier).2 :=
      Scheme.sits_mono.2 howns
    have h := ih hps.2 (c := { c with
      unifier := (freshType c.unifier).2
      env := c.env.bind p.name.text (.mono (.var c.unifier.typeCount)) })
      hi.tidy ((henv.pursues hi.toPursues).bind _ hmono fun _ hv => absurd hv List.not_mem_nil)
      (TypeEnv.scopes_bind_ne_nil c.env _ _)
    rw [bindParams_cons hps.1.1 hps.1.2]
    refine ⟨hi.trans h.unifier, h.context, h.env, h.scopes,
      h.popScope.trans (TypeEnv.popScope_bind hscopes ..), by simp [h.length], ?_, fun f Γ hΓ => ?_,
      fun f ts hts => ?_⟩
    · rw [List.forall_mem_cons]
      exact ⟨howns.pursues h.unifier.toPursues, h.owns⟩
    · exact h.assumed f _ (hΓ.bind _ fun t ht =>
        Scheme.admits_mono.2 (Scheme.admitsAt_mono.1 ht))
    · cases ts with
      | nil => cases hts
      | cons t ts =>
        have hbelow : ∀ v < c.unifier.typeCount,
            Function.update f c.unifier.typeCount t v = f v := fun v hv =>
          Function.update_of_ne hv.ne ..
        obtain ⟨f', hagree, hts', hcovers⟩ := h.assigned (Function.update f c.unifier.typeCount t) ts
          (by simpa using hts)
        have hlt : c.unifier.typeCount < (freshType c.unifier).2.typeCount := by omega
        have hself : f' c.unifier.typeCount = t :=
          (hagree _ hlt).trans (Function.update_self ..)
        refine ⟨f', fun v hv => (hagree v (hv.trans hlt)).trans (hbelow v hv), ?_, fun Γ hΓ => ?_⟩
        · rw [List.map_cons, hts', Ty.under_var, hself]
        · refine hcovers _ ((hΓ.congr henv hbelow).bind _ (fun τ hτ => ?_) fun v hv _ w hw => ?_)
          · rw [Scheme.admits_mono.1 hτ]
            exact Scheme.admitsAt_mono.2 (Function.update_self c.unifier.typeCount t f).symm
          · obtain rfl := List.mem_singleton.1 hv
            rw [Function.update_self] at hw
            exact ⟨_, List.mem_cons_self, hw, List.not_mem_nil⟩

theorem bindParams_errors {ps : List Param} (hps : ∀ p ∈ ps, p.type = none ∧ p.name.Valid)
    (c : Checker) : (bindParams .empty ps c).2.unifier.errors = c.unifier.errors := by
  induction ps generalizing c with
  | nil => rfl
  | cons p ps ih =>
    simp only [List.mem_cons, forall_eq_or_imp] at hps
    rw [bindParams_cons hps.1.1 hps.1.2]
    exact ih hps.2 _

theorem BindsParams.tidy {ps : List Param} {bs : List Binder}
    (h : BindsParams D ps { c with env := c.env.pushScope } bs c') (hc : c.Tidy D) : c'.Tidy D :=
  ⟨h.unifier.tidy, h.env, h.context ▸ hc.bare, h.context ▸ hc.below.mono h.unifier.rows⟩

/-- Parameters are bound in a scope of their own. -/
theorem bindParams_tells {ps : List Param} (hps : ∀ p ∈ ps, p.type = none ∧ p.name.Valid)
    (h : c.Faultless → c.Tidy D) :
    Tells { c with env := c.env.pushScope } (bindParams .empty ps) (fun bs c' => c.Tidy D ∧
      BindsParams D ps { c with env := c.env.pushScope } bs c') := by
  intro he
  have he₀ : c.Faultless := (bindParams_errors hps { c with env := c.env.pushScope }).symm.trans he
  exact ⟨he₀, h he₀, bindParams_binds hps (h he₀).unifier (h he₀).env.pushScope (List.cons_ne_nil _ _)⟩

/-- Parameters may be assigned any types. -/
theorem bindParams_finds {ps : List Param} (hps : ∀ p ∈ ps, p.type = none ∧ p.name.Valid)
    (he : c.Faultless) (hc : c.Tidy D) (hf : c.unifier.Allows f) {Γ : Assumptions}
    (hΓ : c.env.Covers f Γ) {ts : List Ty} (hlen : ps.length = ts.length) :
    Finds f { c with env := c.env.pushScope } (bindParams .empty ps) (fun f' bs c' =>
      BindsParams D ps { c with env := c.env.pushScope } bs c' ∧
        bs.map (fun b => b.ty.under f') = ts ∧ c'.env.Covers f' (Γ.bindParams ps ts)) := by
  have hb := bindParams_binds (c := { c with env := c.env.pushScope }) hps hc.unifier
    hc.env.pushScope (List.cons_ne_nil _ _)
  obtain ⟨f', hagree, hts, hcovers⟩ := hb.assigned f ts hlen
  exact ⟨hb.unifier.errors.trans he, hb.unifier.count, f',
    hb.unifier.allows' f' (hf.congr hc.unifier hagree), hagree, hb, hts, hcovers Γ hΓ.pushScope⟩

/-! ## Functions -/

/-- What checking an expression tells: its type is live, and the expression has it under every
assignment that is allowed, whatever is assumed that has all types of the environment. -/
structure Derives (D : TyVar → Prop) (e : Expr) (c : Checker) (t : Ty) (c' : Checker) : Prop where
  pursues : c.Pursues D c'
  owns : c'.unifier.Owns D t
  typed : ∀ f, c'.unifier.Allows f → ∀ Γ : Assumptions, Γ.Covers f c.env → e.HasType Γ (t.under f)

/-- Whether checking an expression tells that it has the type found. -/
def TellsType (D : TyVar → Prop) (e : Expr) (m : CheckM TExpr) : Prop :=
  ∀ c : Checker, (c.Faultless → c.Tidy D) → c.Tells m fun t c' => Derives D e c t.ty c'

/-- Whether checking an expression finds each type that it has. -/
def FindsType (D : TyVar → Prop) (e : Expr) (m : CheckM TExpr) : Prop :=
  ∀ (c : Checker) (f : TyVar → Ty) (Γ : Assumptions) (t : Ty), c.Faultless → c.Tidy D →
    c.unifier.Allows f → c.env.Covers f Γ → e.HasType Γ t →
    c.Finds f m fun f' t' _ => t'.ty.under f' = t

theorem lambdaChain_under (span : Span) (body : TExpr) (effects : Row) (bs : List Binder) :
    (lambdaChain span body effects bs).ty.under f =
      .curried (bs.map fun b => b.ty.under f) (body.ty.under f) .pure := by
  induction bs with
  | nil => rfl
  | cons b bs ih =>
    cases bs with
    | nil => rfl
    | cons b' bs => exact congrArg (Ty.arrow (b.ty.under f)) ih

theorem lambdaChain_owns {u : Unifier} {body : TExpr} (hbody : u.Owns D body.ty) {effects : Row}
    (hbare : effects.labels = ∅) (hbelow : effects.Below u.rowCount) (span : Span) {bs : List Binder}
    (hbs : ∀ b ∈ bs, u.Owns D b.ty) : u.Owns D (lambdaChain span body effects bs).ty := by
  induction bs with
  | nil => exact hbody
  | cons b bs ih =>
    rw [List.forall_mem_cons] at hbs
    cases bs with
    | nil => exact owns_fn.2 ⟨hbs.1, hbody, hbare, hbelow⟩
    | cons b' bs => exact owns_fn.2 ⟨hbs.1, ih hbs.2, rfl, Row.below_closed rfl⟩

/-- A body that is checked in a context of its own. -/
theorem inContext_tells {body : Expr} {m : CheckM TExpr} (hm : TellsType D body m)
    (h : c.Faultless → c.Tidy D) : c.Tells (inContext m none) (fun r c' =>
      Derives D body c r.1.ty c' ∧ r.2.labels = ∅ ∧ r.2.Below c'.unifier.rowCount) := by
  unfold inContext
  refine .get_bind ?_
  have hfresh : c.Tells (liftM freshRow) (fun r c' => c.Pursues D c' ∧ r.labels = ∅ ∧
      r.Below c'.unifier.rowCount) := .lift ⟨fun _ => List.prefix_refl _⟩ fun he _ => by
    obtain ⟨hi, hbare, hbelow⟩ := freshRow_idles (h he).unifier
    exact ⟨Idles.pursues hi, hbare, hbelow⟩
  refine hfresh.bind fun inner c₁ h₁ => .modify_bind rfl ?_
  refine (hm { c₁ with context := inner } fun he => ?_).bind fun e c₂ h₂ => ?_
  · obtain ⟨he₀, hp, hbare, hbelow⟩ := h₁ he
    have hc₁ := hp.tidy (h he₀)
    exact ⟨hc₁.unifier, hc₁.env, hbare, hbelow⟩
  · refine Tells.get_bind (.modify_bind rfl (.pure fun he => ?_))
    obtain ⟨he₁, hd⟩ := h₂ he
    obtain ⟨he₀, hp, hbare, hbelow⟩ := h₁ he₁
    have hcontext : c₂.context = inner := hd.pursues.context
    refine ⟨⟨⟨hp.unifier.trans hd.pursues.unifier, hd.pursues.env.trans hp.env, rfl⟩, hd.owns,
      fun f hf Γ hΓ => hd.typed f hf Γ ?_⟩, ?_, ?_⟩
    · show Γ.Covers f c₁.env
      rwa [hp.env]
    · rwa [hcontext]
    · rw [hcontext]
      exact hbelow.mono hd.pursues.unifier.rows

/-- A function has the type that is found for it. -/
theorem inferLambda_tells {params : List Param} (hps : ∀ p ∈ params, p.type = none ∧ p.name.Valid)
    {body : Expr} {m : CheckM TExpr} (hm : TellsType D body m) (h : c.Faultless → c.Tidy D)
    (span : Span) : c.Tells (inferLambda .empty params m span none none)
      (fun r c' => Derives D (.lam span params body) c r.1.ty c') := by
  unfold inferLambda
  refine .modify_bind rfl ?_
  refine (bindParams_tells hps h).bind fun bs c₁ h₁ => ?_
  dsimp only
  refine (inContext_tells hm fun he => ?_).bind fun r c₂ h₂ => ?_
  · obtain ⟨-, hc, hb⟩ := h₁ he
    exact hb.tidy hc
  · show c₂.Tells (modifyEnv .popScope >>= fun _ => pure (lambdaChain span r.1 r.2
      (if bs.isEmpty then [⟨"_", span, .unit, none⟩] else bs), r.2)) _
    refine .modify_bind rfl (.pure fun he => ?_)
    obtain ⟨he₁, hd, hbare, hbelow⟩ := h₂ he
    obtain ⟨he₀, hc, hb⟩ := h₁ he₁
    have hpop : c₂.env.popScope = c.env := by
      rw [hd.pursues.env, hb.popScope]
      rfl
    have hp : c.unifier.Pursues D c₂.unifier := hb.unifier.toPursues.trans hd.pursues.unifier
    refine ⟨⟨hp, hpop, hd.pursues.context.trans hb.context⟩, ?_, fun f hf Γ hΓ => ?_⟩
    · refine lambdaChain_owns hd.owns hbare hbelow span fun b hmem => ?_
      split at hmem
      · obtain rfl := List.mem_singleton.1 hmem
        exact owns_of_closed rfl rfl rfl
      · exact (hb.owns b hmem).pursues hd.pursues.unifier
    · have hassumed := hb.assumed f Γ hΓ.pushScope
      have hbody := hd.typed f hf _ hassumed
      rw [lambdaChain_under]
      cases params with
      | nil =>
        obtain rfl := List.length_eq_zero_iff.1 hb.length.symm
        exact .thunk hbody
      | cons p ps =>
        rw [if_neg (by
          have := hb.length
          cases bs with
          | nil => cases this
          | cons b bs => simp)]
        exact .lam (List.cons_ne_nil _ _) (by simpa using hb.length) hbody

theorem inContext_finds {body : Expr} {m : CheckM TExpr} (hm : FindsType D body m)
    {Γ : Assumptions} {t : Ty} (he : c.Faultless) (hc : c.Tidy D) (hf : c.unifier.Allows f)
    (hΓ : c.env.Covers f Γ) (ht : body.HasType Γ t) :
    c.Finds f (inContext m none) (fun f' r _ => r.1.ty.under f' = t) := by
  obtain ⟨hi, hbare, hbelow⟩ := freshRow_idles hc.unifier
  have hc₁ := (Idles.pursues hi).tidy hc
  have hfresh : c.Finds f (liftM freshRow) (fun f' inner c' => f' = f ∧ c'.env = c.env ∧
      Tidy D { c' with context := inner }) :=
    .lift he hi (hi.allows' f hf) (fun _ _ => rfl) ⟨rfl, rfl, hc₁.unifier, hc₁.env, hbare, hbelow⟩
  unfold inContext
  refine .get_bind (hfresh.bind fun f₁ inner c₁ he₁ hf₁ _ h₁ => .modify_bind rfl ?_)
  obtain ⟨rfl, henv, hc₁⟩ := h₁
  refine (hm { c₁ with context := inner } f₁ Γ t he₁ hc₁ hf₁ (henv ▸ hΓ) ht).bind
    fun f₂ e c₂ he₂ hf₂ _ h₂ => ?_
  refine Finds.get_bind (.modify_bind rfl (.pure ?_ ?_ ?_))
  · exact he₂
  · exact hf₂
  · exact h₂

/-- The types of the parameters and of the body of a function. -/
theorem hasType_lam {Γ : Assumptions} {span : Span} {params : List Param} {body : Expr} {t : Ty}
    (h : Expr.HasType Γ (.lam span params body) t) : ∃ ts u, params.length = ts.length ∧
      body.HasType (Γ.bindParams params ts) u ∧
      t = .curried (if params.isEmpty then [.unit] else ts) u .pure := by
  cases h with
  | thunk h => exact ⟨[], _, rfl, h, rfl⟩
  | @lam _ _ _ _ ts _ hne hlen h =>
    refine ⟨ts, _, hlen, h, ?_⟩
    rw [if_neg (by simpa using hne)]

/-- A function is found to have each type that it has. -/
theorem inferLambda_finds {params : List Param} (hps : ∀ p ∈ params, p.type = none ∧ p.name.Valid)
    {body : Expr} {m : CheckM TExpr} (hm : FindsType D body m) {Γ : Assumptions} {span : Span} {t : Ty}
    (he : c.Faultless) (hc : c.Tidy D) (hf : c.unifier.Allows f) (hΓ : c.env.Covers f Γ)
    (ht : Expr.HasType Γ (.lam span params body) t) :
    c.Finds f (inferLambda .empty params m span none none) (fun f' r _ => r.1.ty.under f' = t) := by
  obtain ⟨ts, u, hlen, hbody, rfl⟩ := hasType_lam ht
  unfold inferLambda
  refine .modify_bind rfl ((bindParams_finds hps he hc hf hΓ hlen).bind fun f₁ bs c₁ he₁ hf₁ _ h₁ => ?_)
  obtain ⟨hb, rfl, hcovers⟩ := h₁
  have hc₁ := hb.tidy hc
  dsimp only
  refine (inContext_finds hm he₁ hc₁ hf₁ hcovers hbody).bind fun f₂ r c₂ he₂ hf₂ hagree₂ h₂ => ?_
  show c₂.Finds f₂ (modifyEnv .popScope >>= fun _ => pure (lambdaChain span r.1 r.2
    (if bs.isEmpty then [⟨"_", span, .unit, none⟩] else bs), r.2)) _
  refine .modify_bind rfl (.pure ?_ ?_ ?_)
  · exact he₂
  · exact hf₂
  rw [lambdaChain_under, h₂]
  congr 1
  have hlen := hb.length
  cases params with
  | nil =>
    obtain rfl := List.length_eq_zero_iff.1 hlen.symm
    rfl
  | cons p ps =>
    cases bs with
    | nil => cases hlen
    | cons b bs =>
      refine List.map_congr_left fun b' hb' => Ty.under_congr fun v hv => ?_
      exact hagree₂ v ((hb.owns b' hb').live.vars v hv).1

/-! ## Local names -/

/-- The scheme of a local name is general for a value. Finding it changes nothing. -/
theorem localScheme_run (e value : Expr) (name : String) (t : Ty) (c : Checker) :
    (localScheme e value name t c).2.unifier = c.unifier ∧
      (localScheme e value name t c).2.env = c.env ∧
      (localScheme e value name t c).2.context = c.context ∧
      (c.unifier.Tidy D → (localScheme e value name t c).1 =
        if value.isValue then c.unifier.general c.env t else .mono t) := by
  by_cases hv : value.isValue = true
  · have hrun : localScheme e value name t c = ((generalize t c.env false c.unifier).1,
        (record .letGen e (generalize t c.env false c.unifier).1.ty name c).2) := by
      rw [localScheme, if_pos hv]
      rfl
    have hu := record_unifier .letGen e (generalize t c.env false c.unifier).1.ty name c
    rw [hrun, if_pos hv]
    exact ⟨hu.1, hu.2.1, hu.2.2, fun h => by rw [generalize_local h]⟩
  · rw [localScheme, if_neg hv, if_neg hv]
    exact ⟨rfl, rfl, rfl, fun _ => rfl⟩

end Checker
end RowCheck
