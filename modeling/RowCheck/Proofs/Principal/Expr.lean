import RowCheck.Proofs.Principal.Binding

/-!
Checking expressions of the functional core is sound and complete. The type that is found is one of the
expression under every assignment that is allowed in the end. If the expression has a type, under some
assignment, then nothing is at fault, and that type is the one found under an assignment that is allowed
in the end.
-/
namespace RowCheck
namespace Checker

open Unifier

variable {D : TyVar → Prop} {c c' c'' : Checker} {f : TyVar → Ty}

/-! ## Local names -/

/-- A local name can be bound, with some more variables dead: those that its scheme quantifies. -/
theorem Tidy.exists_bind (hc : c.Tidy D) {t : Ty} (ht : c.unifier.Owns D t) (value : Expr)
    (name : String) :
    ∃ D' : TyVar → Prop, (∀ v, D v → D' v) ∧ c.unifier.Tidy D' ∧
      (c.env.pushScope.bind name
        (if value.isValue then c.unifier.general c.env t else .mono t)).Sits D' c.unifier := by
  by_cases hv : value.isValue = true
  · obtain ⟨hsits, hq⟩ := general_sits hc.unifier ht c.env
    rw [if_pos hv]
    exact ⟨_, fun _ => .inl, hc.unifier.dead_general _,
      (sits_dead_general hc.unifier hc.env t).pushScope.bind name hsits hq⟩
  · rw [if_neg hv]
    exact ⟨D, fun _ => id, hc.unifier, hc.env.pushScope.bind name (Scheme.sits_mono.2 ht) nofun⟩

/-- A local name may be used as its scheme says. -/
theorem hasType_letIn (hc : c.Tidy D) {value body : Expr} {name : Name} {span : Span} {t u : Ty}
    {Γ : Assumptions} (hf : c.unifier.Allows f) (hΓ : Γ.Covers f c.env)
    (hvalue : ∀ g, c.unifier.Allows g → Γ.Covers g c.env → value.HasType Γ (t.under g))
    (hbody : ∀ Γ' : Assumptions, Γ'.Covers f (c.env.pushScope.bind name.text
      (if value.isValue then c.unifier.general c.env t else .mono t)) → body.HasType Γ' u) :
    Expr.HasType Γ (.letIn span name none value body) u := by
  by_cases hv : value.isValue = true
  · rw [if_pos hv] at hbody
    obtain ⟨g, vs, hg, hΓg, hvs, hadmits⟩ :=
      exists_general_of_covers hc.unifier hc.env t hf hΓ
    exact .letValue hv (hvalue g hg hΓg) hvs (hbody _ (hΓ.pushScope.bind name.text hadmits))
  · rw [if_neg hv] at hbody
    refine .letOther (Bool.not_eq_true _ ▸ hv) (hvalue f hf hΓ)
      (hbody _ (hΓ.pushScope.bind name.text fun τ hτ => ?_))
    exact Scheme.admits_mono.2 (Scheme.admitsAt_mono.1 hτ)

/-- The scheme of a local name has all types that may be assumed of it. -/
theorem exists_covers_of_letIn {value body : Expr} {name : Name} {span : Span} {u : Ty}
    {Γ : Assumptions} (h : Expr.HasType Γ (.letIn span name none value body) u) :
    ∃ τ, value.HasType Γ τ ∧ ∀ (c : Checker) (f : TyVar → Ty) (t : Ty), c.Tidy D →
      c.unifier.Allows f → c.env.Covers f Γ → t.under f = τ →
      ∃ a, Expr.HasType ((name.text, a) :: Γ) body u ∧ (c.env.pushScope.bind name.text
        (if value.isValue then c.unifier.general c.env t else .mono t)).Covers f
          ((name.text, a) :: Γ) := by
  cases h with
  | letValue hv hvalue hvs hbody =>
    refine ⟨_, hvalue, fun c f t hc hf hΓ ht => ⟨_, hbody, ?_⟩⟩
    rw [if_pos hv]
    refine hΓ.pushScope.bind name.text (fun τ hτ => ?_) fun w hw hq x hx => ?_
    · exact admitsAt_general hc.unifier hc.env hf hΓ hvs (ht ▸ hτ)
    · exact (fixes_of_covers hc.unifier hc.env hf hΓ hw hq hx).cons _
  | letOther hv hvalue hbody =>
    refine ⟨_, hvalue, fun c f t hc hf hΓ ht => ⟨_, hbody, ?_⟩⟩
    rw [hv, if_neg Bool.false_ne_true]
    refine hΓ.pushScope.bind name.text (fun τ hτ => ?_) fun w hw _ x hx => ?_
    · rw [Scheme.admits_mono.1 hτ]
      exact Scheme.admitsAt_mono.2 ht.symm
    · exact ⟨_, List.mem_cons_self, ht ▸ Ty.mem_vars_under.2 ⟨w, hw, hx⟩, List.not_mem_nil⟩

/-! ## Soundness -/

theorem Derives.record (h : c.Faultless → c.Tidy D) {e : Expr} {t : Ty} (hd : c'.Faultless →
    c.Faultless ∧ Derives D e c t c') (rule : InferRule) (e' : Expr) (t' : Ty) (detail : String) :
    c'.Tells (record rule e' t' detail) (fun _ c'' => Derives D e c t c'') := by
  refine (record_tells (D := D) (fun he => (hd he).2.pursues.tidy (h (hd he).1)) _ _ _ _).imp
    fun _ c'' he hp => ?_
  obtain ⟨he₀, hd⟩ := hd he
  exact ⟨hd.pursues.trans hp, hd.owns.pursues hp.unifier,
    fun f hf => hd.typed f (hp.allows (hd.pursues.tidy (h he₀)) hf)⟩

theorem infer_letIn {name : Name} (hname : name.Valid) (span : Span) (value body : Expr) :
    infer .empty (.letIn span name none value body) = (do
      let v ← infer .empty value
      let s ← localScheme (.letIn span name none value body) value name.text v.ty
      modifyEnv .pushScope
      modifyEnv (fun env => env.bind name.text s)
      let b ← infer .empty body
      modifyEnv .popScope
      record .letIn (.letIn span name none value body) b.ty name.text
      return .letIn (.quiet span b.ty) ⟨name.text, name.span, v.ty, none⟩ v b) := by
  rw [infer, checkName_valid hname]
  rfl

/-- A local name is checked with the variables dead that it quantifies, and they are live again after its
scope. -/
theorem letIn_tells {value body : Expr} (hvalue : TellsType D value (infer .empty value))
    (hbody : ∀ D', TellsType D' body (infer .empty body)) {name : Name} (hname : name.Valid)
    (span : Span) : TellsType D (.letIn span name none value body)
      (infer .empty (.letIn span name none value body)) := by
  intro c h
  rw [infer_letIn hname]
  refine (hvalue c h).bind fun v c₁ h₁ => ?_
  have hlocal : c₁.Tells (localScheme (.letIn span name none value body) value name.text v.ty)
      (fun s c₂ => c₂.unifier = c₁.unifier ∧ c₂.env = c₁.env ∧ c₂.context = c₁.context ∧
        s = if value.isValue then c₁.unifier.general c₁.env v.ty else .mono v.ty) := by
    intro he
    obtain ⟨hu, henv, hcontext, hscheme⟩ :=
      localScheme_run (D := D) (.letIn span name none value body) value name.text v.ty c₁
    have he₁ : c₁.Faultless := (congrArg Unifier.errors hu).symm.trans he
    exact ⟨he₁, hu, henv, hcontext,
      hscheme ((h₁ he₁).2.pursues.tidy (h (h₁ he₁).1)).unifier⟩
  refine hlocal.bind fun s c₂ h₂ => .modify_bind rfl (.modify_bind rfl ?_)
  obtain ⟨D', hD⟩ : ∃ D' : TyVar → Prop, c₂.Faultless → (∀ v, D v → D' v) ∧
      Tidy D' { c₂ with env := c₂.env.pushScope.bind name.text s } := by
    by_cases he : c₂.Faultless
    · obtain ⟨he₁, hu, henv, hcontext, rfl⟩ := h₂ he
      have hc₁ := (h₁ he₁).2.pursues.tidy (h (h₁ he₁).1)
      obtain ⟨D', hD, htidy, hsits⟩ := hc₁.exists_bind (h₁ he₁).2.owns value name.text
      refine ⟨D', fun _ => ⟨hD, hu.symm ▸ htidy, ?_, hcontext.symm ▸ hc₁.bare, ?_⟩⟩
      · show TypeEnv.Sits D' c₂.unifier (c₂.env.pushScope.bind _ _)
        rwa [henv, hu]
      · show c₂.context.Below c₂.unifier.rowCount
        rw [hcontext, hu]
        exact hc₁.below
    · exact ⟨D, fun h => absurd h he⟩
  refine (hbody D' { c₂ with env := c₂.env.pushScope.bind name.text s } fun he => (hD he).2).bind
    fun b c₃ h₃ => .modify_bind rfl ?_
  refine (Derives.record (D := D) (c := c) (e := .letIn span name none value body) (t := b.ty) h
    (fun he => ?_) _ _ _ _).bind fun _ c₄ h₄ => .pure fun he => (h₄ he).2
  obtain ⟨he₂, hb⟩ := h₃ he
  obtain ⟨he₁, hu, henv, hcontext, rfl⟩ := h₂ he₂
  obtain ⟨he₀, hv⟩ := h₁ he₁
  obtain ⟨hD, hc₂⟩ := hD he₂
  have hc₁ := hv.pursues.tidy (h he₀)
  have hrest : c₁.unifier.Pursues D c₃.unifier :=
    (hu ▸ hb.pursues.unifier : c₁.unifier.Pursues D' c₃.unifier).anti hc₁.unifier hD
  have hpop : c₃.env.popScope = c.env := by
    rw [hb.pursues.env, henv, TypeEnv.popScope_bind (List.cons_ne_nil _ _), hv.pursues.env]
    rfl
  refine ⟨he₀, ⟨⟨hv.pursues.unifier.trans hrest, hpop,
    hb.pursues.context.trans (hcontext.trans hv.pursues.context)⟩,
    ⟨hb.owns.live.anti hD, hb.owns.below⟩, fun f hf Γ hΓ => ?_⟩⟩
  have hf₁ := hrest.allows hc₁.unifier hf
  refine hasType_letIn (t := v.ty) hc₁ hf₁ (hv.pursues.env.symm ▸ hΓ) (fun g hg hΓg => ?_)
    fun Γ' hΓ' => ?_
  · exact hv.typed g hg Γ (hv.pursues.env ▸ hΓg)
  · refine hb.typed f hf Γ' ?_
    show Γ'.Covers f (c₂.env.pushScope.bind _ _)
    rwa [henv]

/-- What checking a list of expressions tells. -/
structure DerivesAll (D : TyVar → Prop) (es : List Expr) (c : Checker) (ts : List Ty) (c' : Checker) :
    Prop where
  pursues : c.Pursues D c'
  owns : ∀ t ∈ ts, c'.unifier.Owns D t
  typed : ∀ f, c'.unifier.Allows f → ∀ Γ : Assumptions, Γ.Covers f c.env →
    Expr.HaveTypes Γ es (ts.map (Ty.under f))

/-- What checking a call tells: the callee is a function of the arguments whose result has the type of
the call. -/
structure DerivesCall (D : TyVar → Prop) (callee : Ty) (args : List Expr) (c : Checker) (t : Ty)
    (c' : Checker) : Prop where
  pursues : c.Pursues D c'
  owns : c'.unifier.Owns D t
  typed : ∀ f, c'.unifier.Allows f → ∀ Γ : Assumptions, Γ.Covers f c.env →
    ∃ ts, Expr.HaveTypes Γ args ts ∧ callee.under f = .curried ts (t.under f) .pure

theorem requireBool_tells {e : TExpr} (h : c.Faultless → c.Tidy D ∧ c.unifier.Owns D e.ty) :
    c.Tells (liftM (requireBool e)) (fun _ c' => c.Pursues D c' ∧
      ∀ f, c'.unifier.Allows f → e.ty.under f = .bool) :=
  (unify_tells (D := D) (fun he => ⟨(h he).1, owns_of_closed rfl rfl rfl, (h he).2⟩) _).imp
    fun _ _ _ hp => ⟨hp.1, fun f hf => (hp.2 f hf).symm⟩

theorem lit_tells {value : Literal} (hrange : value.InRange) (span : Span) (D : TyVar → Prop) :
    TellsType D (.lit span value) (infer .empty (.lit span value)) := by
  intro c h
  rw [infer, checkLiteral_inRange hrange]
  have hd : c.Faultless → c.Faultless ∧ Derives D (.lit span value) c value.ty c := fun he => by
    refine ⟨he, (h he).pursues, owns_literal value, fun f _ Γ _ => ?_⟩
    rw [Ty.under_literal]
    exact .lit
  exact (Derives.record h hd _ _ _ _).bind fun _ c₁ h₁ => .pure fun he => (h₁ he).2

theorem var_tells (span : Span) (name : String) (D : TyVar → Prop) :
    TellsType D (.var span name) (infer .empty (.var span name)) := by
  intro c h
  rw [infer]
  refine (inferVar_tells h _ name).imp fun t c' _ ht => ?_
  obtain ⟨hp, howns, s, hs, hadmits⟩ := ht
  refine ⟨hp, howns, fun f _ Γ hΓ => ?_⟩
  obtain ⟨a, ha, hcovers⟩ := hΓ name s hs
  exact .var ha (hcovers _ (hadmits f))

theorem lam_tells {params : List Param} (hps : ∀ p ∈ params, p.type = none ∧ p.name.Valid) {body : Expr}
    (hbody : TellsType D body (infer .empty body)) (span : Span) :
    TellsType D (.lam span params body) (infer .empty (.lam span params body)) := by
  intro c h
  rw [infer]
  refine (inferLambda_tells hps hbody h span).bind fun r c₁ h₁ => ?_
  exact (Derives.record (D := D) h h₁ _ _ _ _).bind fun _ c₂ h₂ => .pure fun he => (h₂ he).2

theorem cond_tells {condition onTrue onFalse : Expr}
    (hcondition : TellsType D condition (infer .empty condition))
    (hTrue : TellsType D onTrue (infer .empty onTrue))
    (hFalse : TellsType D onFalse (infer .empty onFalse)) (span : Span) :
    TellsType D (.cond span condition onTrue onFalse)
      (infer .empty (.cond span condition onTrue onFalse)) := by
  intro c h
  rw [infer]
  refine (hcondition c h).bind fun b c₁ h₁ => ?_
  have hc₁ : c₁.Faultless → c₁.Tidy D := fun he => (h₁ he).2.pursues.tidy (h (h₁ he).1)
  refine (requireBool_tells (D := D) fun he => ⟨hc₁ he, (h₁ he).2.owns⟩).bind fun _ c₂ h₂ => ?_
  have hc₂ : c₂.Faultless → c₂.Tidy D := fun he => (h₂ he).2.1.tidy (hc₁ (h₂ he).1)
  refine (hTrue c₂ hc₂).bind fun t c₃ h₃ => ?_
  have hc₃ : c₃.Faultless → c₃.Tidy D := fun he => (h₃ he).2.pursues.tidy (hc₂ (h₃ he).1)
  refine (hFalse c₃ hc₃).bind fun e c₄ h₄ => ?_
  have hc₄ : c₄.Faultless → c₄.Tidy D := fun he => (h₄ he).2.pursues.tidy (hc₃ (h₄ he).1)
  refine (unify_tells (D := D) (fun he => ⟨hc₄ he,
    (h₃ (h₄ he).1).2.owns.pursues (h₄ he).2.pursues.unifier, (h₄ he).2.owns⟩) _).bind fun _ c₅ h₅ => ?_
  refine (Derives.record (D := D) (c := c) (e := .cond span condition onTrue onFalse) (t := t.ty) h
    (fun he => ?_) _ _ _ _).bind fun _ c₆ h₆ => .pure fun he => (h₆ he).2
  obtain ⟨he₄, hp₅, hsame⟩ := h₅ he
  obtain ⟨he₃, hd₄⟩ := h₄ he₄
  obtain ⟨he₂, hd₃⟩ := h₃ he₃
  obtain ⟨he₁, hp₂, hbool⟩ := h₂ he₂
  obtain ⟨he₀, hd₁⟩ := h₁ he₁
  have henv₂ := hp₂.env.trans hd₁.pursues.env
  have henv₃ := hd₃.pursues.env.trans henv₂
  refine ⟨he₀, (((hd₁.pursues.trans hp₂).trans hd₃.pursues).trans hd₄.pursues).trans hp₅,
    hd₃.owns.pursues (hd₄.pursues.trans hp₅).unifier, fun f hf Γ hΓ => ?_⟩
  have hf₄ := hp₅.allows (hc₄ he₄) hf
  have hf₃ := hd₄.pursues.allows (hc₃ he₃) hf₄
  have hf₂ := hd₃.pursues.allows (hc₂ he₂) hf₃
  have hf₁ := hp₂.allows (hc₁ he₁) hf₂
  refine .cond (hbool f hf₂ ▸ hd₁.typed f hf₁ Γ hΓ) (hd₃.typed f hf₃ Γ (henv₂ ▸ hΓ)) ?_
  exact hsame f hf ▸ hd₄.typed f hf₄ Γ (henv₃ ▸ hΓ)

theorem inferList_tells {es : List Expr} (hes : ∀ e ∈ es, TellsType D e (infer .empty e)) {c : Checker}
    (h : c.Faultless → c.Tidy D) :
    c.Tells (inferList .empty es) (fun ts c' => DerivesAll D es c (ts.map TExpr.ty) c') := by
  induction es generalizing c with
  | nil =>
    rw [inferList]
    exact .pure fun he => ⟨(h he).pursues, List.forall_mem_nil _, fun _ _ _ _ => .nil⟩
  | cons e es ih =>
    rw [List.forall_mem_cons] at hes
    rw [inferList]
    refine (hes.1 c h).bind fun t c₁ h₁ => ?_
    have hc₁ : c₁.Faultless → c₁.Tidy D := fun he => (h₁ he).2.pursues.tidy (h (h₁ he).1)
    refine (ih hes.2 hc₁).bind fun ts c₂ h₂ => .pure fun he => ?_
    obtain ⟨he₁, hds⟩ := h₂ he
    obtain ⟨he₀, hd⟩ := h₁ he₁
    refine ⟨hd.pursues.trans hds.pursues, ?_, fun f hf Γ hΓ => ?_⟩
    · rw [List.map_cons, List.forall_mem_cons]
      exact ⟨hd.owns.pursues hds.pursues.unifier, hds.owns⟩
    · exact .cons (hd.typed f (hds.pursues.allows (hc₁ he₁) hf) Γ hΓ)
        (hds.typed f hf Γ (hd.pursues.env.symm ▸ hΓ))

theorem tuple_tells {items : List Expr} (hitems : ∀ e ∈ items, TellsType D e (infer .empty e))
    (span : Span) : TellsType D (.tuple span items) (infer .empty (.tuple span items)) := by
  intro c h
  rw [infer]
  refine (inferList_tells hitems h).bind fun ts c₁ h₁ => ?_
  refine (Derives.record (D := D) (c := c) (e := .tuple span items) (t := .tuple (ts.map TExpr.ty)) h
    (fun he => ?_) _ _ _ _).bind fun _ c₂ h₂ => .pure fun he => (h₂ he).2
  obtain ⟨he₀, hd⟩ := h₁ he
  refine ⟨he₀, hd.pursues, owns_tuple.2 hd.owns, fun f hf Γ hΓ => ?_⟩
  rw [Ty.under_tuple]
  exact .tuple (hd.typed f hf Γ hΓ)

theorem lastType_under (ts : List TExpr) :
    (lastType ts).under f = (((ts.map TExpr.ty).map (Ty.under f)).getLast?).getD .unit := by
  rw [lastType, List.getLast?_map, List.getLast?_map]
  cases ts.getLast? <;> rfl

theorem lastType_owns {u : Unifier} {ts : List TExpr} (h : ∀ t ∈ ts.map TExpr.ty, u.Owns D t) :
    u.Owns D (lastType ts) := by
  unfold lastType
  split
  · rename_i e he
    exact h _ (List.mem_map_of_mem (List.mem_of_getLast? he))
  · exact owns_of_closed rfl rfl rfl

theorem seq_tells {items : List Expr} (hitems : ∀ e ∈ items, TellsType D e (infer .empty e))
    (span : Span) : TellsType D (.seq span items) (infer .empty (.seq span items)) := by
  intro c h
  rw [infer]
  refine (inferList_tells hitems h).bind fun ts c₁ h₁ => .pure fun he => ?_
  obtain ⟨-, hd⟩ := h₁ he
  refine ⟨hd.pursues, lastType_owns hd.owns, fun f hf Γ hΓ => ?_⟩
  show Expr.HasType Γ (.seq span items) ((lastType ts).under f)
  rw [lastType_under]
  exact .seq (hd.typed f hf Γ hΓ)

theorem inferCall_tells {args : List Expr} (hargs : ∀ e ∈ args, TellsType D e (infer .empty e))
    {c : Checker} {callee : TExpr} (h : c.Faultless → c.Tidy D ∧ c.unifier.Owns D callee.ty)
    (funcSpan span : Span) : c.Tells (inferCall .empty funcSpan span callee args) (fun t c' =>
      DerivesCall D callee.ty args c t.ty c') := by
  induction args generalizing c callee with
  | nil =>
    rw [inferCall]
    exact .pure fun he => ⟨(h he).1.pursues, (h he).2, fun _ _ _ _ => ⟨[], .nil, rfl⟩⟩
  | cons a args ih =>
    rw [List.forall_mem_cons] at hargs
    rw [inferCall]
    refine (hargs.1 c fun he => (h he).1).bind fun arg c₁ h₁ => ?_
    have hc₁ : c₁.Faultless → c₁.Tidy D := fun he => (h₁ he).2.pursues.tidy (h (h₁ he).1).1
    refine (applyTo_tells (D := D) (fun he => ⟨hc₁ he,
      (h (h₁ he).1).2.pursues (h₁ he).2.pursues.unifier, (h₁ he).2.owns⟩) funcSpan span).bind
      fun next c₂ h₂ => ?_
    have hc₂ : c₂.Faultless → c₂.Tidy D := fun he => (h₂ he).2.1.tidy (hc₁ (h₂ he).1)
    intro he
    obtain ⟨he₂, hd₃⟩ := ih hargs.2 (fun he => ⟨hc₂ he, (h₂ he).2.2.1⟩) he
    obtain ⟨he₁, hp₂, -, happly⟩ := h₂ he₂
    obtain ⟨he₀, hd₁⟩ := h₁ he₁
    refine ⟨he₂, (hd₁.pursues.trans hp₂).trans hd₃.pursues, hd₃.owns, fun f hf Γ hΓ => ?_⟩
    have hf₂ := hd₃.pursues.allows (hc₂ he₂) hf
    have hf₁ := hp₂.allows (hc₁ he₁) hf₂
    obtain ⟨ts, hts, hnext⟩ := hd₃.typed f hf Γ ((hp₂.env.trans hd₁.pursues.env).symm ▸ hΓ)
    refine ⟨arg.ty.under f :: ts, .cons (hd₁.typed f hf₁ Γ hΓ) hts, ?_⟩
    rw [happly f hf₂, hnext, Ty.curried_cons]

theorem call_tells {func : Expr} {args : List Expr} (hfunc : TellsType D func (infer .empty func))
    (hargs : ∀ e ∈ args, TellsType D e (infer .empty e)) (span : Span) :
    TellsType D (.call span func args) (infer .empty (.call span func args)) := by
  intro c h
  rw [infer]
  refine (hfunc c h).bind fun callee c₁ h₁ => ?_
  have hc₁ : c₁.Faultless → c₁.Tidy D := fun he => (h₁ he).2.pursues.tidy (h (h₁ he).1)
  cases args with
  | nil =>
    refine Tells.bind (applyTo_tells (D := D) (fun he =>
      ⟨hc₁ he, (h₁ he).2.owns, owns_of_closed rfl rfl rfl⟩) _ _) fun t c₂ h₂ => ?_
    refine (Derives.record (D := D) (c := c) (e := .call span func []) (t := t.ty) h
      (fun he => ?_) _ _ _ _).bind fun _ c₃ h₃ => .pure fun he => (h₃ he).2
    obtain ⟨he₁, hp₂, howns, happly⟩ := h₂ he
    obtain ⟨he₀, hd₁⟩ := h₁ he₁
    refine ⟨he₀, hd₁.pursues.trans hp₂, howns, fun f hf Γ hΓ => .force ?_⟩
    exact happly f hf ▸ hd₁.typed f (hp₂.allows (hc₁ he₁) hf) Γ hΓ
  | cons a args =>
    refine Tells.bind (inferCall_tells hargs (fun he => ⟨hc₁ he, (h₁ he).2.owns⟩) _ _) fun t c₂ h₂ => ?_
    refine (Derives.record (D := D) (c := c) (e := .call span func (a :: args)) (t := t.ty) h
      (fun he => ?_) _ _ _ _).bind fun _ c₃ h₃ => .pure fun he => (h₃ he).2
    obtain ⟨he₁, hd₂⟩ := h₂ he
    obtain ⟨he₀, hd₁⟩ := h₁ he₁
    refine ⟨he₀, hd₁.pursues.trans hd₂.pursues, hd₂.owns, fun f hf Γ hΓ => ?_⟩
    obtain ⟨ts, hts, hcallee⟩ := hd₂.typed f hf Γ (hd₁.pursues.env.symm ▸ hΓ)
    refine .call (List.cons_ne_nil _ _) ?_ hts
    exact hcallee ▸ hd₁.typed f (hd₂.pursues.allows (hc₁ he₁) hf) Γ hΓ

/-! ## Completeness -/

theorem lit_finds {value : Literal} (hrange : value.InRange) (span : Span) (D : TyVar → Prop) :
    FindsType D (.lit span value) (infer .empty (.lit span value)) := by
  intro c f Γ t he _ hf _ ht
  cases ht with | lit =>
  rw [infer, checkLiteral_inRange hrange]
  refine (record_finds he hf .literal (.lit span value) value.ty "").bind
    fun f₁ _ c₁ he₁ hf₁ _ _ => .pure he₁ hf₁ ?_
  exact Ty.under_literal value

theorem var_finds (span : Span) (name : String) (D : TyVar → Prop) :
    FindsType D (.var span name) (infer .empty (.var span name)) := by
  intro c f Γ t he hc hf hΓ ht
  cases ht with | var ha hadmits =>
  obtain ⟨s, hs, hcovers⟩ := hΓ.uses name _ ha
  rw [infer]
  exact inferVar_finds he hc hf _ hs (hcovers t hadmits)

theorem lam_finds {params : List Param} (hps : ∀ p ∈ params, p.type = none ∧ p.name.Valid) {body : Expr}
    (hbody : FindsType D body (infer .empty body)) (span : Span) :
    FindsType D (.lam span params body) (infer .empty (.lam span params body)) := by
  intro c f Γ t he hc hf hΓ ht
  rw [infer]
  refine (inferLambda_finds hps hbody he hc hf hΓ ht).bind fun f₁ r c₁ he₁ hf₁ _ h₁ => ?_
  refine (record_finds he₁ hf₁ _ _ _ _).bind fun f₂ _ c₂ he₂ hf₂ _ h₂ => .pure he₂ hf₂ ?_
  exact h₂.1 ▸ h₁

/-- Whether checking an expression tells that it has the type found and finds each type that it has. -/
structure Determines (D : TyVar → Prop) (e : Expr) : Prop where
  tells : TellsType D e (infer .empty e)
  finds : FindsType D e (infer .empty e)

theorem Determines.told {e : Expr} (h : Determines D e) {Γ : Assumptions} {t : Ty} (he : c.Faultless)
    (hc : c.Tidy D) (hf : c.unifier.Allows f) (hΓ : c.env.Covers f Γ) (hty : e.HasType Γ t) :
    c.Finds f (infer .empty e) (fun f' t' c' =>
      c.Pursues D c' ∧ c'.Tidy D ∧ c'.unifier.Owns D t'.ty ∧ t'.ty.under f' = t) :=
  ((h.finds c f Γ t he hc hf hΓ hty).told (h.tells c fun _ => hc)).imp fun _ _ _ _ h =>
    ⟨h.1.pursues, h.1.pursues.tidy hc, h.1.owns, h.2⟩

/-- A type that is live is the same under assignments that agree on what was made. -/
theorem under_of_owns {u : Unifier} {t : Ty} {g : TyVar → Ty} (h : u.Owns D t)
    (hfg : ∀ v < u.typeCount, g v = f v) : t.under g = t.under f :=
  Ty.under_congr fun v hv => hfg v (h.live.vars v hv).1

/-- In a later state of the same scope the environment has the types that are assumed. -/
theorem Pursues.covers (h : c.Pursues D c') (hc : c.Tidy D) {g : TyVar → Ty} {Γ : Assumptions}
    (hΓ : c.env.Covers f Γ) (hfg : ∀ v < c.unifier.typeCount, g v = f v) : c'.env.Covers g Γ :=
  h.env.symm ▸ hΓ.congr hc.env hfg

theorem cond_finds {condition onTrue onFalse : Expr} (hcondition : Determines D condition)
    (hTrue : Determines D onTrue) (hFalse : Determines D onFalse) (span : Span) :
    FindsType D (.cond span condition onTrue onFalse)
      (infer .empty (.cond span condition onTrue onFalse)) := by
  intro c f Γ t he hc hf hΓ ht
  cases ht with | cond hb ht hf' =>
  rw [infer]
  refine (hcondition.told he hc hf hΓ hb).bind fun f₁ b c₁ he₁ hf₁ hagree₁ h₁ => ?_
  obtain ⟨hp₁, hc₁, howns₁, hbool⟩ := h₁
  have hΓ₁ := hp₁.covers hc hΓ hagree₁
  refine (unify_finds (a := .bool) he₁ hc₁ hf₁ (owns_of_closed rfl rfl rfl) howns₁ hbool.symm _).bind
    fun f₂ _ c₂ he₂ hf₂ _ h₂ => ?_
  obtain ⟨rfl, hp₂⟩ := h₂
  have hc₂ := hp₂.tidy hc₁
  have hΓ₂ := hp₂.covers hc₁ hΓ₁ fun _ _ => rfl
  refine (hTrue.told he₂ hc₂ hf₂ hΓ₂ ht).bind fun f₃ a c₃ he₃ hf₃ hagree₃ h₃ => ?_
  obtain ⟨hp₃, hc₃, howns₃, ha⟩ := h₃
  have hΓ₃ := hp₃.covers hc₂ hΓ₂ hagree₃
  refine (hFalse.told he₃ hc₃ hf₃ hΓ₃ hf').bind fun f₄ e c₄ he₄ hf₄ hagree₄ h₄ => ?_
  obtain ⟨hp₄, hc₄, howns₄, he'⟩ := h₄
  have ha₄ : a.ty.under f₄ = t := (under_of_owns howns₃ hagree₄).trans ha
  refine (unify_finds he₄ hc₄ hf₄ (howns₃.pursues hp₄.unifier) howns₄ (ha₄.trans he'.symm) _).bind
    fun f₅ _ c₅ he₅ hf₅ _ h₅ => ?_
  obtain ⟨rfl, -⟩ := h₅
  refine (record_finds he₅ hf₅ _ _ _ _).bind fun f₆ _ c₆ he₆ hf₆ _ h₆ => .pure he₆ hf₆ ?_
  exact h₆.1 ▸ ha₄

theorem inferList_finds {es : List Expr} (hes : ∀ e ∈ es, Determines D e) {c : Checker} {f : TyVar → Ty}
    {Γ : Assumptions} {ts : List Ty} (he : c.Faultless) (hc : c.Tidy D) (hf : c.unifier.Allows f)
    (hΓ : c.env.Covers f Γ) (hts : Expr.HaveTypes Γ es ts) : c.Finds f (inferList .empty es)
      (fun f' ts' _ => (ts'.map TExpr.ty).map (Ty.under f') = ts) := by
  induction es generalizing c f ts with
  | nil =>
    cases hts
    rw [inferList]
    exact .pure he hf rfl
  | cons e es ih =>
    cases hts with | cons ht hts =>
    rw [List.forall_mem_cons] at hes
    rw [inferList]
    refine (hes.1.told he hc hf hΓ ht).bind fun f₁ t₁ c₁ he₁ hf₁ hagree₁ h₁ => ?_
    obtain ⟨hp₁, hc₁, howns₁, ht₁⟩ := h₁
    refine (ih hes.2 he₁ hc₁ hf₁ (hp₁.covers hc hΓ hagree₁) hts).bind
      fun f₂ ts₂ c₂ he₂ hf₂ hagree₂ h₂ => .pure he₂ hf₂ ?_
    rw [List.map_cons, List.map_cons, h₂, under_of_owns howns₁ hagree₂, ht₁]

theorem tuple_finds {items : List Expr} (hitems : ∀ e ∈ items, Determines D e) (span : Span) :
    FindsType D (.tuple span items) (infer .empty (.tuple span items)) := by
  intro c f Γ t he hc hf hΓ ht
  cases ht with | tuple hts =>
  rw [infer]
  refine (inferList_finds hitems he hc hf hΓ hts).bind fun f₁ ts c₁ he₁ hf₁ _ h₁ => ?_
  refine (record_finds he₁ hf₁ _ _ _ _).bind fun f₂ _ c₂ he₂ hf₂ _ h₂ => .pure he₂ hf₂ ?_
  rw [h₂.1, ← h₁]
  exact Ty.under_tuple _

theorem seq_finds {items : List Expr} (hitems : ∀ e ∈ items, Determines D e) (span : Span) :
    FindsType D (.seq span items) (infer .empty (.seq span items)) := by
  intro c f Γ t he hc hf hΓ ht
  cases ht with | seq hts =>
  rw [infer]
  refine (inferList_finds hitems he hc hf hΓ hts).bind
    fun f₁ ts c₁ he₁ hf₁ _ h₁ => .pure he₁ hf₁ ?_
  rw [← h₁]
  exact lastType_under ts

theorem inferCall_finds {args : List Expr} (hargs : ∀ e ∈ args, Determines D e) {c : Checker}
    {f : TyVar → Ty} {Γ : Assumptions} {callee : TExpr} {ts : List Ty} {t : Ty} (he : c.Faultless) (hc : c.Tidy D)
    (hf : c.unifier.Allows f) (hΓ : c.env.Covers f Γ) (howns : c.unifier.Owns D callee.ty)
    (hts : Expr.HaveTypes Γ args ts) (hcallee : callee.ty.under f = .curried ts t .pure)
    (funcSpan span : Span) : c.Finds f (inferCall .empty funcSpan span callee args)
      (fun f' t' _ => t'.ty.under f' = t) := by
  induction args generalizing c f callee ts with
  | nil =>
    cases hts
    rw [inferCall]
    exact .pure he hf hcallee
  | cons a args ih =>
    cases hts with | @cons _ _ _ u us ht hts =>
    rw [List.forall_mem_cons] at hargs
    rw [inferCall]
    refine (hargs.1.told he hc hf hΓ ht).bind fun f₁ arg c₁ he₁ hf₁ hagree₁ h₁ => ?_
    obtain ⟨hp₁, hc₁, howns₁, harg⟩ := h₁
    have hcallee₁ : callee.ty.under f₁ = .arrow (arg.ty.under f₁) (.curried us t .pure) := by
      rw [under_of_owns howns hagree₁, hcallee, Ty.curried_cons, harg]
    have howns' := howns.pursues hp₁.unifier
    refine ((applyTo_finds he₁ hc₁ hf₁ howns' howns₁ hcallee₁ funcSpan span).told
      (applyTo_tells (fun _ => ⟨hc₁, howns', howns₁⟩) funcSpan span)).bind
      fun f₂ next c₂ he₂ hf₂ hagree₂ h₂ => ?_
    obtain ⟨⟨hp₂, howns₂, -⟩, hnext⟩ := h₂
    have hΓ₂ := hp₂.covers hc₁ (hp₁.covers hc hΓ hagree₁) hagree₂
    exact ih hargs.2 he₂ (hp₂.tidy hc₁) hf₂ hΓ₂ howns₂ hts hnext

theorem call_finds {func : Expr} {args : List Expr} (hfunc : Determines D func)
    (hargs : ∀ e ∈ args, Determines D e) (span : Span) :
    FindsType D (.call span func args) (infer .empty (.call span func args)) := by
  intro c f Γ t he hc hf hΓ ht
  rw [infer]
  cases ht with
  | force hcallee =>
    refine (hfunc.told he hc hf hΓ hcallee).bind fun f₁ callee c₁ he₁ hf₁ _ h₁ => ?_
    obtain ⟨hp₁, hc₁, howns₁, hcallee⟩ := h₁
    have hunit : c₁.unifier.Owns D (TExpr.lit (.quiet span .unit) .unit).ty :=
      owns_of_closed rfl rfl rfl
    refine Finds.bind (applyTo_finds he₁ hc₁ hf₁ howns₁ hunit hcallee _ _)
      fun f₂ t₂ c₂ he₂ hf₂ _ h₂ => ?_
    refine (record_finds he₂ hf₂ _ _ _ _).bind fun f₃ _ c₃ he₃ hf₃ _ h₃ => .pure he₃ hf₃ ?_
    exact h₃.1 ▸ h₂
  | call hne hcallee hts =>
    refine (hfunc.told he hc hf hΓ hcallee).bind fun f₁ callee c₁ he₁ hf₁ hagree₁ h₁ => ?_
    obtain ⟨hp₁, hc₁, howns₁, hcallee⟩ := h₁
    rw [if_neg (by simpa using hne)]
    refine (inferCall_finds hargs he₁ hc₁ hf₁ (hp₁.covers hc hΓ hagree₁) howns₁ hts hcallee
      _ _).bind fun f₂ t₂ c₂ he₂ hf₂ _ h₂ => ?_
    refine (record_finds he₂ hf₂ _ _ _ _).bind fun f₃ _ c₃ he₃ hf₃ _ h₃ => .pure he₃ hf₃ ?_
    exact h₃.1 ▸ h₂

/-- The value of a local name has each type that may be assumed of the name, and so has the name. -/
theorem letIn_finds {value body : Expr} (hvalue : Determines D value)
    (hbody : ∀ D', FindsType D' body (infer .empty body)) {name : Name} (hname : name.Valid)
    (span : Span) : FindsType D (.letIn span name none value body)
      (infer .empty (.letIn span name none value body)) := by
  intro c f Γ t he hc hf hΓ ht
  obtain ⟨τ, hτ, hlocal⟩ := exists_covers_of_letIn ht
  rw [infer_letIn hname]
  refine (hvalue.told he hc hf hΓ hτ).bind fun f₁ v c₁ he₁ hf₁ hagree₁ h₁ => ?_
  obtain ⟨hp₁, hc₁, howns₁, hv⟩ := h₁
  have hΓ₁ := hp₁.covers hc hΓ hagree₁
  obtain ⟨a, hbody', hcovers⟩ := hlocal c₁ f₁ v.ty hc₁ hf₁ hΓ₁ hv
  obtain ⟨D', -, htidy, hsits⟩ := hc₁.exists_bind howns₁ value name.text
  obtain ⟨hu, henv, hcontext, hscheme⟩ :=
    localScheme_run (D := D) (.letIn span name none value body) value name.text v.ty c₁
  have hscheme := hscheme hc₁.unifier
  have hbound : c₁.Finds f₁ (localScheme (.letIn span name none value body) value name.text v.ty)
      (fun f' s c₂ => f' = f₁ ∧ Tidy D' { c₂ with env := c₂.env.pushScope.bind name.text s } ∧
        (c₂.env.pushScope.bind name.text s).Covers f₁ ((name.text, a) :: Γ)) := by
    refine ⟨(congrArg Unifier.errors hu).trans he₁, (congrArg Unifier.typeCount hu).ge, f₁,
      hu.symm ▸ hf₁, fun _ _ => rfl, rfl, ⟨hu.symm ▸ htidy, ?_, hcontext.symm ▸ hc₁.bare, ?_⟩, ?_⟩
    · show TypeEnv.Sits D' _ (TypeEnv.bind (TypeEnv.pushScope _) _ _)
      rw [henv, hu, hscheme]
      exact hsits
    · show Row.Below _ _
      rw [hcontext, hu]
      exact hc₁.below
    · rw [henv, hscheme]
      exact hcovers
  refine hbound.bind fun f₂ s c₂ he₂ hf₂ _ h₂ => .modify_bind rfl (.modify_bind rfl ?_)
  obtain ⟨rfl, hc₂, hcovers⟩ := h₂
  refine (hbody D' { c₂ with env := c₂.env.pushScope.bind name.text s } f₂ _ t he₂ hc₂ hf₂ hcovers
    hbody').bind fun f₃ b c₃ he₃ hf₃ _ h₃ => .modify_bind rfl ?_
  refine Finds.bind (record_finds (c := { c₃ with env := c₃.env.popScope }) he₃ hf₃ _ _ _ _)
    fun f₄ _ c₄ he₄ hf₄ _ h₄ => .pure he₄ hf₄ ?_
  exact h₄.1 ▸ h₃

/-- Checking an expression of the functional core is sound and complete. -/
theorem determines {e : Expr} (he : e.Core) : ∀ D, Determines D e := by
  induction he with
  | lit hrange => exact fun D => ⟨lit_tells hrange _ D, lit_finds hrange _ D⟩
  | var => exact fun D => ⟨var_tells _ _ D, var_finds _ _ D⟩
  | lam hps _ hbody =>
    exact fun D => ⟨lam_tells hps (hbody D).tells _, lam_finds hps (hbody D).finds _⟩
  | call _ _ hfunc hargs =>
    exact fun D => ⟨call_tells (hfunc D).tells (fun e he => (hargs e he D).tells) _,
      call_finds (hfunc D) (fun e he => hargs e he D) _⟩
  | letIn hname _ _ hvalue hbody =>
    exact fun D => ⟨letIn_tells (hvalue D).tells (fun D' => (hbody D').tells) hname _,
      letIn_finds (hvalue D) (fun D' => (hbody D').finds) hname _⟩
  | cond _ _ _ hcondition hTrue hFalse =>
    exact fun D => ⟨cond_tells (hcondition D).tells (hTrue D).tells (hFalse D).tells _,
      cond_finds (hcondition D) (hTrue D) (hFalse D) _⟩
  | tuple _ hitems =>
    exact fun D => ⟨tuple_tells (fun e he => (hitems e he D).tells) _,
      tuple_finds (fun e he => hitems e he D) _⟩
  | seq _ hitems =>
    exact fun D => ⟨seq_tells (fun e he => (hitems e he D).tells) _,
      seq_finds (fun e he => hitems e he D) _⟩

end Checker
end RowCheck
