import RowCheck.Proofs.Infer.Pattern

/-!
Checking expressions. Whatever expression is checked, what it performs is promised to be covered by
the context, and the arrow of each lambda is promised to cover what its body performs.
-/
namespace RowCheck

/-- The row that is written, if it has no tail. -/
def RowExpr.closed? (row : RowExpr) : Option Row :=
  match row.tail with
  | none => some (.closed (row.labels.map (·.text)))
  | some _ => none

namespace Unifier

variable {u u' : Unifier} {context : Row}

/-- What checking a function with `n` parameters yields, given the closed row that is written for it
if there is one: the function, and a row that exposes what its body performs. -/
structure Vouches (u : Unifier) (n : Nat) (written : Option Row) (p : TExpr × Row) : Prop where
  ty : p.1.ty.Below u.rowCount
  lambdas : ∀ l ∈ p.1.lambdas, u.Shows l
  exposes : u.Exposes p.2 (p.1.peel n)
  written : ∀ row ∈ written, p.2 = row

theorem Vouches.advances {n : Nat} {written : Option Row} {p : TExpr × Row}
    (h : u.Vouches n written p) (hu : u.Advances u') : u'.Vouches n written p :=
  ⟨h.ty.mono hu.rows, fun l hl => (h.lambdas l hl).advances hu, h.exposes.advances hu, h.written⟩

/-- A chain of functions exposes at its innermost arrow what the body performs, and performs nothing
before. -/
theorem keeps_lambdaChain (span : Span) {body : TExpr} {effects : Row}
    (ht : body.ty.Below u.rowCount) (he : effects.Below u.rowCount) (hexp : u.Exposes effects body)
    (hlam : ∀ l ∈ body.lambdas, u.Shows l) {b : Binder} {bs : List Binder}
    (hbs : ∀ c ∈ b :: bs, c.ty.Below u.rowCount) :
    u.Keeps context (Checker.lambdaChain span body effects (b :: bs)) := by
  induction bs generalizing b context with
  | nil =>
    exact keeps_lam (Ty.below_fn.2 ⟨hbs b (by simp), ht, he⟩) rfl rfl hexp hlam
  | cons c bs ih =>
    have hinner : ∀ context, u.Keeps context (Checker.lambdaChain span body effects (c :: bs)) :=
      fun context => ih fun d hd => hbs d (List.mem_cons_of_mem _ hd)
    refine keeps_lam (Ty.below_fn.2 ⟨hbs b (by simp), (hinner context).ty, Row.below_closed rfl⟩)
      rfl rfl ⟨.pure, promises_pure u _, (hinner .pure).performed⟩ (hinner context).lambdas

end Unifier

theorem Checker.peel_lambdaChain (span : Span) (body : TExpr) (effects : Row) (bs : List Binder) :
    (lambdaChain span body effects bs).peel bs.length = body := by
  induction bs with
  | nil => rfl
  | cons b bs ih =>
    cases bs with
    | nil => rfl
    | cons c bs => exact ih

namespace Checker

open Unifier

variable {r : Registries} {c : Checker}

/-- Whether an action that checks an expression keeps it within any context. -/
def Keeping (m : CheckM TExpr) : Prop := ∀ c : Checker, c.Valid → c.Does m (fun e c' => c'.Keeps e)

/-- An action within a context of its own ends in the context it was begun in. -/
theorem Does.within {α : Type} {m : CheckM α} {Q : α → Checker → Prop} {row outer : Row}
    (hc : c.Valid) (hrow : row.Below c.unifier.rowCount) (houter : c.context = outer)
    (h : { c with context := row }.Valid → { c with context := row }.Does m Q) :
    c.Does (do
      modify (fun c => { c with context := row })
      let a ← m
      let performed := (← get).context
      modify (fun c => { c with context := outer })
      return (a, performed)) (fun p c' => p.2 = row ∧ Q p.1 { c' with context := row }) := by
  obtain ⟨hadv, hq⟩ := h ⟨hc.unifier, hc.env, hrow, hc.scope⟩
  subst houter
  refine ⟨⟨⟨hadv.valid.unifier, hadv.valid.env, hc.context.mono hadv.rows, hadv.valid.scope⟩,
    hadv.unifier, rfl⟩, hadv.context, ?_⟩
  have hrow : ∀ {c₁ : Checker}, c₁.context = row → { c₁ with context := row } = c₁ := by
    rintro c₁ rfl
    rfl
  exact (hrow hadv.context).symm ▸ hq

theorem inContext_does (hc : c.Valid) {body : CheckM TExpr} (hbody : Keeping body)
    {expected : Expected} (he : ∀ p ∈ expected, p.1.Below c.unifier.rowCount) :
    c.Does (inContext body expected) (fun p c' =>
      p.2.Below c'.unifier.rowCount ∧ c'.unifier.Keeps p.2 p.1) := by
  have hclose : ∀ {c₁ : Checker} {row : Row}, row.Below c₁.unifier.rowCount → ∀ (p : TExpr × Row)
      (c' : Checker), c₁.Advances c' → (p.2 = row ∧ { c' with context := row }.Keeps p.1) →
      p.2.Below c'.unifier.rowCount ∧ c'.unifier.Keeps p.2 p.1 := by
    rintro c₁ _ hrow p c' h ⟨rfl, hk⟩
    exact ⟨hrow.mono h.rows, hk⟩
  unfold inContext
  refine .get_bind (.lift_bind hc (freshRow_does hc.unifier) fun row c₁ h₁ hrow => ?_)
  cases expected with
  | none =>
    exact (Does.within h₁.valid hrow h₁.context fun h => hbody _ h).imp (hclose hrow)
  | some p =>
    have hrun : ∀ {c₂ : Checker}, c₂.Valid → c₁.unifier.rowCount ≤ c₂.unifier.rowCount →
        c₂.Does (do
          let e ← body
          Unifier.unify p.1 e.ty p.2
          return e) (fun e c' => c'.Keeps e) := by
      intro c₂ hc₂ hle
      refine (hbody c₂ hc₂).bind fun e c₃ h₃ hk => ?_
      have hp : p.1.Below c₃.unifier.rowCount :=
        (he p rfl).mono (h₁.rows.trans (hle.trans h₃.rows))
      exact (unify_does h₃.valid hp hk.ty _).bind fun _ _ h₄ _ => .pure h₄.valid (hk.advances h₄)
    exact (Does.within h₁.valid hrow h₁.context fun h => hrun h le_rfl).imp (hclose hrow)

theorem exposedEffects_does (hc : c.Valid) {performed : Row}
    (hp : performed.Below c.unifier.rowCount) (declared : Declared) (span : Span) :
    c.Does (exposedEffects performed declared span) (fun row c' => row.Below c'.unifier.rowCount ∧
      c'.unifier.Promises performed row ∧
      ∀ written ∈ declared.bind (·.1.closed?), row = written) := by
  unfold exposedEffects
  split
  · exact .pure hc ⟨hp, promises_self _ _, by simp⟩
  · rename_i written function
    refine (resolving_does hc (RowExpr.resolve_resolves hc.unifier hc.scope written)).bind
      fun row c₁ h₁ hrow => ?_
    refine .lift_bind h₁.valid (includeRow_promises h₁.valid.unifier (hp.mono h₁.rows) hrow.1 _)
      fun _ c₂ h₂ hprom => .pure h₂.valid ⟨hrow.1.mono h₂.rows, hprom, fun w hw => ?_⟩
    simp only [Option.bind_some, Option.mem_def] at hw
    unfold RowExpr.closed? at hw
    split at hw
    · rename_i htail
      cases hw
      exact hrow.2 htail
    · cases hw

theorem bindParams_does (hc : c.Valid) (params : List Param) :
    c.Does (bindParams r params) (fun bs c' => bs.length = params.length ∧
      ∀ b ∈ bs, b.ty.Below c'.unifier.rowCount) := by
  induction params generalizing c with
  | nil => exact .pure hc ⟨rfl, by simp⟩
  | cons p ps ih =>
    have hrest : ∀ {c' : Checker} {t : Ty}, c'.Valid → t.Below c'.unifier.rowCount →
        c'.Does (do
          bindMono p.name.text t
          return ⟨p.name.text, p.name.span, t, none⟩ :: (← bindParams r ps))
          (fun bs c' => bs.length = (p :: ps).length ∧
            ∀ b ∈ bs, b.ty.Below c'.unifier.rowCount) := by
      intro c' t hc' ht
      refine (bindMono_does hc' _ ht).bind fun _ c₁ h₁ _ => ?_
      refine (ih h₁.valid).bind fun bs c₂ h₂ hbs => .pure h₂.valid ⟨by simp [hbs.1], ?_⟩
      simp only [List.mem_cons, forall_eq_or_imp]
      exact ⟨ht.mono (h₁.trans h₂).rows, hbs.2⟩
    unfold bindParams
    refine (checkName_does hc _).bind fun _ c₁ h₁ _ => ?_
    dsimp only
    split
    · rename_i written _
      exact (resolving_does h₁.valid (TypeExpr.resolve_resolves r.types written _ _
        h₁.valid.unifier h₁.valid.scope)).bind fun t c₂ h₂ ht => hrest h₂.valid ht
    · exact .lift_bind h₁.valid (freshType_does h₁.valid.unifier) fun t c₂ h₂ ht =>
        hrest h₂.valid (ht _)

theorem inferLambda_does (hc : c.Valid) (params : List Param) {body : CheckM TExpr}
    (hbody : Keeping body) (span : Span) {expected : Expected}
    (he : ∀ p ∈ expected, p.1.Below c.unifier.rowCount) (declared : Declared) :
    c.Does (inferLambda r params body span expected declared) (fun p c' => c'.Keeps p.1 ∧
      c'.unifier.Vouches (max params.length 1) (declared.bind (·.1.closed?)) p) := by
  unfold inferLambda
  refine (pushScope_does hc).bind fun _ c₁ h₁ _ => ?_
  refine (bindParams_does h₁.valid params).bind fun bs c₂ h₂ hbs => ?_
  obtain ⟨b, bs', hcons, hlen⟩ : ∃ b bs',
      (if bs.isEmpty then [⟨"_", span, .unit, none⟩] else bs) = b :: bs' ∧
      (b :: bs').length = max params.length 1 := by
    rw [← hbs.1]
    cases bs with
    | nil => exact ⟨_, [], rfl, rfl⟩
    | cons b bs => exact ⟨b, bs, rfl, by simp⟩
  have hbelow : ∀ d ∈ b :: bs', d.ty.Below c₂.unifier.rowCount := by
    rw [← hcons]
    split
    · simpa using Ty.below_of_effects_eq_nil (t := .unit) rfl
    · exact hbs.2
  dsimp only
  rw [hcons]
  refine (inContext_does h₂.valid hbody fun p hp => (he p hp).mono (h₁.trans h₂).rows).bind
    fun q c₃ h₃ hq => ?_
  refine (exposedEffects_does h₃.valid hq.1 declared _).bind fun effects c₄ h₄ heff => ?_
  refine (popScope_does h₄.valid).bind fun _ c₅ h₅ _ => .pure h₅.valid ?_
  have hk := hq.2.advances (h₄.trans h₅).unifier
  have hexp : c₅.unifier.Exposes effects q.1 := ⟨q.2, heff.2.1.advances h₅.unifier, hk.performed⟩
  have hkeeps : c₅.Keeps (lambdaChain span q.1 effects (b :: bs')) :=
    keeps_lambdaChain span hk.ty (heff.1.mono h₅.rows) hexp hk.lambdas fun d hd =>
      (hbelow d hd).mono (h₃.trans (h₄.trans h₅)).rows
  refine ⟨hkeeps, hkeeps.ty, hkeeps.lambdas, ?_, heff.2.2⟩
  rw [← hlen]
  exact (peel_lambdaChain span q.1 effects (b :: bs')).symm ▸ hexp

/-- The value of a `let` must have the written type, if there is one. -/
theorem letType_does (hc : c.Valid) (written : Option TypeExpr) {t : Ty}
    (ht : t.Below c.unifier.rowCount) (why : TypeExpr → Provenance) {m : Unit → CheckM TExpr}
    {Q : TExpr → Checker → Prop} (hm : ∀ a c', c.Advances c' → c'.Does (m a) Q) :
    c.Does (match written with
      | some w => do
        let u ← resolving (w.resolve r.types)
        liftM (Unifier.unify u t (why w)) >>= m
      | none => pure () >>= m) Q := by
  split
  · rename_i w
    refine (resolving_does hc (TypeExpr.resolve_resolves r.types w _ _ hc.unifier hc.scope)).bind
      fun u c₁ h₁ hu => ?_
    exact (unify_does h₁.valid hu (ht.mono h₁.rows) _).bind fun _ _ h₂ _ => hm _ _ (h₁.trans h₂)
  · exact hm _ _ hc.advances

theorem localScheme_does (hc : c.Valid) (e value : Expr) (name : String) {t : Ty}
    (ht : t.Below c.unifier.rowCount) :
    c.Does (localScheme e value name t) (fun s c' => s.Below c'.unifier.rowCount) := by
  unfold localScheme
  split
  · refine .get_bind (.lift_bind hc (generalize_does hc.unifier ht _ _) fun s c₁ h₁ hs => ?_)
    exact (record_does h₁.valid _ _ _ _).bind fun _ _ h₂ _ => .pure h₂.valid (hs.mono h₂.rows)
  · exact .pure hc (Scheme.below_mono_iff.2 ht)

/-- Whether the guard and the body of an arm are well kept. -/
def KeepsArm (c : Checker) (a : TArm) : Prop := ∀ e ∈ a.parts, c.Keeps e

theorem KeepsArm.advances {c' : Checker} {a : TArm} (h : c.KeepsArm a) (hc : c.Advances c') :
    c'.KeepsArm a := fun e he => (h e he).advances hc

theorem KeepsArm.body {a : TArm} (h : c.KeepsArm a) : c.Keeps a.body := by
  obtain ⟨p, g, b⟩ := a
  exact h b (by cases g <;> simp [TArm.parts])

theorem unifyArm_does (hc : c.Valid) {first : Option TExpr} (hf : ∀ e ∈ first, c.Keeps e)
    {body : TExpr} (hb : c.Keeps body) :
    c.Does (liftM (unifyArm first body)) (fun _ _ => True) := by
  unfold unifyArm
  split
  · exact .pure hc trivial
  · exact unify_does hc (hf _ rfl).ty hb.ty _

theorem lastType_below {items : List TExpr} (h : ∀ e ∈ items, c.Keeps e) :
    (lastType items).Below c.unifier.rowCount := by
  unfold lastType
  split
  · exact (h _ (List.mem_of_getLast? ‹_›)).ty
  · exact Ty.below_of_effects_eq_nil rfl

/-! ## One lemma for each form -/

section

variable {func condition onTrue onFalse value body scrutinee left right place : Expr}
  {args items : List Expr} {arms : List Arm}

/-- Whether an action that checks expressions keeps them within any context. -/
def KeepingList (m : CheckM (List TExpr)) : Prop :=
  ∀ c : Checker, c.Valid → c.Does m (fun es c' => ∀ e ∈ es, c'.Keeps e)

theorem lit_does (span : Span) (value : Literal) : Keeping (infer r (.lit span value)) := by
  intro c hc
  unfold infer
  refine (checkLiteral_does hc value span).bind fun _ c₁ h₁ _ => ?_
  refine (record_does h₁.valid _ _ _ _).bind fun _ c₂ h₂ _ => .pure h₂.valid ?_
  refine keeps_quiet (by simp) (Ty.below_of_effects_eq_nil ?_) rfl (by simp [TExpr.parts])
  cases value <;> rfl

theorem call_does (hfunc : Keeping (infer r func)) (span : Span)
    (hargs : ∀ (callee : TExpr) (c : Checker), c.Valid → c.Keeps callee →
      c.Does (inferCall r func.span span callee args) (fun e c' => c'.Keeps e)) :
    Keeping (infer r (.call span func args)) := by
  intro c hc
  unfold infer
  refine (hfunc c hc).bind fun callee c₁ h₁ hcallee => ?_
  have hrec : ∀ {c' : Checker} {result : TExpr}, c'.Valid → c'.Keeps result →
      c'.Does (do
        record .call (.call span func args) result.ty s!"{args.length} argument(s)"
        return result) (fun e c' => c'.Keeps e) := fun hc' hk =>
    (record_does hc' _ _ _ _).bind fun _ _ h _ => .pure h.valid (hk.advances h)
  dsimp only
  split
  · have hunit : c₁.Keeps (.lit (.quiet span .unit) .unit) :=
      keeps_quiet (by simp) (Ty.below_of_effects_eq_nil rfl) rfl (by simp [TExpr.parts])
    exact (applyTo_does h₁.valid hcallee hunit _ _).bind fun _ _ h hk => hrec h.valid hk
  · exact (hargs callee c₁ h₁.valid hcallee).bind fun _ _ h hk => hrec h.valid hk

theorem letIn_does (hvalue : Keeping (infer r value)) (hbody : Keeping (infer r body)) (span : Span)
    (name : Name) (written : Option TypeExpr) :
    Keeping (infer r (.letIn span name written value body)) := by
  intro c hc
  unfold infer
  refine (checkName_does hc name).bind fun _ c₁ h₁ _ => ?_
  refine (hvalue c₁ h₁.valid).bind fun v c₂ h₂ hv => ?_
  refine letType_does h₂.valid written hv.ty _ fun _ c₃ h₃ => ?_
  have hv₃ := hv.advances h₃
  refine (localScheme_does h₃.valid _ value name.text hv₃.ty).bind fun s c₄ h₄ hs => ?_
  refine (pushScope_does h₄.valid).bind fun _ c₅ h₅ _ => ?_
  refine (modifyEnv_does h₅.valid (h₅.valid.env.bind name.text (hs.mono h₅.rows))).bind
    fun _ c₆ h₆ _ => ?_
  refine (hbody c₆ h₆.valid).bind fun b c₇ h₇ hb => ?_
  refine (popScope_does h₇.valid).bind fun _ c₈ h₈ _ => ?_
  refine (record_does h₈.valid _ _ _ _).bind fun _ c₉ h₉ _ => .pure h₉.valid ?_
  have hb₉ := hb.advances (h₈.trans h₉)
  have h₃₉ := h₄.trans (h₅.trans (h₆.trans (h₇.trans (h₈.trans h₉))))
  exact keeps_quiet (by simp) hb₉.ty rfl ((hv₃.advances h₃₉).pair hb₉)

theorem cond_does (hcondition : Keeping (infer r condition)) (hTrue : Keeping (infer r onTrue))
    (hFalse : Keeping (infer r onFalse)) (span : Span) :
    Keeping (infer r (.cond span condition onTrue onFalse)) := by
  intro c hc
  unfold infer
  refine (hcondition c hc).bind fun b c₁ h₁ hb => ?_
  refine (requireBool_does h₁.valid hb.ty).bind fun _ c₂ h₂ _ => ?_
  refine (hTrue c₂ h₂.valid).bind fun t c₃ h₃ ht => ?_
  refine (hFalse c₃ h₃.valid).bind fun f c₄ h₄ hf => ?_
  refine (unify_does h₄.valid (ht.advances h₄).ty hf.ty _).bind fun _ c₅ h₅ _ => ?_
  refine (record_does h₅.valid _ _ _ _).bind fun _ c₆ h₆ _ => .pure h₆.valid ?_
  have h₄₆ := h₄.trans (h₅.trans h₆)
  exact keeps_quiet (by simp) (ht.advances h₄₆).ty rfl (List.forall_mem_cons.2
    ⟨hb.advances (h₂.trans (h₃.trans h₄₆)), (ht.advances h₄₆).pair (hf.advances (h₅.trans h₆))⟩)

theorem matchOn_does (hscrutinee : Keeping (infer r scrutinee)) (span : Span)
    (harms : ∀ (t : Ty) (c : Checker), c.Valid → t.Below c.unifier.rowCount →
      c.Does (inferArms r t none .pure arms)
        (fun q c' => (∀ a ∈ q.1, c'.KeepsArm a) ∧ c'.Performs q.2)) :
    Keeping (infer r (.matchOn span scrutinee arms)) := by
  intro c hc
  unfold infer
  refine (hscrutinee c hc).bind fun s c₁ h₁ hs => ?_
  refine (harms s.ty c₁ h₁.valid hs.ty).bind fun q c₂ h₂ hq => ?_
  have hrec : ∀ {c' : Checker} {t : Ty}, c₂.Advances c' → t.Below c'.unifier.rowCount →
      c'.Does (do
        record .matchOn (.matchOn span scrutinee arms) t s!"{arms.length} arm(s)"
        return .matchOn (.of span t q.2) s q.1 none) (fun e c' => c'.Keeps e) := by
    intro c' t h ht
    refine (record_does h.valid _ _ _ _).bind fun _ c₃ h₃ _ => .pure h₃.valid ?_
    refine keeps_of_parts (by simp) (ht.mono h₃.rows) (hq.2.advances (h.trans h₃)) ?_
    simp only [TExpr.parts, List.mem_cons, List.mem_flatMap, forall_eq_or_imp]
    refine ⟨hs.advances (h₂.trans (h.trans h₃)), ?_⟩
    rintro e ⟨a, ha, he⟩
    exact (hq.1 a ha e he).advances (h.trans h₃)
  dsimp only
  split
  · rename_i first _ harms
    refine hrec h₂.valid.advances (hq.1 first ?_).body.ty
    rw [harms]
    exact List.mem_cons_self
  · exact .lift_bind h₂.valid (freshType_does h₂.valid.unifier) fun t c₃ h₃ ht =>
      hrec h₃ (ht _)

theorem tuple_does (hitems : KeepingList (inferList r items)) (span : Span) :
    Keeping (infer r (.tuple span items)) := by
  intro c hc
  unfold infer
  refine (hitems c hc).bind fun es c₁ h₁ hes => ?_
  refine (record_does h₁.valid _ _ _ _).bind fun _ c₂ h₂ _ => .pure h₂.valid ?_
  have hes₂ : ∀ e ∈ es, c₂.Keeps e := fun e he => (hes e he).advances h₂
  refine keeps_quiet (by simp) (Ty.below_tuple.2 fun t ht => ?_) rfl hes₂
  obtain ⟨e, he, rfl⟩ := List.mem_map.1 ht
  exact (hes₂ e he).ty

theorem binary_does (hleft : Keeping (infer r left)) (hright : Keeping (infer r right)) (span : Span)
    (op : BinOp) (opSpan : Span) : Keeping (infer r (.binary span op opSpan left right)) := by
  intro c hc
  unfold infer
  refine (hleft c hc).bind fun a c₁ h₁ ha => ?_
  refine (hright c₁ h₁.valid).bind fun b c₂ h₂ hb => ?_
  refine (binaryType_does h₂.valid op opSpan (ha.advances h₂).ty hb.ty).bind
    fun t c₃ h₃ ht => ?_
  refine (record_does h₃.valid _ _ _ _).bind fun _ c₄ h₄ _ => .pure h₄.valid ?_
  exact keeps_quiet (by simp) (ht.mono h₄.rows) rfl
    ((ha.advances (h₂.trans (h₃.trans h₄))).pair (hb.advances (h₃.trans h₄)))

theorem assign_does (hplace : Keeping (infer r place)) (hvalue : Keeping (infer r value))
    (span : Span) : Keeping (infer r (.assign span place value)) := by
  intro c hc
  have hrest : ∀ {c₁ : Checker}, c₁.Valid → c₁.Does (do
      let a ← infer r place
      let b ← infer r value
      Unifier.unify a.ty b.ty ((Provenance.of b.span .assign).relatedTo a.span)
      let own := Row.closed [mutLabel]
      Unifier.includeRow own (← get).context (.of span .performedEffect)
      record .assign (.assign span place value) .unit ""
      return .assign (.of span .unit own) a b) (fun e c' => c'.Keeps e) := by
    intro c₁ hc₁
    refine (hplace c₁ hc₁).bind fun a c₂ h₂ ha => ?_
    refine (hvalue c₂ h₂.valid).bind fun b c₃ h₃ hb => ?_
    refine (unify_does h₃.valid (ha.advances h₃).ty hb.ty _).bind fun _ c₄ h₄ _ => .get_bind ?_
    refine (includeRow_does h₄.valid (Row.below_closed rfl) _).bind fun _ c₅ h₅ hown => ?_
    refine (record_does h₅.valid _ _ _ _).bind fun _ c₆ h₆ _ => .pure h₆.valid ?_
    have h₄₆ := h₄.trans (h₅.trans h₆)
    exact keeps_of_parts (by simp) (Ty.below_of_effects_eq_nil rfl) (hown.advances h₆)
      ((ha.advances (h₃.trans h₄₆)).pair (hb.advances h₄₆))
  unfold infer
  dsimp only
  split
  · exact hrest hc
  · exact (report_does hc _).bind fun _ _ h _ => hrest h.valid

end

mutual

theorem infer_does (hr : r.RowsClosed) : (e : Expr) → Keeping (infer r e)
  | .lit span value => lit_does span value
  | .var span name => fun c hc => by
    unfold infer
    exact inferVar_does hr hc _ name
  | .call span func args =>
    call_does (infer_does hr func) span (inferCall_does hr func.span span args)
  | .lam span params body => fun c hc => by
    unfold infer
    refine (inferLambda_does hc params (infer_does hr body) span (by simp) none).bind
      fun p c₁ h₁ hp => ?_
    exact (record_does h₁.valid _ _ _ _).bind fun _ _ h₂ _ => .pure h₂.valid
      (hp.1.advances h₂)
  | .letIn span name written value body =>
    letIn_does (infer_does hr value) (infer_does hr body) span name written
  | .seq span items => fun c hc => by
    unfold infer
    refine (inferList_does hr items c hc).bind fun es c₁ h₁ hes => .pure h₁.valid ?_
    exact keeps_quiet (by simp) (lastType_below hes) rfl hes
  | .cond span condition onTrue onFalse =>
    cond_does (infer_does hr condition) (infer_does hr onTrue) (infer_does hr onFalse) span
  | .matchOn span scrutinee arms =>
    matchOn_does (infer_does hr scrutinee) span fun t c hc ht =>
      inferArms_does hr t arms none .pure c hc ht (by simp) (promises_pure _ _)
  | .tuple span items => tuple_does (inferList_does hr items) span
  | .construct span name args => fun c hc => by
    unfold infer
    refine (inferList_does hr args c hc).bind fun es c₁ h₁ hes => ?_
    refine (construct_does hr h₁.valid name hes span).bind fun e c₂ h₂ he => ?_
    exact (record_does h₂.valid _ _ _ _).bind fun _ _ h₃ _ => .pure h₃.valid (he.advances h₃)
  | .binary span op opSpan left right =>
    binary_does (infer_does hr left) (infer_does hr right) span op opSpan
  | .unary span op opSpan operand => fun c hc => by
    unfold infer
    refine (infer_does hr operand c hc).bind fun a c₁ h₁ ha => ?_
    refine (unaryType_does h₁.valid op opSpan ha.ty).bind fun t c₂ h₂ ht => .pure h₂.valid ?_
    exact keeps_quiet (by simp) ht rfl (by simpa [TExpr.parts] using ha.advances h₂)
  | .borrow span unique inner => fun c hc => by
    unfold infer
    refine (infer_does hr inner c hc).bind fun a c₁ h₁ ha => ?_
    refine (record_does h₁.valid _ _ _ _).bind fun _ c₂ h₂ _ => .pure h₂.valid ?_
    have ha₂ := ha.advances h₂
    exact keeps_quiet (by simp) (Ty.below_ref.2 ha₂.ty) rfl (by simpa [TExpr.parts] using ha₂)
  | .deref span inner => fun c hc => by
    unfold infer
    refine (infer_does hr inner c hc).bind fun a c₁ h₁ ha => ?_
    refine (target_does h₁.valid ha.ty a.span).bind fun t c₂ h₂ ht => .pure h₂.valid ?_
    exact keeps_quiet (by simp) ht rfl (by simpa [TExpr.parts] using ha.advances h₂)
  | .assign span place value => assign_does (infer_does hr place) (infer_does hr value) span

theorem inferList_does (hr : r.RowsClosed) : (es : List Expr) → KeepingList (inferList r es)
  | [], c, hc => by
    unfold inferList
    exact .pure hc (by simp)
  | e :: es, c, hc => by
    unfold inferList
    refine (infer_does hr e c hc).bind fun t c₁ h₁ ht => ?_
    refine (inferList_does hr es c₁ h₁.valid).bind fun ts c₂ h₂ hts => .pure h₂.valid ?_
    simp only [List.mem_cons, forall_eq_or_imp]
    exact ⟨ht.advances h₂, hts⟩

theorem inferCall_does (hr : r.RowsClosed) (funcSpan span : Span) : (args : List Expr) →
    (callee : TExpr) → (c : Checker) → c.Valid → c.Keeps callee →
    c.Does (inferCall r funcSpan span callee args) (fun e c' => c'.Keeps e)
  | [], callee, c, hc, hf => by
    unfold inferCall
    exact .pure hc hf
  | a :: as, callee, c, hc, hf => by
    unfold inferCall
    refine (infer_does hr a c hc).bind fun arg c₁ h₁ harg => ?_
    refine (applyTo_does h₁.valid (hf.advances h₁) harg funcSpan span).bind
      fun next c₂ h₂ hnext => ?_
    exact inferCall_does hr funcSpan span as next c₂ h₂.valid hnext

theorem inferArm_does (hr : r.RowsClosed) (t : Ty) : (a : Arm) → (first : Option TExpr) →
    (own : Row) → (c : Checker) → c.Valid → t.Below c.unifier.rowCount →
    (∀ e ∈ first, c.Keeps e) → c.Performs own →
    c.Does (inferArm r t first own a) (fun q c' => c'.KeepsArm q.1 ∧ c'.Performs q.2)
  | .mk pattern (some guard) body, first, own, c, hc, ht, hf, ho => by
    unfold inferArm
    refine (pushScope_does hc).bind fun _ c₁ h₁ _ => ?_
    refine (inferPattern_does hr pattern t own c₁ h₁.valid (ht.mono h₁.rows)
      (ho.advances h₁)).bind fun p c₂ h₂ hp => ?_
    refine (infer_does hr guard c₂ h₂.valid).bind fun g c₃ h₃ hg => ?_
    refine (requireBool_does h₃.valid hg.ty).bind fun _ c₄ h₄ _ => ?_
    refine (infer_does hr body c₄ h₄.valid).bind fun b c₅ h₅ hb => ?_
    refine (popScope_does h₅.valid).bind fun _ c₆ h₆ _ => ?_
    have h₃₆ := h₄.trans (h₅.trans h₆)
    refine (unifyArm_does h₆.valid (fun e he => (hf e he).advances
      (h₁.trans (h₂.trans (h₃.trans h₃₆)))) (hb.advances h₆)).bind
      fun _ c₇ h₇ _ => .pure h₇.valid ⟨?_, hp.advances (h₃.trans (h₃₆.trans h₇))⟩
    exact (hg.advances (h₃₆.trans h₇)).pair (hb.advances (h₆.trans h₇))
  | .mk pattern none body, first, own, c, hc, ht, hf, ho => by
    unfold inferArm
    refine (pushScope_does hc).bind fun _ c₁ h₁ _ => ?_
    refine (inferPattern_does hr pattern t own c₁ h₁.valid (ht.mono h₁.rows)
      (ho.advances h₁)).bind fun p c₂ h₂ hp => ?_
    refine (infer_does hr body c₂ h₂.valid).bind fun b c₃ h₃ hb => ?_
    refine (popScope_does h₃.valid).bind fun _ c₄ h₄ _ => ?_
    refine (unifyArm_does h₄.valid (fun e he => (hf e he).advances
      (h₁.trans (h₂.trans (h₃.trans h₄)))) (hb.advances h₄)).bind
      fun _ c₅ h₅ _ => .pure h₅.valid ⟨?_, hp.advances (h₃.trans (h₄.trans h₅))⟩
    exact List.forall_mem_singleton.2 (hb.advances (h₄.trans h₅))

theorem inferArms_does (hr : r.RowsClosed) (t : Ty) : (as : List Arm) → (first : Option TExpr) →
    (own : Row) → (c : Checker) → c.Valid → t.Below c.unifier.rowCount →
    (∀ e ∈ first, c.Keeps e) → c.Performs own →
    c.Does (inferArms r t first own as)
      (fun q c' => (∀ a ∈ q.1, c'.KeepsArm a) ∧ c'.Performs q.2)
  | [], first, own, c, hc, ht, hf, ho => by
    unfold inferArms
    exact .pure hc ⟨by simp, ho⟩
  | a :: as, first, own, c, hc, ht, hf, ho => by
    unfold inferArms
    refine (inferArm_does hr t a first own c hc ht hf ho).bind fun q c₁ h₁ hq => ?_
    have hfirst : ∀ e ∈ first.or (some q.1.body), c₁.Keeps e := by
      intro e he
      cases first with
      | none =>
        cases he
        exact hq.1.body
      | some f => exact (hf e he).advances h₁
    refine (inferArms_does hr t as _ q.2 c₁ h₁.valid (ht.mono h₁.rows) hfirst hq.2).bind
      fun s c₂ h₂ hs => .pure h₂.valid ⟨?_, hs.2⟩
    simp only [List.mem_cons, forall_eq_or_imp]
    exact ⟨hq.1.advances h₂, hs.1⟩

end

end Checker

end RowCheck
