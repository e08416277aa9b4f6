import RowCheck.Infer.Expr
import RowCheck.Proofs.Typing.Pattern

/-!
Checking expressions, as far as types go. Whatever expression is checked, the node that is built is
well typed under every later state without errors.
-/
namespace RowCheck

/-- Binders as names of a pattern. -/
def Binder.names (bs : List Binder) : List (String × Ty × Span) :=
  bs.map fun b => (b.name, b.ty, b.span)

/-- How the name of a `let` is bound: a value gets a general scheme, and whatever else its one
type. -/
def Entry.ofLet (value : Expr) (t : Ty) : Entry := if value.isValue then .general else .plain t

namespace Unifier

variable {u u' : Unifier} {r : Registries} {outer : TypeEnv} {Γ : Context}

theorem knows_lambdaChain (span : Span) {body : TExpr} {effects : Row} (ht : u.Knows body.ty)
    (he : effects.Below u.rowCount) {bs : List Binder} (hbs : ∀ b ∈ bs, u.Knows b.ty) :
    u.Knows (Checker.lambdaChain span body effects bs).ty := by
  induction bs with
  | nil => exact ht
  | cons b bs ih =>
    simp only [List.mem_cons, forall_eq_or_imp] at hbs
    cases bs with
    | nil => exact knows_fn.2 ⟨hbs.1, ht, he⟩
    | cons c bs => exact knows_fn.2 ⟨hbs.1, ih hbs.2, Row.below_closed rfl⟩

/-- A chain of functions is well typed if its body is where all its names are bound. -/
theorem typed_lambdaChain (s : Substitution) (span : Span) (body : TExpr) (effects : Row)
    (bs : List Binder)
    (h : Typed r outer ((Γ.bindNames (Binder.names bs)).settle s) (body.settle s)) :
    Typed r outer (Γ.settle s) ((Checker.lambdaChain span body effects bs).settle s) := by
  induction bs generalizing Γ with
  | nil => exact h
  | cons b bs ih =>
    cases bs with
    | nil =>
      refine @Typed.lam _ _ _ _ _ _ (s.findRow effects) ?_ h
      rw [TExpr.ty_settle]
      rfl
    | cons c bs =>
      refine @Typed.lam _ _ _ _ _ _ (s.findRow .pure) ?_ (@ih ((b.name, .plain b.ty) :: Γ) h)
      rw [TExpr.ty_settle]
      rfl

/-- What is known of an arm for scrutinees of some type. -/
structure KnowsArm (u : Unifier) (r : Registries) (outer : TypeEnv) (Γ : Context) (t : Ty)
    (a : TArm) : Prop where
  ty : a.pattern.ty = t
  pattern : u.KnowsPattern r a.pattern
  guard : ∀ g ∈ a.guard, u.WellTyped r outer (Γ.bindNames a.pattern.bindings) g ∧
    u.Forces fun v => v.apply g.ty = .bool
  body : u.WellTyped r outer (Γ.bindNames a.pattern.bindings) a.body

theorem KnowsArm.leads {t : Ty} {a : TArm} (h : u.KnowsArm r outer Γ t a) (hu : u.Leads u') :
    u'.KnowsArm r outer Γ t a where
  ty := h.ty
  pattern := h.pattern.leads hu
  guard g hg := ⟨(h.guard g hg).1.leads hu, (h.guard g hg).2.leads hu⟩
  body := h.body.leads hu

/-- A match is well typed if its arms are, and their bodies have the type of the match. -/
theorem typed_matchOn {i : Info} {s : TExpr} {arms : List TArm} {tree : Option DecisionTree}
    (hs : u.WellTyped r outer Γ s) (harms : ∀ a ∈ arms, u.KnowsArm r outer Γ s.ty a)
    (hty : ∀ a ∈ arms, u.Forces fun v => v.apply a.body.ty = v.apply i.ty) :
    u.Forces fun v => Typed r outer (Γ.settle v.substitution)
      ((TExpr.matchOn i s arms tree).settle v.substitution) := by
  intro v hv he
  have hbound : ∀ a : TArm, (Γ.bindNames a.pattern.bindings).settle v.substitution =
      (Γ.settle v.substitution).bindNames (a.pattern.settle v.substitution).bindings := fun a => by
    rw [Context.settle_bindNames, TPattern.bindings_settle]
  have settled : ∀ {P : TArm → Prop}, (∀ a ∈ arms, P (TExpr.settleArm v.substitution a)) →
      ∀ a ∈ TExpr.settleArms v.substitution arms, P a := by
    intro P h a ha
    rw [TExpr.settleArms_eq] at ha
    obtain ⟨b, hb, rfl⟩ := List.mem_map.1 ha
    exact h b hb
  refine .matchOn (hs.typed v hv he) (settled fun a ha => ?_) (settled fun a ha => ?_)
    (settled fun a ha => ?_) (settled fun a ha => ?_) (settled fun a ha => ?_)
  · rw [TExpr.pattern_settleArm, TPattern.ty_settle, TExpr.ty_settle, (harms a ha).ty]
    exact ⟨rfl, (harms a ha).pattern.typed v hv he⟩
  · rw [TExpr.guard_settleArm]
    rintro _ hmem
    obtain ⟨g, hg, rfl⟩ := Option.mem_map.1 hmem
    exact (TExpr.ty_settle g).trans (((harms a ha).guard g hg).2 v hv he)
  · rw [TExpr.guard_settleArm, TExpr.pattern_settleArm, ← hbound]
    rintro _ hmem
    obtain ⟨g, hg, rfl⟩ := Option.mem_map.1 hmem
    exact ((harms a ha).guard g hg).1.typed v hv he
  · rw [TExpr.body_settleArm, TExpr.ty_settle]
    exact hty a ha v hv he
  · rw [TExpr.body_settleArm, TExpr.pattern_settleArm, ← hbound]
    exact (harms a ha).body.typed v hv he

/-- A `let` is well typed if its parts are, and its name is bound as its value says. -/
theorem typed_letIn {i : Info} {x : Binder} {value : Expr} {v b : TExpr} (hi : i.ty = b.ty)
    (hx : x.ty = v.ty) (hv : u.WellTyped r outer Γ v)
    (hvalue : u.errors = [] → value.isValue = true → v.isValue = true)
    (hb : u.WellTyped r outer ((x.name, .ofLet value x.ty) :: Γ) b) :
    u.WellTyped r outer Γ (.letIn i x v b) := by
  have hknows : u.Knows i.ty := hi ▸ hb.knows
  refine ⟨hknows, fun w hw he => ?_⟩
  have hbody := hb.typed w hw he
  have hvty : w.substitution.apply x.ty = (v.settle w.substitution).ty :=
    (congrArg _ hx).trans (TExpr.ty_settle v).symm
  have hbty : w.substitution.apply i.ty = (b.settle w.substitution).ty :=
    (congrArg _ hi).trans (TExpr.ty_settle b).symm
  cases hval : value.isValue with
  | true =>
    simp only [Entry.ofLet, hval, if_true] at hbody
    refine .letGeneral ?_ hvty hbty (hv.typed w hw he) hbody
    rw [TExpr.isValue_settle]
    exact hvalue (hw.errors_nil he) hval
  | false =>
    simp only [Entry.ofLet, hval, Bool.false_eq_true, if_false] at hbody
    exact .letPlain hvty hbty (hv.typed w hw he) hbody

end Unifier

namespace Checker

open Unifier

variable {r : Registries} {outer : TypeEnv} {Γ : Context} {c : Checker}

/-- Whether an action that checks an expression builds a well typed one, in every scope; and a value
from what is a value. -/
def Typing (r : Registries) (outer : TypeEnv) (value : Bool) (m : CheckM TExpr) : Prop :=
  ∀ (c : Checker) (Γ : Context), c.Sound → c.Within r outer Γ → c.Stays m (fun e c' =>
    c'.unifier.WellTyped r outer Γ e ∧
    (c'.unifier.errors = [] → value = true → e.isValue = true))

theorem setContext_stays (hc : c.Sound) {row : Row} (hr : row.Below c.unifier.rowCount) :
    c.Stays (modify fun c => { c with context := row }) (fun _ _ => True) :=
  ⟨⟨⟨⟨⟨hc.unifier, hc.env, hr, hc.scope⟩, hc.sound, hc.written⟩, hc.sound.leads⟩, fun _ => rfl,
    fun _ => rfl⟩, trivial⟩

theorem inContext_stays {value : Bool} {body : CheckM TExpr} (hbody : Typing r outer value body)
    (hc : c.Sound) (hΓ : c.Within r outer Γ) {expected : Expected}
    (he : ∀ p ∈ expected, c.unifier.Knows p.1) :
    c.Stays (inContext body expected) (fun q c' => q.2.Below c'.unifier.rowCount ∧
      c'.unifier.WellTyped r outer Γ q.1) := by
  have hrest : ∀ {c' : Checker} {e : TExpr}, c.Follows c' → c'.unifier.WellTyped r outer Γ e →
      c'.Stays (do
        let performed := (← get).context
        modify (fun c' => { c' with context := c.context })
        return (e, performed)) (fun q c' => q.2.Below c'.unifier.rowCount ∧
          c'.unifier.WellTyped r outer Γ q.1) := by
    intro c' e h hwt
    refine .get_bind ((setContext_stays h.sound (hc.context.mono h.unifier.rows)).bind
      fun _ c₁ h₁ _ => .pure h₁.sound ⟨h.sound.context.mono h₁.unifier.rows, ?_⟩)
    exact hwt.leads h₁.unifier
  unfold inContext
  refine .get_bind (.lift_bind hc (freshRow_gives hc.sound) fun row c₁ h₁ hrow => ?_)
  refine (setContext_stays h₁.sound hrow).bind fun _ c₂ h₂ _ => ?_
  have h₁₂ := h₁.trans h₂
  refine (hbody c₂ Γ h₂.sound (hΓ.follows h₁₂)).bind fun e c₃ h₃ hwt => ?_
  cases expected with
  | none => exact hrest (h₁₂.trans h₃) hwt.1
  | some p =>
    refine (unify_stays h₃.sound ((he p rfl).leads (h₁₂.trans h₃).unifier) hwt.1.knows _).bind
      fun _ c₄ h₄ _ => ?_
    exact hrest (h₁₂.trans (h₃.trans h₄)) (hwt.1.leads h₄.unifier)

theorem exposedEffects_stays (hc : c.Sound) {performed : Row}
    (hp : performed.Below c.unifier.rowCount) (declared : Declared) (span : Span) :
    c.Stays (exposedEffects performed declared span) (fun row c' =>
      row.Below c'.unifier.rowCount) := by
  unfold exposedEffects
  split
  · exact .pure hc hp
  · rename_i written function
    refine (resolving_stays hc (RowExpr.resolve_gives hc.sound hc.admits written)).bind
      fun row c₁ h₁ hrow => ?_
    exact .lift_bind h₁.sound (includeRow_gives h₁.sound.sound (hp.mono h₁.unifier.rows) hrow _)
      fun _ c₂ h₂ _ => .pure h₂.sound (hrow.mono h₂.unifier.rows)

/-- The parameters of a function are bound one after the other. -/
theorem bindParams_gives (hc : c.Sound) (params : List Param) :
    c.Gives (bindParams r params) (fun bs c' => bs.length = params.length ∧
      (∀ b ∈ bs, c'.unifier.Knows b.ty) ∧ (c'.unifier.errors = [] →
        c'.env = c.env.bindNames (Binder.names bs) ∧ c'.active = c.active)) := by
  induction params generalizing c with
  | nil => exact .pure hc ⟨rfl, by simp, fun _ => ⟨rfl, rfl⟩⟩
  | cons p ps ih =>
    have hrest : ∀ {c' : Checker} {t : Ty}, c.Follows c' → c'.unifier.Knows t →
        c'.Gives (do
          bindMono p.name.text t
          return ⟨p.name.text, p.name.span, t, none⟩ :: (← bindParams r ps))
          (fun bs c'' => bs.length = (p :: ps).length ∧ (∀ b ∈ bs, c''.unifier.Knows b.ty) ∧
            (c''.unifier.errors = [] → c''.env = c.env.bindNames (Binder.names bs) ∧
              c''.active = c.active)) := by
      intro c' t h ht
      have hbelow := h.sound.env.bind p.name.text (Scheme.below_mono_iff.2 ht.below)
      refine (modifyEnv_gives h.sound hbelow).bind fun _ c₁ h₁ hc₁ => ?_
      refine (ih h₁.sound).bind fun bs c₂ h₂ hbs => .pure h₂.sound ⟨by simp [hbs.1], ?_, ?_⟩
      · simp only [List.mem_cons, forall_eq_or_imp]
        exact ⟨ht.leads (h₁.trans h₂).unifier, hbs.2.1⟩
      · intro he
        obtain ⟨henv, hactive⟩ := hbs.2.2 he
        have he' := (h₁.trans h₂).errors_nil he
        subst hc₁
        rw [henv, hactive]
        dsimp only
        rw [h.env he', h.active he']
        exact ⟨rfl, rfl⟩
    unfold bindParams
    refine (checkName_stays hc _).gives.bind fun _ c₁ _ h₁ => ?_
    dsimp only
    split
    · rename_i written _
      exact (resolveType_stays h₁.1.sound r.types written).gives.bind fun t c₂ _ h₂ =>
        hrest (h₁.1.trans h₂.1) h₂.2
    · exact (Stays.lift h₁.1.sound (freshType_gives h₁.1.sound.sound)).gives.bind
        fun t c₂ _ h₂ => hrest (h₁.1.trans h₂.1) (h₂.2 _)

theorem pushScope_gives (hc : c.Sound) :
    c.Gives (modifyEnv .pushScope) (fun _ c' => c' = { c with env := c.env.pushScope }) :=
  modifyEnv_gives hc hc.env.pushScope

theorem popScope_gives (hc : c.Sound) :
    c.Gives (modifyEnv .popScope) (fun _ c' => c' = { c with env := c.env.popScope }) :=
  modifyEnv_gives hc hc.env.popScope

/-- Names that were bound in a scope of their own are in scope there, and in their context. -/
theorem Within.bindNames {c' : Checker} (hΓ : c.Within r outer Γ) (h : c.Leads c')
    {names : List (String × Ty × Span)} (hn : ∀ n ∈ names, c'.unifier.Knows n.2.1)
    (henv : c'.unifier.errors = [] → c'.env = c.env.pushScope.bindNames names ∧
      c'.active = c.active) : c'.Within r outer (Γ.bindNames names) := by
  intro he
  obtain ⟨hmodels, hactive⟩ := hΓ (h.errors_nil he)
  rw [(henv he).1, (henv he).2]
  exact ⟨hmodels.pushScope.bindNames fun n hmem => (hn n hmem).proper he, hactive⟩

theorem inferLambda_stays {value : Bool} {body : CheckM TExpr} (hbody : Typing r outer value body)
    (hc : c.Sound) (hΓ : c.Within r outer Γ) (params : List Param) (span : Span)
    {expected : Expected} (he : ∀ p ∈ expected, c.unifier.Knows p.1) (declared : Declared) :
    c.Stays (inferLambda r params body span expected declared) (fun q c' =>
      c'.unifier.WellTyped r outer Γ q.1 ∧ q.1.isValue = true) := by
  refine Gives.stays (Q := fun q c' => (c'.unifier.WellTyped r outer Γ q.1 ∧ q.1.isValue = true) ∧
    (c'.unifier.errors = [] → c'.env = c.env ∧ c'.active = c.active)) ?_ (fun _ _ h => h.2)
    |>.imp fun _ _ _ h => h.1
  unfold inferLambda
  refine (pushScope_gives hc).bind fun _ c₁ h₁ hc₁ => ?_
  refine (bindParams_gives h₁.sound params).bind fun bs c₂ h₂ hbs => ?_
  obtain ⟨hlen, hknows, henv⟩ := hbs
  subst hc₁
  have h₁₂ := h₁.trans h₂
  have hΓ₂ : c₂.Within r outer (Γ.bindNames (Binder.names bs)) := hΓ.bindNames h₁₂ (by
    simpa [Binder.names] using hknows) henv
  refine (inContext_stays hbody h₂.sound hΓ₂ fun p hp => (he p hp).leads h₁₂.unifier).gives.bind
    fun q c₃ _ h₃ => ?_
  refine (exposedEffects_stays h₃.1.sound h₃.2.1 declared _).gives.bind fun effects c₄ _ h₄ => ?_
  have h₂₄ := h₃.1.trans h₄.1
  have hq := h₃.2.2.leads h₄.1.unifier
  refine (popScope_gives h₄.1.sound).bind fun _ c₅ h₅ hc₅ => .pure h₅.sound ⟨?_, fun he => ?_⟩
  · have heff := h₄.2.mono h₅.unifier.rows
    have hq₅ := hq.leads h₅.unifier
    cases bs with
    | nil =>
      have hthunk : ∀ b ∈ [(⟨"_", span, .unit, none⟩ : Binder)], c₅.unifier.Knows b.ty := by
        simpa using knows_of_closed (u := c₅.unifier) (t := .unit) rfl rfl
      refine ⟨⟨knows_lambdaChain span hq₅.knows heff hthunk, fun v hv he => ?_⟩, rfl⟩
      refine @Typed.thunk _ _ _ _ _ _ (v.findRow effects) rfl rfl rfl ?_ (hq₅.typed v hv he)
      rw [TExpr.ty_settle]
      rfl
    | cons b bs =>
      refine ⟨⟨knows_lambdaChain span hq₅.knows heff fun b hb =>
        (hknows b hb).leads (h₂₄.toLeads.trans h₅).unifier, fun v hv he => ?_⟩, ?_⟩
      · exact typed_lambdaChain _ _ _ _ _ (hq₅.typed v hv he)
      · cases bs <;> rfl
  · have he₄ := h₅.errors_nil he
    subst hc₅
    obtain ⟨henv, hactive⟩ := henv (h₂₄.errors_nil he₄)
    refine ⟨?_, (h₂₄.active he₄).trans hactive⟩
    dsimp only
    rw [h₂₄.env he₄, henv, TypeEnv.popScope_bindNames (by simp [TypeEnv.pushScope])]
    rfl

/-- The value of a `let` must have the written type, if there is one. -/
theorem letType_stays (hc : c.Sound) (written : Option TypeExpr) {t : Ty}
    (ht : c.unifier.Knows t) (why : TypeExpr → Provenance) {m : Unit → CheckM TExpr}
    {Q : TExpr → Checker → Prop} (hm : ∀ a c', c.Follows c' → c'.Gives (m a) Q) :
    c.Gives (match written with
      | some w => do
        let u ← resolving (w.resolve r.types)
        liftM (Unifier.unify u t (why w)) >>= m
      | none => pure () >>= m) Q := by
  split
  · rename_i w
    refine (resolveType_stays hc r.types w).gives.bind fun u c₁ _ h₁ => ?_
    exact (unify_stays h₁.1.sound h₁.2 (ht.leads h₁.1.unifier) _).gives.bind fun _ _ _ h₂ =>
      hm _ _ (h₁.1.trans h₂.1)
  · exact hm _ _ hc.follows

theorem localScheme_stays (hc : c.Sound) (e value : Expr) (name : String) {t : Ty}
    (ht : c.unifier.Knows t) :
    c.Stays (localScheme e value name t) (fun s c' => c'.unifier.KnowsScheme s ∧
      (value.isValue = false → s = .mono t)) := by
  unfold localScheme
  split
  · rename_i hvalue
    refine .get_bind (.lift_bind hc (generalize_gives hc.sound ht _ _) fun s c₁ h₁ hs => ?_)
    exact (record_stays h₁.sound _ _ _ _).bind fun _ _ h₂ _ =>
      .pure h₂.sound ⟨hs.leads h₂.unifier, fun h => absurd (hvalue.symm.trans h) nofun⟩
  · exact .pure hc ⟨knowsScheme_mono ht, fun _ => rfl⟩

theorem unifyArm_stays (hc : c.Sound) {first : Option TExpr} (hf : ∀ e ∈ first, c.unifier.Knows e.ty)
    {body : TExpr} (hb : c.unifier.Knows body.ty) :
    c.Stays (liftM (unifyArm first body)) (fun _ c' => ∀ e ∈ first,
      c'.unifier.Forces fun v => v.apply body.ty = v.apply e.ty) := by
  unfold unifyArm
  split
  · exact .pure hc nofun
  · refine (unify_stays hc (hf _ rfl) hb _).imp fun _ _ _ h e he => ?_
    cases he
    exact h.imp fun _ h => h.symm

theorem knows_lastType {u : Unifier} {items : List TExpr}
    (h : ∀ e ∈ items, u.WellTyped r outer Γ e) : u.Knows (lastType items) := by
  unfold lastType
  split
  · exact (h _ (List.mem_of_getLast? ‹_›)).knows
  · exact knows_of_closed rfl rfl

theorem lastType_settleList (v : Unifier) (items : List TExpr) :
    lastType (TExpr.settleList v.substitution items) = v.apply (lastType items) := by
  rw [TExpr.settleList_eq, lastType, lastType, List.getLast?_map]
  cases items.getLast? with
  | none => rfl
  | some e => exact TExpr.ty_settle e

/-- An expression that is no value need not give one. -/
theorem Stays.quiet {m : CheckM TExpr}
    (h : c.Stays m (fun e c' => c'.unifier.WellTyped r outer Γ e)) :
    c.Stays m (fun e c' => c'.unifier.WellTyped r outer Γ e ∧
      (c'.unifier.errors = [] → false = true → e.isValue = true)) :=
  h.imp fun _ _ _ h => ⟨h, fun _ => nofun⟩

/-! ## Forms -/

/-- Whether checking an expression builds a well typed one, and a value if it is one. -/
def Infers (r : Registries) (outer : TypeEnv) (e : Expr) : Prop :=
  Typing r outer e.isValue (infer r e)

section

variable {span : Span} {func value body : Expr} {es : List Expr}

-- what is done for each form is read off the equation of its own
attribute [local simp] infer

theorem infers_lit (span : Span) (value : Literal) : Infers r outer (.lit span value) := by
  intro c Γ hc hΓ
  rw [infer]
  refine (checkLiteral_stays hc value span).bind fun _ c₁ h₁ _ => ?_
  refine (record_stays h₁.sound _ _ _ _).bind fun _ c₂ h₂ _ =>
    .pure h₂.sound ⟨⟨knows_literal value, fun v hv he => .lit ?_⟩, fun _ _ => rfl⟩
  cases value <;> rfl

theorem infers_var (hr : r.Defined) (hfree : r.ErrorFree) (span : Span) (name : String) :
    Infers r outer (.var span name) := by
  intro c Γ hc hΓ
  rw [infer]
  exact (inferVar_stays hr hfree hc hΓ _ name).imp fun _ _ _ h => ⟨h.1, fun he _ => h.2 he⟩

theorem inferList_typed (h : ∀ e ∈ es, Infers r outer e) (hc : c.Sound)
    (hΓ : c.Within r outer Γ) :
    c.Stays (inferList r es) (fun es c' => ∀ e ∈ es, c'.unifier.WellTyped r outer Γ e) := by
  induction es generalizing c with
  | nil =>
    unfold inferList
    exact .pure hc (by simp)
  | cons e es ih =>
    simp only [List.mem_cons, forall_eq_or_imp] at h
    unfold inferList
    refine (h.1 c Γ hc hΓ).bind fun t c₁ h₁ ht => ?_
    refine (ih h.2 h₁.sound (hΓ.follows h₁)).bind fun ts c₂ h₂ hts => .pure h₂.sound ?_
    simp only [List.mem_cons, forall_eq_or_imp]
    exact ⟨ht.1.leads h₂.unifier, hts⟩

theorem inferCall_typed (h : ∀ e ∈ es, Infers r outer e) (funcSpan span : Span) (hc : c.Sound)
    (hΓ : c.Within r outer Γ) {callee : TExpr} (hf : c.unifier.WellTyped r outer Γ callee) :
    c.Stays (inferCall r funcSpan span callee es)
      (fun e c' => c'.unifier.WellTyped r outer Γ e) := by
  induction es generalizing c callee with
  | nil =>
    unfold inferCall
    exact .pure hc hf
  | cons e es ih =>
    simp only [List.mem_cons, forall_eq_or_imp] at h
    unfold inferCall
    refine (h.1 c Γ hc hΓ).bind fun arg c₁ h₁ harg => ?_
    refine (applyTo_stays h₁.sound (hf.leads h₁.unifier) harg.1 funcSpan span).bind
      fun next c₂ h₂ hnext => ?_
    exact ih h.2 h₂.sound (hΓ.follows (h₁.trans h₂)) hnext

/-- A call without arguments passes a unit. -/
theorem infers_call (hf : Infers r outer func) (h : ∀ e ∈ es, Infers r outer e) :
    Infers r outer (.call span func es) := by
  intro c Γ hc hΓ
  refine Stays.quiet ?_
  rw [infer]
  refine (hf c Γ hc hΓ).bind fun callee c₁ h₁ hcallee => ?_
  have hrec : ∀ {c' : Checker} {result : TExpr}, c'.Sound →
      c'.unifier.WellTyped r outer Γ result → c'.Stays (do
        record .call (.call span func es) result.ty s!"{es.length} argument(s)"
        return result) (fun e c' => c'.unifier.WellTyped r outer Γ e) := fun hc' hwt =>
    (record_stays hc' _ _ _ _).bind fun _ _ h _ => .pure h.sound (hwt.leads h.unifier)
  dsimp only
  split
  · have hunit : c₁.unifier.WellTyped r outer Γ (.lit (.quiet span .unit) .unit) :=
      ⟨knows_of_closed rfl rfl, fun v hv he => .lit rfl⟩
    exact (applyTo_stays h₁.sound hcallee.1 hunit _ _).bind fun _ _ h hwt => hrec h.sound hwt
  · exact (inferCall_typed h func.span span h₁.sound (hΓ.follows h₁) hcallee.1).bind
      fun _ _ h hwt => hrec h.sound hwt

theorem infers_lam (params : List Param) (hb : Infers r outer body) :
    Infers r outer (.lam span params body) := by
  intro c Γ hc hΓ
  rw [infer]
  refine (inferLambda_stays hb hc hΓ params span (by simp) none).bind fun q c₁ h₁ hq => ?_
  exact (record_stays h₁.sound _ _ _ _).bind fun _ _ h₂ _ =>
    .pure h₂.sound ⟨hq.1.leads h₂.unifier, fun _ _ => hq.2⟩

theorem Within.letIn (hΓ : c.Within r outer Γ) {s : Scheme} {t : Ty} {c' : Checker}
    (hs : c.unifier.KnowsScheme s) (hmono : value.isValue = false → s = .mono t)
    (hlead : c.Leads c') {name : String} (henv : c'.env = c.env.pushScope.bind name s)
    (hactive : c'.active = c.active) : c'.Within r outer ((name, Entry.ofLet value t) :: Γ) := by
  intro he
  have he' := hlead.errors_nil he
  obtain ⟨hmodels, howned⟩ := hΓ he'
  rw [henv, hactive]
  refine ⟨hmodels.pushScope.bind name (hs.proper he') fun u hu => ?_, howned⟩
  cases hval : value.isValue with
  | true => simp [Entry.ofLet, hval] at hu
  | false =>
    rw [hmono hval]
    simp only [Entry.ofLet, hval, Bool.false_eq_true, if_false, Entry.plain.injEq] at hu
    rw [hu]

/-- The name of a `let` is in scope in its body only. -/
theorem infers_letIn (name : Name) (written : Option TypeExpr) (hval : Infers r outer value)
    (hbody : Infers r outer body) : Infers r outer (.letIn span name written value body) := by
  intro c Γ hc hΓ
  refine Stays.quiet (Gives.stays (Q := fun e c' => c'.unifier.WellTyped r outer Γ e ∧
    (c'.unifier.errors = [] → c'.env = c.env ∧ c'.active = c.active)) ?_ (fun _ _ h => h.2)
    |>.imp fun _ _ _ h => h.1)
  rw [infer]
  refine (checkName_stays hc name).gives.bind fun _ c₁ _ h₁ => ?_
  replace h₁ := h₁.1
  refine (hval c₁ Γ h₁.sound (hΓ.follows h₁)).gives.bind fun v c₂ _ h₂ => ?_
  obtain ⟨h₂, hv, hvalue⟩ := h₂
  refine letType_stays h₂.sound written hv.knows _ fun _ c₃ h₃ => ?_
  refine (localScheme_stays h₃.sound _ value name.text (hv.leads h₃.unifier).knows).gives.bind
    fun s c₄ _ h₄ => ?_
  obtain ⟨h₄, hs, hmono⟩ := h₄
  have h₀₄ := h₁.trans (h₂.trans (h₃.trans h₄))
  refine (pushScope_gives h₄.sound).bind fun _ c₅ h₅ hc₅ => ?_
  refine (modifyEnv_gives h₅.sound (h₅.sound.env.bind name.text
    (hs.below.mono h₅.unifier.rows))).bind fun _ c₆ h₆ hc₆ => ?_
  have h₄₆ := h₅.trans h₆
  have hin : c₆.env = c₄.env.pushScope.bind name.text s ∧ c₆.active = c₄.active := by
    subst hc₆ hc₅
    exact ⟨rfl, rfl⟩
  refine (hbody c₆ _ h₆.sound ((hΓ.follows h₀₄).letIn hs hmono h₄₆ hin.1 hin.2)).gives.bind
    fun b c₇ _ h₇ => ?_
  obtain ⟨h₇, hb, -⟩ := h₇
  refine (popScope_gives h₇.sound).bind fun _ c₈ h₈ hc₈ => ?_
  refine (record_stays h₈.sound _ _ _ _).gives.bind fun _ c₉ _ h₉ => ?_
  replace h₉ := h₉.1
  have h₇₉ := h₈.trans h₉.toLeads
  have h₂₉ := (h₃.trans h₄).toLeads.trans (h₄₆.trans (h₇.toLeads.trans h₇₉))
  refine .pure h₉.sound ⟨typed_letIn rfl rfl (hv.leads h₂₉.unifier)
    (fun he => hvalue (h₂₉.errors_nil he)) (hb.leads h₇₉.unifier), fun he => ?_⟩
  have he₈ := h₉.errors_nil he
  have he₇ := h₈.errors_nil he₈
  have he₄ := (h₄₆.trans h₇.toLeads).errors_nil he₇
  rw [h₉.env he, h₉.active he, hc₈]
  dsimp only
  rw [h₇.env he₇, h₇.active he₇, hin.1, hin.2,
    TypeEnv.popScope_bind (by simp [TypeEnv.pushScope]), h₀₄.env he₄, h₀₄.active he₄]
  exact ⟨rfl, rfl⟩

theorem infers_seq (h : ∀ e ∈ es, Infers r outer e) : Infers r outer (.seq span es) := by
  intro c Γ hc hΓ
  refine Stays.quiet ?_
  rw [infer]
  refine (inferList_typed h hc hΓ).bind fun es c₁ h₁ hes =>
    .pure h₁.sound ⟨knows_lastType hes, fun v hv he => .seq ?_ (typed_all hes v hv he)⟩
  exact (lastType_settleList v es).symm

theorem infers_cond {condition onTrue onFalse : Expr} (hcond : Infers r outer condition)
    (htrue : Infers r outer onTrue) (hfalse : Infers r outer onFalse) :
    Infers r outer (.cond span condition onTrue onFalse) := by
  intro c Γ hc hΓ
  refine Stays.quiet ?_
  rw [infer]
  refine (hcond c Γ hc hΓ).bind fun b c₁ h₁ hb => ?_
  refine (requireBool_stays h₁.sound hb.1.knows).bind fun _ c₂ h₂ hbool => ?_
  have h₀₂ := h₁.trans h₂
  refine (htrue c₂ Γ h₂.sound (hΓ.follows h₀₂)).bind fun t c₃ h₃ ht => ?_
  refine (hfalse c₃ Γ h₃.sound (hΓ.follows (h₀₂.trans h₃))).bind fun f c₄ h₄ hf => ?_
  refine (unify_stays h₄.sound (ht.1.leads h₄.unifier).knows hf.1.knows _).bind
    fun _ c₅ h₅ heq => ?_
  refine (record_stays h₅.sound _ _ _ _).bind fun _ c₆ h₆ _ => ?_
  have h₄₆ := h₅.trans h₆
  have ht₆ := ht.1.leads (h₄.trans h₄₆).unifier
  refine .pure h₆.sound ⟨ht₆.knows, fun v hv he => .cond ?_ ?_ ?_ ?_ ?_ ?_⟩
  · exact (TExpr.ty_settle b).trans
      ((hbool.leads (h₃.trans (h₄.trans h₄₆)).unifier) v hv he)
  · exact TExpr.ty_settle t
  · exact (TExpr.ty_settle f).trans ((heq.leads h₆.unifier) v hv he).symm
  · exact (hb.1.leads (h₂.trans (h₃.trans (h₄.trans h₄₆))).unifier).typed v hv he
  · exact ht₆.typed v hv he
  · exact (hf.1.leads h₄₆.unifier).typed v hv he

theorem infers_tuple (h : ∀ e ∈ es, Infers r outer e) : Infers r outer (.tuple span es) := by
  intro c Γ hc hΓ
  refine Stays.quiet ?_
  rw [infer]
  refine (inferList_typed h hc hΓ).bind fun es c₁ h₁ hes => ?_
  refine (record_stays h₁.sound _ _ _ _).bind fun _ c₂ h₂ _ => ?_
  have hes₂ : ∀ e ∈ es, c₂.unifier.WellTyped r outer Γ e := fun e he => (hes e he).leads h₂.unifier
  refine .pure h₂.sound ⟨knows_tuple.2 (knows_map_ty hes₂), fun v hv he =>
    .tuple ?_ (typed_all hes₂ v hv he)⟩
  exact (apply_tuple v _).trans (congrArg Ty.tuple (map_ty_settleList v es).symm)

theorem infers_construct (hr : r.Defined) (hfree : r.ErrorFree) (name : Name)
    (h : ∀ e ∈ es, Infers r outer e) : Infers r outer (.construct span name es) := by
  intro c Γ hc hΓ
  refine Stays.quiet ?_
  rw [infer]
  refine (inferList_typed h hc hΓ).bind fun es c₁ h₁ hes => ?_
  refine (construct_stays hr hfree h₁.sound (hΓ.follows h₁) name hes span).bind
    fun e c₂ h₂ he => ?_
  exact (record_stays h₂.sound _ _ _ _).bind fun _ _ h₃ _ => .pure h₃.sound (he.1.leads h₃.unifier)

theorem infers_binary (op : BinOp) (opSpan : Span) {left right : Expr}
    (hleft : Infers r outer left) (hright : Infers r outer right) :
    Infers r outer (.binary span op opSpan left right) := by
  intro c Γ hc hΓ
  refine Stays.quiet ?_
  rw [infer]
  refine (hleft c Γ hc hΓ).bind fun a c₁ h₁ ha => ?_
  refine (hright c₁ Γ h₁.sound (hΓ.follows h₁)).bind fun b c₂ h₂ hb => ?_
  have ha₂ := ha.1.leads h₂.unifier
  refine (binaryType_stays h₂.sound op opSpan ha₂.knows hb.1.knows).bind fun t c₃ h₃ ht => ?_
  refine (record_stays h₃.sound _ _ _ _).bind fun _ c₄ h₄ _ =>
    .pure h₄.sound ⟨ht.1.leads h₄.unifier, fun v hv he => ?_⟩
  have h₂₄ := (h₃.trans h₄).unifier
  refine .binary ?_ ((ha₂.leads h₂₄).typed v hv he) ((hb.1.leads h₂₄).typed v hv he)
  rw [TExpr.ty_settle, TExpr.ty_settle]
  exact (ht.2.leads h₄.unifier) v hv he

theorem infers_unary (op : UnOp) (opSpan : Span) (h : Infers r outer value) :
    Infers r outer (.unary span op opSpan value) := by
  intro c Γ hc hΓ
  refine Stays.quiet ?_
  rw [infer]
  refine (h c Γ hc hΓ).bind fun a c₁ h₁ ha => ?_
  refine (unaryType_stays h₁.sound op opSpan ha.1.knows).bind fun t c₂ h₂ ht =>
    .pure h₂.sound ⟨ht.1, fun v hv he => .unary ?_ ((ha.1.leads h₂.unifier).typed v hv he)⟩
  rw [TExpr.ty_settle]
  exact ht.2 v hv he

theorem infers_borrow (unique : Bool) (h : Infers r outer value) :
    Infers r outer (.borrow span unique value) := by
  intro c Γ hc hΓ
  refine Stays.quiet ?_
  rw [infer]
  refine (h c Γ hc hΓ).bind fun a c₁ h₁ ha => ?_
  refine (record_stays h₁.sound _ _ _ _).bind fun _ c₂ h₂ _ => ?_
  have ha₂ := ha.1.leads h₂.unifier
  refine .pure h₂.sound ⟨knows_ref.2 ha₂.knows, fun v hv he => .borrow ?_ (ha₂.typed v hv he)⟩
  rw [TExpr.ty_settle]
  rfl

theorem infers_deref (h : Infers r outer value) : Infers r outer (.deref span value) := by
  intro c Γ hc hΓ
  refine Stays.quiet ?_
  rw [infer]
  refine (h c Γ hc hΓ).bind fun a c₁ h₁ ha => ?_
  refine (target_stays h₁.sound ha.1.knows a.span).bind fun t c₂ h₂ ht =>
    .pure h₂.sound ⟨ht.1, fun v hv he => ?_⟩
  obtain ⟨k, hk⟩ := ht.2 v hv he
  refine @Typed.deref _ _ _ _ k _ ?_ ((ha.1.leads h₂.unifier).typed v hv he)
  rw [TExpr.ty_settle]
  exact hk

/-- An assignment is checked in the same way wherever it leads to, also if that is no place. -/
theorem infers_assign {place : Expr} (hplace : Infers r outer place)
    (hvalue : Infers r outer value) : Infers r outer (.assign span place value) := by
  intro c Γ hc hΓ
  have hrest : ∀ {c₁ : Checker}, c.Follows c₁ → c₁.Stays (do
      let a ← infer r place
      let b ← infer r value
      Unifier.unify a.ty b.ty ((Provenance.of b.span .assign).relatedTo a.span)
      let own := Row.closed [mutLabel]
      Unifier.includeRow own (← get).context (.of span .performedEffect)
      record .assign (.assign span place value) .unit ""
      return .assign (.of span .unit own) a b) (fun e c' => c'.unifier.WellTyped r outer Γ e) := by
    intro c₁ h₁
    refine (hplace c₁ Γ h₁.sound (hΓ.follows h₁)).bind fun a c₂ h₂ ha => ?_
    refine (hvalue c₂ Γ h₂.sound (hΓ.follows (h₁.trans h₂))).bind fun b c₃ h₃ hb => ?_
    refine (unify_stays h₃.sound (ha.1.leads h₃.unifier).knows hb.1.knows _).bind
      fun _ c₄ h₄ heq => .get_bind ?_
    refine (includeRow_stays h₄.sound (Row.below_closed rfl) _).bind fun _ c₅ h₅ _ => ?_
    refine (record_stays h₅.sound _ _ _ _).bind fun _ c₆ h₆ _ =>
      .pure h₆.sound ⟨knows_of_closed rfl rfl, fun v hv he => ?_⟩
    have h₄₆ := (h₅.trans h₆).unifier
    have h₃₆ := h₄.unifier.trans h₄₆
    refine .assign ?_ rfl ((ha.1.leads (h₃.unifier.trans h₃₆)).typed v hv he)
      ((hb.1.leads h₃₆).typed v hv he)
    rw [TExpr.ty_settle, TExpr.ty_settle]
    exact (heq.leads h₄₆) v hv he
  refine Stays.quiet ?_
  rw [infer]
  dsimp only
  split
  · exact hrest hc.follows
  · exact (report_stays hc _).bind fun _ _ h _ => hrest h

end

/-! ## Arms -/

/-- Whether checking an arm builds one that is well typed for scrutinees of some type, and whose
body has the type of the first. -/
def InfersArm (r : Registries) (outer : TypeEnv) (a : Arm) : Prop :=
  ∀ (t : Ty) (first : Option TExpr) (own : Row) ⦃c : Checker⦄ ⦃Γ : Context⦄, c.Sound →
    c.Within r outer Γ → c.unifier.Knows t → (∀ e ∈ first, c.unifier.Knows e.ty) →
    c.Stays (inferArm r t first own a) (fun q c' => c'.unifier.KnowsArm r outer Γ t q.1 ∧
      ∀ e ∈ first, c'.unifier.Forces fun v => v.apply q.1.body.ty = v.apply e.ty)

/-- Whether a state is in a scope of its own within another one, as long as nothing is at fault. -/
def Opens (c c' : Checker) : Prop :=
  c'.unifier.errors = [] → c'.env.popScope = c.env ∧ c'.active = c.active

/-- An arm begins with its pattern, whose names are in scope from then on. -/
theorem armPattern_gives (hr : r.Defined) (hfree : r.ErrorFree) (hc : c.Sound)
    (hΓ : c.Within r outer Γ) (pattern : Pattern) (own : Row) {t : Ty} (ht : c.unifier.Knows t)
    {β : Type} {m : TPattern × Row → CheckM β} {Q : β → Checker → Prop}
    (hm : ∀ q c', c.Leads c' → q.1.ty = t → c'.unifier.KnowsPattern r q.1 → c.Opens c' →
      c'.Within r outer (Γ.bindNames q.1.bindings) → c'.Gives (m q) Q) :
    c.Gives (do
      modifyEnv .pushScope
      let q ← inferPattern r pattern t own
      m q) Q := by
  refine (pushScope_gives hc).bind fun _ c₁ h₁ hc₁ => ?_
  have hproper : c₁.Proper := by
    subst hc₁
    exact fun he => (hΓ he).1.proper.pushScope
  refine (infersPattern hr hfree pattern t own h₁.sound hproper
    (ht.leads h₁.unifier)).bind fun q c₂ h₂ hq => ?_
  have hnames : TPattern.bindingsList [q.1] = q.1.bindings := by
    simp [TPattern.bindingsList]
  have hknown := hq.2.known q.1 (by simp)
  have henv : c₂.unifier.errors = [] → c₂.env = c.env.pushScope.bindNames q.1.bindings ∧
      c₂.active = c.active := fun he => by
    rw [hq.2.env he, hq.2.active he, hc₁, hnames]
    exact ⟨rfl, rfl⟩
  refine hm q c₂ (h₁.trans h₂) hq.1 hknown (fun he => ?_)
    (hΓ.bindNames (h₁.trans h₂) hknown.names henv)
  rw [(henv he).1, TypeEnv.popScope_bindNames (by simp [TypeEnv.pushScope])]
  exact ⟨rfl, (henv he).2⟩

/-- An arm ends with its body, behind which the names are out of scope. -/
theorem armBody_gives {body : Expr} (hbody : Infers r outer body) {c₂ c₃ : Checker}
    {first : Option TExpr} (hf : ∀ e ∈ first, c.unifier.Knows e.ty) (h₂ : c.Leads c₂)
    (hopen : c.Opens c₂) (hΓ : c₂.Within r outer Γ) (h₃ : c₂.Follows c₃) {β : Type}
    {f : TExpr → β} {Q : β → Checker → Prop}
    (hQ : ∀ b c', c₃.Leads c' → c'.unifier.WellTyped r outer Γ b →
      (∀ e ∈ first, c'.unifier.Forces fun v => v.apply b.ty = v.apply e.ty) → Q (f b) c') :
    c₃.Gives (do
      let b ← infer r body
      modifyEnv .popScope
      unifyArm first b
      return f b) (fun q c' => Q q c' ∧ (c'.unifier.errors = [] →
        c'.env = c.env ∧ c'.active = c.active)) := by
  refine (hbody c₃ _ h₃.sound (hΓ.follows h₃)).gives.bind fun b c₄ _ h₄ => ?_
  obtain ⟨h₄, hb, -⟩ := h₄
  refine (popScope_gives h₄.sound).bind fun _ c₅ h₅ hc₅ => ?_
  refine (unifyArm_stays h₅.sound (fun e he => (hf e he).leads
    ((h₂.trans (h₃.toLeads.trans (h₄.toLeads.trans h₅))).unifier))
    (hb.leads h₅.unifier).knows).gives.bind fun _ c₆ _ h₆ => .pure h₆.1.sound ⟨?_, fun he => ?_⟩
  · exact hQ b c₆ (h₄.toLeads.trans (h₅.trans h₆.1.toLeads))
      (hb.leads (h₅.trans h₆.1.toLeads).unifier) h₆.2
  · have he₅ := h₆.1.errors_nil he
    have h₂₄ := h₃.trans h₄
    have he₄ := h₅.errors_nil he₅
    rw [h₆.1.env he, h₆.1.active he, hc₅]
    dsimp only
    rw [h₂₄.env he₄, h₂₄.active he₄]
    exact hopen (h₂₄.errors_nil he₄)

theorem infersArm_mk (hr : r.Defined) (hfree : r.ErrorFree) (pattern : Pattern)
    {guard : Option Expr} {body : Expr} (hg : ∀ g ∈ guard, Infers r outer g)
    (hb : Infers r outer body) : InfersArm r outer (.mk pattern guard body) := by
  intro t first own c Γ hc hΓ ht hf
  refine Gives.stays (Q := fun q c' => (c'.unifier.KnowsArm r outer Γ t q.1 ∧
    ∀ e ∈ first, c'.unifier.Forces fun v => v.apply q.1.body.ty = v.apply e.ty) ∧
    (c'.unifier.errors = [] → c'.env = c.env ∧ c'.active = c.active)) ?_ (fun _ _ h => h.2)
    |>.imp fun _ _ _ h => h.1
  cases guard with
  | none =>
    unfold inferArm
    refine armPattern_gives hr hfree hc hΓ pattern own ht fun q c₂ h₂ hty hknown hopen hΓ₂ => ?_
    refine armBody_gives hb hf h₂ hopen hΓ₂ h₂.sound.follows
      fun b c' h hb hsame => ⟨⟨hty, ?_, ?_, hb⟩, hsame⟩
    · exact hknown.leads h.unifier
    · rintro _ ⟨⟩
  | some guard =>
    unfold inferArm
    refine armPattern_gives hr hfree hc hΓ pattern own ht fun q c₂ h₂ hty hknown hopen hΓ₂ => ?_
    refine (hg guard rfl c₂ _ h₂.sound hΓ₂).gives.bind fun g c₃ _ h₃ => ?_
    refine (requireBool_stays h₃.1.sound h₃.2.1.knows).gives.bind fun _ c₄ _ h₄ => ?_
    refine armBody_gives hb hf h₂ hopen hΓ₂ (h₃.1.trans h₄.1)
      fun b c' h hb hsame => ⟨⟨hty, ?_, ?_, hb⟩, hsame⟩
    · exact hknown.leads ((h₃.1.trans h₄.1).toLeads.trans h).unifier
    · rintro _ ⟨⟩
      exact ⟨h₃.2.1.leads (h₄.1.toLeads.trans h).unifier, h₄.2.leads h.unifier⟩

theorem inferArms_typed {as : List Arm} (h : ∀ a ∈ as, InfersArm r outer a) {t : Ty}
    {first : Option TExpr} (own : Row) (hc : c.Sound) (hΓ : c.Within r outer Γ)
    (ht : c.unifier.Knows t) (hf : ∀ e ∈ first, c.unifier.Knows e.ty) :
    c.Stays (inferArms r t first own as) (fun q c' =>
      (∀ a ∈ q.1, c'.unifier.KnowsArm r outer Γ t a) ∧
      ∀ e ∈ first.or (q.1.head?.map TArm.body), ∀ a ∈ q.1,
        c'.unifier.Forces fun v => v.apply a.body.ty = v.apply e.ty) := by
  induction as generalizing c first own with
  | nil =>
    unfold inferArms
    exact .pure hc ⟨by simp, by simp⟩
  | cons a as ih =>
    simp only [List.mem_cons, forall_eq_or_imp] at h
    unfold inferArms
    refine (h.1 t first own hc hΓ ht hf).bind fun q c₁ h₁ hq => ?_
    have hfirst : ∀ e ∈ first.or (some q.1.body), c₁.unifier.Knows e.ty ∧
        c₁.unifier.Forces fun v => v.apply q.1.body.ty = v.apply e.ty := by
      intro e he
      cases first with
      | none =>
        cases he
        exact ⟨hq.1.body.knows, fun _ _ _ => rfl⟩
      | some f => exact ⟨(hf e he).leads h₁.unifier, hq.2 e he⟩
    refine (ih h.2 q.2 h₁.sound (hΓ.follows h₁) (ht.leads h₁.unifier)
      fun e he => (hfirst e he).1).bind fun s c₂ h₂ hs => .pure h₂.sound ⟨?_, ?_⟩
    · simp only [List.mem_cons, forall_eq_or_imp]
      exact ⟨hq.1.leads h₂.unifier, hs.1⟩
    · intro e he
      simp only [List.mem_cons, forall_eq_or_imp]
      refine ⟨(hfirst e he).2.leads h₂.unifier, hs.2 e ?_⟩
      cases first with
      | none => exact he
      | some f => exact he

theorem infers_matchOn {span : Span} {scrutinee : Expr} {arms : List Arm}
    (hs : Infers r outer scrutinee) (h : ∀ a ∈ arms, InfersArm r outer a) :
    Infers r outer (.matchOn span scrutinee arms) := by
  intro c Γ hc hΓ
  refine Stays.quiet ?_
  rw [infer]
  refine (hs c Γ hc hΓ).bind fun s c₁ h₁ hs => ?_
  refine (inferArms_typed h .pure h₁.sound (hΓ.follows h₁) hs.1.knows (by simp)).bind
    fun q c₂ h₂ hq => ?_
  have hrec : ∀ {c' : Checker} {t : Ty}, c₂.Follows c' → c'.unifier.Knows t →
      (∀ a ∈ q.1, c'.unifier.Forces fun v => v.apply a.body.ty = v.apply t) → c'.Stays (do
        record .matchOn (.matchOn span scrutinee arms) t s!"{arms.length} arm(s)"
        return .matchOn (.of span t q.2) s q.1 none)
        (fun e c' => c'.unifier.WellTyped r outer Γ e) := by
    intro c' t h ht hsame
    refine (record_stays h.sound _ _ _ _).bind fun _ c₃ h₃ _ =>
      .pure h₃.sound ⟨ht.leads h₃.unifier, ?_⟩
    exact typed_matchOn (hs.1.leads (h₂.trans (h.trans h₃)).unifier)
      (fun a ha => (hq.1 a ha).leads (h.trans h₃).unifier)
      (fun a ha => (hsame a ha).leads h₃.unifier)
  dsimp only
  split
  · rename_i first rest harms
    have hmem : first ∈ q.1 := harms ▸ List.mem_cons_self
    refine hrec h₂.sound.follows (hq.1 first hmem).body.knows fun a ha => ?_
    exact hq.2 first.body (by rw [harms]; rfl) a ha
  · rename_i harms
    refine .lift_bind h₂.sound (freshType_gives h₂.sound.sound) fun t c₃ h₃ ht =>
      hrec h₃ (ht _) fun a ha => ?_
    rw [harms] at ha
    cases ha

/-! ## Expressions -/

mutual

/-- Checking an expression builds a well typed one. -/
theorem infers (hr : r.Defined) (hfree : r.ErrorFree) : (e : Expr) → Infers r outer e
  | .lit span value => infers_lit span value
  | .var span name => infers_var hr hfree span name
  | .call _ func args => infers_call (infers hr hfree func) (infersList hr hfree args)
  | .lam _ params body => infers_lam params (infers hr hfree body)
  | .letIn _ name written value body =>
    infers_letIn name written (infers hr hfree value) (infers hr hfree body)
  | .seq _ items => infers_seq (infersList hr hfree items)
  | .cond _ c t e => infers_cond (infers hr hfree c) (infers hr hfree t) (infers hr hfree e)
  | .matchOn _ s arms => infers_matchOn (infers hr hfree s) (infersArms hr hfree arms)
  | .tuple _ items => infers_tuple (infersList hr hfree items)
  | .construct _ name args => infers_construct hr hfree name (infersList hr hfree args)
  | .binary _ op opSpan a b =>
    infers_binary op opSpan (infers hr hfree a) (infers hr hfree b)
  | .unary _ op opSpan a => infers_unary op opSpan (infers hr hfree a)
  | .borrow _ unique a => infers_borrow unique (infers hr hfree a)
  | .deref _ a => infers_deref (infers hr hfree a)
  | .assign _ place value => infers_assign (infers hr hfree place) (infers hr hfree value)

theorem infersList (hr : r.Defined) (hfree : r.ErrorFree) : (es : List Expr) →
    ∀ e ∈ es, Infers r outer e
  | [] => List.forall_mem_nil _
  | e :: es => List.forall_mem_cons.2 ⟨infers hr hfree e, infersList hr hfree es⟩

theorem infersArm (hr : r.Defined) (hfree : r.ErrorFree) : (a : Arm) → InfersArm r outer a
  | .mk pattern none body => infersArm_mk hr hfree pattern (by simp) (infers hr hfree body)
  | .mk pattern (some guard) body =>
    infersArm_mk hr hfree pattern (by simpa using infers hr hfree guard) (infers hr hfree body)

theorem infersArms (hr : r.Defined) (hfree : r.ErrorFree) : (as : List Arm) →
    ∀ a ∈ as, InfersArm r outer a
  | [] => List.forall_mem_nil _
  | a :: as => List.forall_mem_cons.2 ⟨infersArm hr hfree a, infersArms hr hfree as⟩

end

end Checker

end RowCheck
