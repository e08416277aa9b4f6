import RowCheck.Proofs.Typing.Applied

/-!
The matches within an expression and what is gathered for them: checking an expression gives each
match that it contains, however deep, the row that its own patterns gather.
-/
namespace RowCheck

namespace TExpr

mutual

/-- Settling leaves every node in its place. -/
theorem nodes_settle (s : Substitution) : (e : TExpr) →
    (e.settle s).nodes = e.nodes.map (settle s)
  | lit .. | var .. | failed _ => rfl
  | call _ f a => by simp [settle, nodes, nodes_settle s f, nodes_settle s a]
  | lam _ _ e => by simp [settle, nodes, nodes_settle s e]
  | letIn _ _ v e => by simp [settle, nodes, nodes_settle s v, nodes_settle s e]
  | seq _ items => by simp [settle, nodes, nodesList_settle s items]
  | tuple _ items => by simp [settle, nodes, nodesList_settle s items]
  | construct _ _ _ args => by simp [settle, nodes, nodesList_settle s args]
  | cond _ c t e => by
    simp [settle, nodes, nodes_settle s c, nodes_settle s t, nodes_settle s e]
  | matchOn _ e arms _ => by simp [settle, nodes, nodes_settle s e, nodesArms_settle s arms]
  | binary _ _ a b => by simp [settle, nodes, nodes_settle s a, nodes_settle s b]
  | unary _ _ a => by simp [settle, nodes, nodes_settle s a]
  | borrow _ _ a => by simp [settle, nodes, nodes_settle s a]
  | deref _ a => by simp [settle, nodes, nodes_settle s a]
  | assign _ a b => by simp [settle, nodes, nodes_settle s a, nodes_settle s b]

theorem nodesList_settle (s : Substitution) : (es : List TExpr) →
    nodesList (settleList s es) = (nodesList es).map (settle s)
  | [] => rfl
  | e :: es => by simp [settleList, nodesList, nodes_settle s e, nodesList_settle s es]

theorem nodesArm_settle (s : Substitution) : (a : TArm) →
    nodesArm (settleArm s a) = (nodesArm a).map (settle s)
  | .mk _ (some g) b => by simp [settleArm, nodesArm, nodes_settle s g, nodes_settle s b]
  | .mk _ none b => nodes_settle s b

theorem nodesArms_settle (s : Substitution) : (as : List TArm) →
    nodesArms (settleArms s as) = (nodesArms as).map (settle s)
  | [] => rfl
  | a :: as => by simp [settleArms, nodesArms, nodesArm_settle s a, nodesArms_settle s as]

end

/-- The names that a node binds. -/
def binds : TExpr → List String
  | lam _ b _ | letIn _ b _ _ => [b.name]
  | matchOn _ _ arms _ => arms.flatMap (·.pattern.names)
  | _ => []

/-- The names that are bound within an expression. -/
def locals (e : TExpr) : List String := e.nodes.flatMap binds

end TExpr

theorem TPattern.names_settle (s : Substitution) (p : TPattern) :
    (p.settle s).names = p.names := by
  rw [names, bindings_settle, List.map_map]
  rfl

namespace TExpr

theorem flatMap_settleArms_pattern {α : Type} {f : TPattern → List α} {s : Substitution}
    (hf : ∀ p, f (p.settle s) = f p) (as : List TArm) :
    (settleArms s as).flatMap (fun a => f a.pattern) = as.flatMap fun a => f a.pattern := by
  rw [settleArms_eq, List.flatMap_map]
  exact List.flatMap_congr fun a _ => by rw [pattern_settleArm, hf]

theorem binds_settle (s : Substitution) (e : TExpr) : (e.settle s).binds = e.binds := by
  cases e with
  | matchOn _ _ arms _ => exact flatMap_settleArms_pattern (TPattern.names_settle s) arms
  | _ => rfl

theorem locals_settle (s : Substitution) (e : TExpr) : (e.settle s).locals = e.locals := by
  rw [locals, nodes_settle, List.flatMap_map]
  exact List.flatMap_congr fun n _ => binds_settle s n

end TExpr

namespace Unifier

variable {u u' : Unifier} {x : String} {o : Option Scheme}

/-- Whether the row of a node is, if that is a match, what its patterns gather. -/
def HeadsMatch (u : Unifier) (x : String) (o : Option Scheme) : TExpr → Prop
  | .matchOn i _ arms _ => u.Heads x o (arms.flatMap (·.pattern.applied)) i.effects
  | _ => True

theorem HeadsMatch.leads {n : TExpr} (h : u.HeadsMatch x o n) (hu : u.Leads u') :
    u'.HeadsMatch x o n := by
  cases n with
  | matchOn => exact Heads.leads h hu
  | _ => trivial

end Unifier

namespace Checker

open Unifier

variable {r : Registries} {outer : TypeEnv} {Γ : Context} {c c' : Checker} {x : String}
  {o : Option Scheme} {ns ns' : List TExpr}

/-- Whether the matches among some nodes account for their patterns, as long as nothing is at fault.
The nodes must not bind the name in question. -/
def Accounted (c : Checker) (x : String) (o : Option Scheme) (ns : List TExpr) : Prop :=
  c.unifier.errors = [] → (∀ n ∈ ns, x ∉ n.binds) → ∀ n ∈ ns, c.unifier.HeadsMatch x o n

theorem Accounted.leads (h : c.Accounted x o ns) (hc : c.Leads c') : c'.Accounted x o ns :=
  fun he hx n hn => (h (hc.errors_nil he) hx n hn).leads hc.unifier

theorem accounted_nil : c.Accounted x o [] := fun _ _ => List.forall_mem_nil _

theorem Accounted.append (h : c.Accounted x o ns) (h' : c.Accounted x o ns') :
    c.Accounted x o (ns ++ ns') := fun he hx =>
  List.forall_mem_append.2 ⟨h he (List.forall_mem_append.1 hx).1,
    h' he (List.forall_mem_append.1 hx).2⟩

/-- What is within a node may be looked at where its names are in scope. -/
theorem Accounted.cons {n : TExpr}
    (hn : x ∉ n.binds → c.unifier.errors = [] → c.unifier.HeadsMatch x o n)
    (h : x ∉ n.binds → c.Accounted x o ns) : c.Accounted x o (n :: ns) := fun he hx => by
  rw [List.forall_mem_cons] at hx
  exact List.forall_mem_cons.2 ⟨hn hx.1 he, h hx.1 he hx.2⟩

theorem Gives.also {α : Type} {m : CheckM α} {Q : α → Checker → Prop} {P : α → Prop}
    (h : c.Gives m Q) (hp : Always m P) : c.Gives m (fun a c' => Q a c' ∧ P a) := ⟨h.1, h.2, hp c⟩

/-! ## Rules -/

theorem applyTo_always (callee arg : TExpr) (funcSpan span : Span) :
    Always (applyTo callee arg funcSpan span) (fun e => ∃ i, e = .call i callee arg) := by
  unfold applyTo
  refine .bind fun parts => ?_
  split
  · exact .pure ⟨_, rfl⟩
  · exact .bind fun _ => .get_bind fun _ => .bind fun _ => .pure ⟨_, rfl⟩

/-- Whether the nodes of an expression are one that is no match, and those of some parts. -/
def Builds (es : List TExpr) (e : TExpr) : Prop :=
  ∃ n, e.nodes = n :: TExpr.nodesList es ∧ ∀ (u : Unifier) x o, u.HeadsMatch x o n

theorem Builds.accounted {es : List TExpr} {e : TExpr} (h : Builds es e)
    (hes : c.Accounted x o (TExpr.nodesList es)) : c.Accounted x o e.nodes := by
  obtain ⟨n, hn, hplain⟩ := h
  rw [hn]
  exact .cons (fun _ _ => hplain _ _ _) fun _ => hes

theorem construct_always (name : Name) (args : List TExpr) (span : Span) :
    Always (construct r name args span) (Builds args) := by
  have hfailed : Builds args (.tuple (.quiet span .error) args) := ⟨_, rfl, fun _ _ _ => trivial⟩
  have hbuilt : ∀ i t v, Builds args (.construct i t v args) := fun _ _ _ =>
    ⟨_, rfl, fun _ _ _ => trivial⟩
  unfold construct
  dsimp only
  split
  · refine .get_bind fun _ => ?_
    split
    · split
      · exact .pure (hbuilt _ _ _)
      · exact .bind fun _ => .pure hfailed
    · exact .bind fun _ => .pure hfailed
  · split
    · exact .bind fun _ => .pure hfailed
    · split
      · exact .bind fun _ => .pure hfailed
      · exact .bind fun _ => .bind fun _ => .pure (hbuilt _ _ _)

theorem inferVar_always (e : Expr) (name : String) : Always (inferVar r e name) (Builds []) := by
  unfold inferVar
  refine .get_bind fun _ => ?_
  split
  · exact .bind fun _ => .bind fun _ => .pure ⟨_, rfl, fun _ _ _ => trivial⟩
  · split
    · exact construct_always _ _ _
    · exact .bind fun _ => .pure ⟨_, rfl, fun _ _ _ => trivial⟩

/-! ## Functions -/

/-- Whether checking an expression builds matches that account for their patterns. -/
def AccountsFor (r : Registries) (outer : TypeEnv) (e : Expr) : Prop :=
  ∀ ⦃c : Checker⦄ ⦃Γ : Context⦄, c.Sound → c.Within r outer Γ → c.Stays (infer r e) (fun t c' =>
    c'.unifier.WellTyped r outer Γ t ∧ ∀ x o, c.Means x o → c'.Accounted x o t.nodes)

/-- That the scope is left as it was is known, and need not be shown again. -/
theorem accountsFor_of (hr : r.Defined) (hfree : r.ErrorFree) {e : Expr}
    (h : ∀ (c : Checker) (Γ : Context), c.Sound → c.Within r outer Γ → c.Gives (infer r e)
      (fun t c' => ∀ x o, c.Means x o → c'.Accounted x o t.nodes)) : AccountsFor r outer e :=
  fun c Γ hc hΓ =>
    have hi := infers hr hfree e c Γ hc hΓ
    ⟨hi.1, hi.2.1, (h c Γ hc hΓ).2⟩

theorem inContext_accounts {body : Expr} (hbody : AccountsFor r outer body) (hc : c.Sound)
    (hΓ : c.Within r outer Γ) {expected : Expected} (he : ∀ p ∈ expected, c.unifier.Knows p.1) :
    c.Gives (inContext (infer r body) expected) (fun q c' => q.2.Below c'.unifier.rowCount ∧
      ∀ x o, c.Means x o → c'.Accounted x o q.1.nodes) := by
  have hrest : ∀ {c' : Checker} {e : TExpr}, c.Leads c' →
      (∀ x o, c.Means x o → c'.Accounted x o e.nodes) → c'.Gives (do
        let performed := (← get).context
        modify (fun c' => { c' with context := c.context })
        return (e, performed)) (fun q c' => q.2.Below c'.unifier.rowCount ∧
          ∀ x o, c.Means x o → c'.Accounted x o q.1.nodes) := by
    intro c' e h hacc
    refine .get_bind ((setContext_stays h.sound (hc.context.mono h.unifier.rows)).gives.bind
      fun _ c₁ h₁ _ => .pure h₁.sound ⟨h.sound.context.mono h₁.unifier.rows, fun x o hx => ?_⟩)
    exact (hacc x o hx).leads h₁
  unfold inContext
  refine .get_bind ((Stays.lift hc (freshRow_gives hc.sound)).gives.bind fun row c₁ _ h₁ => ?_)
  refine (setContext_stays h₁.1.sound h₁.2).gives.bind fun _ c₂ _ h₂ => ?_
  have h₁₂ := h₁.1.trans h₂.1
  refine (hbody h₁₂.sound (hΓ.follows h₁₂)).gives.bind fun e c₃ _ ⟨h₃, hwt, hacc⟩ => ?_
  replace hacc : ∀ x o, c.Means x o → c₃.Accounted x o e.nodes := fun x o hx =>
    hacc x o (hx.follows h₁₂)
  cases expected with
  | none => exact hrest (h₁₂.trans h₃).toLeads hacc
  | some p =>
    refine (unify_stays h₃.sound ((he p rfl).leads (h₁₂.trans h₃).unifier) hwt.knows _).gives.bind
      fun _ c₄ h₄ _ => ?_
    exact hrest ((h₁₂.trans h₃).toLeads.trans h₄) fun x o hx => (hacc x o hx).leads h₄

/-- Each function of a chain binds one name. -/
theorem accounted_lambdaChain (span : Span) {body : TExpr} (effects : Row) {bs : List Binder}
    (h : x ∉ bs.map Binder.name → c.Accounted x o body.nodes) :
    c.Accounted x o (lambdaChain span body effects bs).nodes := by
  induction bs with
  | nil => exact h List.not_mem_nil
  | cons b bs ih =>
    have hrest : x ∉ [b.name] → c.Accounted x o (lambdaChain span body effects bs).nodes :=
      fun hb => ih fun hbs => h (by simpa [hbs] using hb)
    cases bs with
    | nil => exact .cons (fun _ _ => trivial) hrest
    | cons => exact .cons (fun _ _ => trivial) hrest

theorem inferLambda_accounts {body : Expr} (hbody : AccountsFor r outer body) (hc : c.Sound)
    (hΓ : c.Within r outer Γ) (params : List Param) (span : Span) {expected : Expected}
    (he : ∀ p ∈ expected, c.unifier.Knows p.1) (declared : Declared) :
    c.Gives (inferLambda r params (infer r body) span expected declared) (fun q c' =>
      ∀ x o, c.Means x o → c'.Accounted x o q.1.nodes) := by
  unfold inferLambda
  refine (pushScope_gives hc).bind fun _ c₁ h₁ hc₁ => ?_
  refine (bindParams_gives h₁.sound params).bind fun bs c₂ h₂ hbs => ?_
  obtain ⟨-, hknows, henv⟩ := hbs
  subst hc₁
  have h₁₂ := h₁.trans h₂
  have hΓ₂ : c₂.Within r outer (Γ.bindNames (Binder.names bs)) := hΓ.bindNames h₁₂ (by
    simpa [Binder.names] using hknows) henv
  refine (inContext_accounts hbody h₂.sound hΓ₂ fun p hp => (he p hp).leads h₁₂.unifier).bind
    fun q c₃ h₃ hq => ?_
  refine (exposedEffects_stays h₃.sound hq.1 declared _).gives.bind fun effects c₄ h₄ _ => ?_
  refine (popScope_gives h₄.sound).bind fun _ c₅ h₅ _ => .pure h₅.sound fun x o hx => ?_
  have hbody : x ∉ bs.map Binder.name → c₅.Accounted x o q.1.nodes := by
    intro hn
    refine (hq.2 x o fun he => ?_).leads (h₄.trans h₅)
    rw [(henv he).1, TypeEnv.lookup_bindNames (by simpa [Binder.names] using hn),
      TypeEnv.lookup_pushScope]
    exact hx (h₁₂.errors_nil he)
  refine accounted_lambdaChain span effects fun hn => hbody ?_
  cases bs with
  | nil => exact List.not_mem_nil
  | cons => exact hn

/-! ## Arms -/

/-- Whether checking an arm gathers what its pattern applies, and builds matches that account for
theirs. -/
def AccountsForArm (r : Registries) (outer : TypeEnv) (a : Arm) : Prop :=
  ∀ (t : Ty) (first : Option TExpr) (own : Row) ⦃c : Checker⦄ ⦃Γ : Context⦄, c.Sound →
    c.Within r outer Γ → c.unifier.Knows t → (∀ e ∈ first, c.unifier.Knows e.ty) →
    c.Gives (inferArm r t first own a) (fun q c' => ∀ x o xs, c.Means x o →
      c.Gathered x o xs own → x ∉ q.1.pattern.names →
        c'.Gathered x o (xs ++ q.1.pattern.applied) q.2 ∧
        c'.Accounted x o (TExpr.nodesArm q.1))

/-- An arm begins with its pattern. -/
theorem armPattern_gathers (hr : r.Defined) (hfree : r.ErrorFree) (hc : c.Sound)
    (hΓ : c.Within r outer Γ) (pattern : Pattern) (own : Row) {t : Ty} (ht : c.unifier.Knows t)
    {β : Type} {m : TPattern × Row → CheckM β} {Q : β → Checker → Prop}
    (hm : ∀ q c', c.Leads c' → c'.Within r outer (Γ.bindNames q.1.bindings) →
      (∀ x o, c.Means x o → x ∉ q.1.names → c'.Means x o ∧ ∀ xs, c.Gathered x o xs own →
        c'.Gathered x o (xs ++ q.1.applied) q.2) → c'.Gives (m q) Q) :
    c.Gives (do
      modifyEnv .pushScope
      let q ← inferPattern r pattern t own
      m q) Q := by
  refine (pushScope_gives hc).bind fun _ c₁ h₁ hc₁ => ?_
  have hproper : c₁.Proper := by
    subst hc₁
    exact fun he => (hΓ he).1.proper.pushScope
  refine ((infersPattern hr hfree pattern t own h₁.sound hproper (ht.leads h₁.unifier)).and
    (gathersPattern hr hfree pattern t own h₁.sound hproper (ht.leads h₁.unifier))).bind
    fun q c₂ h₂ ⟨hq, hgather⟩ => ?_
  have hnames : TPattern.bindingsList [q.1] = q.1.bindings := by
    simp [TPattern.bindingsList]
  have henv : c₂.unifier.errors = [] → c₂.env = c.env.pushScope.bindNames q.1.bindings ∧
      c₂.active = c.active := fun he => by
    rw [hq.2.env he, hq.2.active he, hc₁, hnames]
    exact ⟨rfl, rfl⟩
  refine hm q c₂ (h₁.trans h₂) (hΓ.bindNames (h₁.trans h₂) (hq.2.known q.1 (by simp)).names henv)
    fun x o hx hn => ?_
  have hx₁ : c₁.Means x o := fun he => by
    subst hc₁
    exact (TypeEnv.lookup_pushScope _ _).trans (hx he)
  exact ⟨hx₁.bindNames h₂ (hnames ▸ hn) hq.2.env, fun xs hown =>
    hgather x o xs hx₁ (hown.leads h₁) hn⟩

/-- An arm ends with its body. -/
theorem armBody_accounts {body : Expr} (hbody : AccountsFor r outer body) {c₂ : Checker}
    {first : Option TExpr} (hf : ∀ e ∈ first, c.unifier.Knows e.ty) (h₂ : c.Leads c₂)
    (hΓ : c₂.Within r outer Γ) {β : Type} {f : TExpr → β} {Q : β → Checker → Prop}
    (hQ : ∀ b c', c₂.Leads c' → (∀ x o, c₂.Means x o → c'.Accounted x o b.nodes) → Q (f b) c') :
    c₂.Gives (do
      let b ← infer r body
      modifyEnv .popScope
      unifyArm first b
      return f b) Q := by
  refine (hbody h₂.sound hΓ).gives.bind fun b c₃ _ ⟨h₃, hwt, hacc⟩ => ?_
  refine (popScope_gives h₃.sound).bind fun _ c₄ h₄ _ => ?_
  refine (unifyArm_stays h₄.sound (fun e he => (hf e he).leads
    (h₂.trans (h₃.toLeads.trans h₄)).unifier) (hwt.leads h₄.unifier).knows).gives.bind
    fun _ c₅ h₅ _ => .pure h₅.sound (hQ b c₅ (h₃.toLeads.trans (h₄.trans h₅)) fun x o hx => ?_)
  exact (hacc x o hx).leads (h₄.trans h₅)

theorem accountsForArm_mk (hr : r.Defined) (hfree : r.ErrorFree) (pattern : Pattern)
    {guard : Option Expr} {body : Expr} (hg : ∀ g ∈ guard, AccountsFor r outer g)
    (hb : AccountsFor r outer body) : AccountsForArm r outer (.mk pattern guard body) := by
  intro t first own c Γ hc hΓ ht hf
  cases guard with
  | none =>
    unfold inferArm
    refine armPattern_gathers hr hfree hc hΓ pattern own ht fun q c₂ h₂ hΓ₂ hq => ?_
    refine armBody_accounts hb hf h₂ hΓ₂ fun b c' h hacc x o xs hx hown hn => ?_
    obtain ⟨hx₂, hgather⟩ := hq x o hx hn
    exact ⟨(hgather xs hown).leads h, hacc x o hx₂⟩
  | some guard =>
    unfold inferArm
    refine armPattern_gathers hr hfree hc hΓ pattern own ht fun q c₂ h₂ hΓ₂ hq => ?_
    refine (hg guard rfl h₂.sound hΓ₂).gives.bind fun g c₃ _ ⟨h₃, hgt, hguard⟩ => ?_
    refine (requireBool_stays h₃.sound hgt.knows).gives.bind fun _ c₄ _ h₄ => ?_
    have h₂₄ := h₃.trans h₄.1
    refine armBody_accounts hb hf (h₂.trans h₂₄.toLeads) (hΓ₂.follows h₂₄)
      fun b c' h hacc x o xs hx hown hn => ?_
    obtain ⟨hx₂, hgather⟩ := hq x o hx hn
    refine ⟨(hgather xs hown).leads (h₂₄.toLeads.trans h), ?_⟩
    exact ((hguard x o hx₂).leads (h₄.1.toLeads.trans h)).append (hacc x o (hx₂.follows h₂₄))

theorem inferArms_accounts (hr : r.Defined) (hfree : r.ErrorFree) {as : List Arm}
    (h : ∀ a ∈ as, AccountsForArm r outer a) {t : Ty} {first : Option TExpr} (own : Row)
    (hc : c.Sound) (hΓ : c.Within r outer Γ) (ht : c.unifier.Knows t)
    (hf : ∀ e ∈ first, c.unifier.Knows e.ty) :
    c.Gives (inferArms r t first own as) (fun q c' => ∀ x o xs, c.Means x o →
      c.Gathered x o xs own → x ∉ q.1.flatMap (·.pattern.names) →
        c'.Gathered x o (xs ++ q.1.flatMap (·.pattern.applied)) q.2 ∧
        c'.Accounted x o (TExpr.nodesArms q.1)) := by
  induction as generalizing c first own with
  | nil =>
    unfold inferArms
    refine .pure hc fun x o xs _ hown _ => ⟨?_, accounted_nil⟩
    rw [List.flatMap_nil, List.append_nil]
    exact hown
  | cons a as ih =>
    simp only [List.mem_cons, forall_eq_or_imp] at h
    unfold inferArms
    have harm := infersArm hr hfree a t first own hc hΓ ht hf
    refine (harm.gives.and (h.1 t first own hc hΓ ht hf)).bind fun q c₁ _ hboth => ?_
    obtain ⟨⟨h₁, hq⟩, hacc⟩ := hboth
    have hfirst : ∀ e ∈ first.or (some q.1.body), c₁.unifier.Knows e.ty := by
      intro e he
      cases first with
      | none =>
        cases he
        exact hq.1.body.knows
      | some f => exact (hf e he).leads h₁.unifier
    refine (ih h.2 q.2 h₁.sound (hΓ.follows h₁) (ht.leads h₁.unifier) hfirst).bind
      fun s c₂ h₂ hs => .pure h₂.sound fun x o xs hx hown hn => ?_
    rw [List.flatMap_cons, List.mem_append, not_or] at hn
    obtain ⟨hgather, harm⟩ := hacc x o xs hx hown hn.1
    obtain ⟨hgathers, harms⟩ := hs x o _ (hx.follows h₁) hgather hn.2
    rw [List.flatMap_cons, ← List.append_assoc]
    exact ⟨hgathers, (harm.leads h₂).append harms⟩

/-! ## Forms -/

section

variable (hr : r.Defined) (hfree : r.ErrorFree) {span : Span} {func value body : Expr}
  {es : List Expr}

include hr hfree

theorem accountsFor_lit (value : Literal) : AccountsFor r outer (.lit span value) := by
  refine accountsFor_of hr hfree fun c Γ hc hΓ => ?_
  rw [infer]
  refine (checkLiteral_stays hc value span).gives.bind fun _ c₁ _ h₁ => ?_
  refine (record_stays h₁.1.sound _ _ _ _).gives.bind fun _ c₂ h₂ _ =>
    .pure h₂.sound fun x o _ => ?_
  exact .cons (fun _ _ => trivial) fun _ => accounted_nil

theorem accountsFor_var (name : String) : AccountsFor r outer (.var span name) := by
  refine accountsFor_of hr hfree fun c Γ hc hΓ => ?_
  rw [infer]
  have hvar := (inferVar_stays hr hfree hc hΓ (.var span name) name).gives
  exact ⟨hvar.1, fun x o _ => (inferVar_always _ name c).accounted accounted_nil⟩

omit hr hfree in
theorem inferList_accounts (h : ∀ e ∈ es, AccountsFor r outer e) (hc : c.Sound)
    (hΓ : c.Within r outer Γ) :
    c.Stays (inferList r es) (fun ts c' => (∀ t ∈ ts, c'.unifier.WellTyped r outer Γ t) ∧
      ∀ x o, c.Means x o → c'.Accounted x o (TExpr.nodesList ts)) := by
  induction es generalizing c with
  | nil =>
    unfold inferList
    exact .pure hc ⟨by simp, fun _ _ _ => accounted_nil⟩
  | cons e es ih =>
    simp only [List.mem_cons, forall_eq_or_imp] at h
    unfold inferList
    refine (h.1 hc hΓ).bind fun t c₁ h₁ ht => ?_
    refine (ih h.2 h₁.sound (hΓ.follows h₁)).bind fun ts c₂ h₂ hts => .pure h₂.sound ⟨?_, ?_⟩
    · simp only [List.mem_cons, forall_eq_or_imp]
      exact ⟨ht.1.leads h₂.unifier, hts.1⟩
    · exact fun x o hx => ((ht.2 x o hx).leads h₂.toLeads).append (hts.2 x o (hx.follows h₁))

omit hr hfree in
theorem inferCall_accounts (h : ∀ e ∈ es, AccountsFor r outer e) (funcSpan span : Span)
    (hc : c.Sound) (hΓ : c.Within r outer Γ) {callee : TExpr}
    (hf : c.unifier.WellTyped r outer Γ callee) :
    c.Gives (inferCall r funcSpan span callee es) (fun e c' => ∀ x o, c.Means x o →
      c.Accounted x o callee.nodes → c'.Accounted x o e.nodes) := by
  induction es generalizing c callee with
  | nil =>
    unfold inferCall
    exact .pure hc fun _ _ _ h => h
  | cons e es ih =>
    simp only [List.mem_cons, forall_eq_or_imp] at h
    unfold inferCall
    refine (h.1 hc hΓ).gives.bind fun arg c₁ _ h₁ => ?_
    obtain ⟨h₁, hat, harg⟩ := h₁
    refine ((applyTo_stays h₁.sound (hf.leads h₁.unifier) hat funcSpan span).gives.also
      (applyTo_always _ _ _ _)).bind fun next c₂ _ h₂ => ?_
    obtain ⟨⟨h₂, hnext⟩, i, hi⟩ := h₂
    have h₁₂ := h₁.trans h₂
    have hrest := ih h.2 h₂.sound (hΓ.follows h₁₂) hnext
    refine ⟨hrest.1, fun x o hx hcallee => hrest.2 x o (hx.follows h₁₂) ?_⟩
    subst hi
    exact .cons (fun _ _ => trivial) fun _ => (hcallee.leads h₁₂.toLeads).append
      ((harg x o hx).leads h₂.toLeads)

theorem accountsFor_call (hf : AccountsFor r outer func) (h : ∀ e ∈ es, AccountsFor r outer e) :
    AccountsFor r outer (.call span func es) := by
  refine accountsFor_of hr hfree fun c Γ hc hΓ => ?_
  rw [infer]
  refine (hf hc hΓ).gives.bind fun callee c₁ _ ⟨h₁, hct, hcallee⟩ => ?_
  have hrec : ∀ {c' : Checker} {result : TExpr}, c'.Sound →
      (∀ x o, c.Means x o → c'.Accounted x o result.nodes) → c'.Gives (do
        record .call (.call span func es) result.ty s!"{es.length} argument(s)"
        return result) (fun e c'' => ∀ x o, c.Means x o → c''.Accounted x o e.nodes) :=
    fun hc' hacc => (record_stays hc' _ _ _ _).gives.bind fun _ _ h _ =>
      .pure h.sound fun x o hx => (hacc x o hx).leads h
  dsimp only
  split
  · have hunit : c₁.unifier.WellTyped r outer Γ (.lit (.quiet span .unit) .unit) :=
      ⟨knows_of_closed rfl rfl, fun v hv he => .lit rfl⟩
    refine ((applyTo_stays h₁.sound hct hunit _ _).gives.also (applyTo_always _ _ _ _)).bind
      fun e c₂ h₂ ⟨_, i, hi⟩ => hrec h₂.sound fun x o hx => ?_
    subst hi
    refine .cons (fun _ _ => trivial) fun _ => ((hcallee x o hx).leads h₂).append ?_
    exact .cons (fun _ _ => trivial) fun _ => accounted_nil
  · exact (inferCall_accounts h func.span span h₁.sound (hΓ.follows h₁) hct).bind
      fun e c₂ h₂ he => hrec h₂.sound fun x o hx => he x o (hx.follows h₁) (hcallee x o hx)

theorem accountsFor_lam (params : List Param) (hb : AccountsFor r outer body) :
    AccountsFor r outer (.lam span params body) := by
  refine accountsFor_of hr hfree fun c Γ hc hΓ => ?_
  rw [infer]
  refine (inferLambda_accounts hb hc hΓ params span (by simp) none).bind fun q c₁ h₁ hq => ?_
  exact (record_stays h₁.sound _ _ _ _).gives.bind fun _ _ h₂ _ =>
    .pure h₂.sound fun x o hx => (hq x o hx).leads h₂

theorem accountsFor_letIn (name : Name) (written : Option TypeExpr)
    (hval : AccountsFor r outer value) (hbody : AccountsFor r outer body) :
    AccountsFor r outer (.letIn span name written value body) := by
  refine accountsFor_of hr hfree fun c Γ hc hΓ => ?_
  rw [infer]
  refine (checkName_stays hc name).gives.bind fun _ c₁ _ h₁ => ?_
  replace h₁ := h₁.1
  refine (hval h₁.sound (hΓ.follows h₁)).gives.bind fun v c₂ _ ⟨h₂, hv, hvalue⟩ => ?_
  refine letType_stays h₂.sound written hv.knows _ fun _ c₃ h₃ => ?_
  refine (localScheme_stays h₃.sound _ value name.text (hv.leads h₃.unifier).knows).gives.bind
    fun s c₄ _ h₄ => ?_
  obtain ⟨h₄, hs, hmono⟩ := h₄
  have h₀₄ := h₁.trans (h₂.trans (h₃.trans h₄))
  refine (pushScope_gives h₄.sound).bind fun _ c₅ h₅ hc₅ => ?_
  refine (modifyEnv_gives h₅.sound (h₅.sound.env.bind name.text
    (hs.below.mono h₅.unifier.rows))).bind fun _ c₆ h₆ hc₆ => ?_
  have h₄₆ := h₅.trans h₆
  have hin : c₆.env = c₄.env.pushScope.bind name.text s ∧ c₆.active = c₄.active := by
    subst hc₆ hc₅
    exact ⟨rfl, rfl⟩
  refine (hbody h₆.sound ((hΓ.follows h₀₄).letIn hs hmono h₄₆ hin.1 hin.2)).gives.bind
    fun b c₇ _ ⟨h₇, _, hb⟩ => ?_
  refine (popScope_gives h₇.sound).bind fun _ c₈ h₈ _ => ?_
  refine (record_stays h₈.sound _ _ _ _).gives.bind fun _ c₉ h₉ _ => .pure h₉.sound fun x o hx => ?_
  have h₇₉ := h₈.trans h₉
  have h₂₉ := (h₃.trans h₄).toLeads.trans (h₄₆.trans (h₇.toLeads.trans h₇₉))
  refine .cons (fun _ _ => trivial) fun hn =>
    ((hvalue x o (hx.follows h₁)).leads h₂₉).append ((hb x o fun he => ?_).leads h₇₉)
  -- the name of the `let` is another one, so it does not hide what is in scope
  have hne : name.text ≠ x := fun hname => hn (List.mem_singleton.2 hname.symm)
  rw [hin.1, TypeEnv.lookup_bind, if_neg hne, TypeEnv.lookup_pushScope]
  exact hx.follows h₀₄ (h₄₆.errors_nil he)

theorem accountsFor_seq (h : ∀ e ∈ es, AccountsFor r outer e) :
    AccountsFor r outer (.seq span es) := by
  refine accountsFor_of hr hfree fun c Γ hc hΓ => ?_
  rw [infer]
  exact (inferList_accounts h hc hΓ).gives.bind fun ts c₁ h₁ hts => .pure h₁.sound fun x o hx =>
    .cons (fun _ _ => trivial) fun _ => hts.2.2 x o hx

theorem accountsFor_cond {condition onTrue onFalse : Expr}
    (hcond : AccountsFor r outer condition) (htrue : AccountsFor r outer onTrue)
    (hfalse : AccountsFor r outer onFalse) :
    AccountsFor r outer (.cond span condition onTrue onFalse) := by
  refine accountsFor_of hr hfree fun c Γ hc hΓ => ?_
  rw [infer]
  refine (hcond hc hΓ).gives.bind fun b c₁ _ ⟨h₁, hbt, hb⟩ => ?_
  refine (requireBool_stays h₁.sound hbt.knows).gives.bind fun _ c₂ _ h₂ => ?_
  have h₀₂ := h₁.trans h₂.1
  refine (htrue h₀₂.sound (hΓ.follows h₀₂)).gives.bind fun t c₃ _ ⟨h₃, htt, ht⟩ => ?_
  have h₀₃ := h₀₂.trans h₃
  refine (hfalse h₃.sound (hΓ.follows h₀₃)).gives.bind fun f c₄ _ ⟨h₄, hft, hf⟩ => ?_
  refine (unify_stays h₄.sound (htt.leads h₄.unifier).knows hft.knows _).gives.bind
    fun _ c₅ h₅ _ => ?_
  refine (record_stays h₅.sound _ _ _ _).gives.bind fun _ c₆ h₆ _ => .pure h₆.sound fun x o hx => ?_
  have h₄₆ := h₅.trans h₆
  have h₃₆ := h₄.toLeads.trans h₄₆
  refine .cons (fun _ _ => trivial) fun _ => .append (.append ?_ ?_) ?_
  · exact (hb x o hx).leads (h₂.1.toLeads.trans (h₃.toLeads.trans h₃₆))
  · exact (ht x o (hx.follows h₀₂)).leads h₃₆
  · exact (hf x o (hx.follows h₀₃)).leads h₄₆

theorem accountsFor_tuple (h : ∀ e ∈ es, AccountsFor r outer e) :
    AccountsFor r outer (.tuple span es) := by
  refine accountsFor_of hr hfree fun c Γ hc hΓ => ?_
  rw [infer]
  refine (inferList_accounts h hc hΓ).gives.bind fun ts c₁ h₁ hts => ?_
  refine (record_stays h₁.sound _ _ _ _).gives.bind fun _ c₂ h₂ _ => .pure h₂.sound fun x o hx => ?_
  exact .cons (fun _ _ => trivial) fun _ => (hts.2.2 x o hx).leads h₂

theorem accountsFor_construct (name : Name) (h : ∀ e ∈ es, AccountsFor r outer e) :
    AccountsFor r outer (.construct span name es) := by
  refine accountsFor_of hr hfree fun c Γ hc hΓ => ?_
  rw [infer]
  refine (inferList_accounts h hc hΓ).gives.bind fun ts c₁ _ ⟨h₁, htt, hts⟩ => ?_
  refine ((construct_stays hr hfree h₁.sound (hΓ.follows h₁) name htt span).gives.also
    (construct_always _ _ _)).bind fun e c₂ h₂ ⟨_, he⟩ => ?_
  refine (record_stays h₂.sound _ _ _ _).gives.bind fun _ c₃ h₃ _ => .pure h₃.sound fun x o hx => ?_
  exact he.accounted ((hts x o hx).leads (h₂.trans h₃))

theorem accountsFor_binary (op : BinOp) (opSpan : Span) {left right : Expr}
    (hleft : AccountsFor r outer left) (hright : AccountsFor r outer right) :
    AccountsFor r outer (.binary span op opSpan left right) := by
  refine accountsFor_of hr hfree fun c Γ hc hΓ => ?_
  rw [infer]
  refine (hleft hc hΓ).gives.bind fun a c₁ _ ⟨h₁, hat, ha⟩ => ?_
  refine (hright h₁.sound (hΓ.follows h₁)).gives.bind fun b c₂ _ ⟨h₂, hbt, hb⟩ => ?_
  refine (binaryType_stays h₂.sound op opSpan (hat.leads h₂.unifier).knows hbt.knows).gives.bind
    fun t c₃ h₃ _ => ?_
  refine (record_stays h₃.sound _ _ _ _).gives.bind fun _ c₄ h₄ _ => .pure h₄.sound fun x o hx => ?_
  have h₂₄ := h₃.trans h₄
  exact .cons (fun _ _ => trivial) fun _ => ((ha x o hx).leads (h₂.toLeads.trans h₂₄)).append
    ((hb x o (hx.follows h₁)).leads h₂₄)

theorem accountsFor_unary (op : UnOp) (opSpan : Span) (h : AccountsFor r outer value) :
    AccountsFor r outer (.unary span op opSpan value) := by
  refine accountsFor_of hr hfree fun c Γ hc hΓ => ?_
  rw [infer]
  refine (h hc hΓ).gives.bind fun a c₁ _ ⟨h₁, hat, ha⟩ => ?_
  refine (unaryType_stays h₁.sound op opSpan hat.knows).gives.bind fun t c₂ h₂ _ =>
    .pure h₂.sound fun x o hx => ?_
  exact .cons (fun _ _ => trivial) fun _ => (ha x o hx).leads h₂

theorem accountsFor_borrow (unique : Bool) (h : AccountsFor r outer value) :
    AccountsFor r outer (.borrow span unique value) := by
  refine accountsFor_of hr hfree fun c Γ hc hΓ => ?_
  rw [infer]
  refine (h hc hΓ).gives.bind fun a c₁ _ ⟨h₁, _, ha⟩ => ?_
  refine (record_stays h₁.sound _ _ _ _).gives.bind fun _ c₂ h₂ _ => .pure h₂.sound fun x o hx => ?_
  exact .cons (fun _ _ => trivial) fun _ => (ha x o hx).leads h₂

theorem accountsFor_deref (h : AccountsFor r outer value) :
    AccountsFor r outer (.deref span value) := by
  refine accountsFor_of hr hfree fun c Γ hc hΓ => ?_
  rw [infer]
  refine (h hc hΓ).gives.bind fun a c₁ _ ⟨h₁, hat, ha⟩ => ?_
  refine (target_stays h₁.sound hat.knows a.span).gives.bind fun t c₂ h₂ _ =>
    .pure h₂.sound fun x o hx => ?_
  exact .cons (fun _ _ => trivial) fun _ => (ha x o hx).leads h₂

theorem accountsFor_assign {place : Expr} (hplace : AccountsFor r outer place)
    (hvalue : AccountsFor r outer value) : AccountsFor r outer (.assign span place value) := by
  refine accountsFor_of hr hfree fun c Γ hc hΓ => ?_
  have hrest : ∀ {c₁ : Checker}, c.Follows c₁ → c₁.Gives (do
      let a ← infer r place
      let b ← infer r value
      Unifier.unify a.ty b.ty ((Provenance.of b.span .assign).relatedTo a.span)
      let own := Row.closed [mutLabel]
      Unifier.includeRow own (← get).context (.of span .performedEffect)
      record .assign (.assign span place value) .unit ""
      return TExpr.assign (.of span .unit own) a b) (fun e c' => ∀ x o, c.Means x o →
        c'.Accounted x o e.nodes) := by
    intro c₁ h₁
    refine (hplace h₁.sound (hΓ.follows h₁)).gives.bind fun a c₂ _ ⟨h₂, hat, ha⟩ => ?_
    have h₀₂ := h₁.trans h₂
    refine (hvalue h₂.sound (hΓ.follows h₀₂)).gives.bind fun b c₃ _ ⟨h₃, hbt, hb⟩ => ?_
    refine (unify_stays h₃.sound (hat.leads h₃.unifier).knows hbt.knows _).gives.bind
      fun _ c₄ h₄ _ => .get_bind ?_
    refine (includeRow_stays h₄.sound (Row.below_closed rfl) _).gives.bind fun _ c₅ h₅ _ => ?_
    refine (record_stays h₅.sound _ _ _ _).gives.bind fun _ c₆ h₆ _ =>
      .pure h₆.sound fun x o hx => ?_
    have h₃₆ := h₄.trans (h₅.trans h₆)
    exact .cons (fun _ _ => trivial) fun _ =>
      ((ha x o (hx.follows h₁)).leads (h₃.toLeads.trans h₃₆)).append
        ((hb x o (hx.follows h₀₂)).leads h₃₆)
  rw [infer]
  dsimp only
  split
  · exact hrest hc.follows
  · exact (report_stays hc _).gives.bind fun _ _ _ h => hrest h.1

/-- The row of a match is what its arms gather. -/
theorem accountsFor_matchOn {scrutinee : Expr} {arms : List Arm}
    (hs : AccountsFor r outer scrutinee) (h : ∀ a ∈ arms, AccountsForArm r outer a) :
    AccountsFor r outer (.matchOn span scrutinee arms) := by
  refine accountsFor_of hr hfree fun c Γ hc hΓ => ?_
  rw [infer]
  refine (hs hc hΓ).gives.bind fun s c₁ _ ⟨h₁, hst, hs⟩ => ?_
  refine (inferArms_accounts hr hfree h .pure h₁.sound (hΓ.follows h₁) hst.knows (by simp)).bind
    fun q c₂ h₂ hq => ?_
  have hrec : ∀ {c' : Checker} {t : Ty}, c₂.Leads c' → c'.Gives (do
      record .matchOn (.matchOn span scrutinee arms) t s!"{arms.length} arm(s)"
      return TExpr.matchOn (.of span t q.2) s q.1 none) (fun e c' => ∀ x o, c.Means x o →
        c'.Accounted x o e.nodes) := by
    intro c' t h
    refine (record_stays h.sound _ _ _ _).gives.bind fun _ c₃ h₃ _ =>
      .pure h₃.sound fun x o hx => ?_
    have h₂₃ := h.trans h₃
    have harms := hq x o [] (hx.follows h₁) fun _ => rfl
    exact .cons (fun hn he => ((harms hn).1.leads h₂₃) he) fun hn =>
      ((hs x o hx).leads (h₂.trans h₂₃)).append ((harms hn).2.leads h₂₃)
  dsimp only
  split
  · exact hrec h₂.sound.leads
  · exact (Stays.lift h₂.sound (freshType_gives h₂.sound.sound)).gives.bind fun t c₃ h₃ _ => hrec h₃

end

mutual

/-- Checking an expression builds matches that account for their patterns. -/
theorem accountsFor (hr : r.Defined) (hfree : r.ErrorFree) : (e : Expr) → AccountsFor r outer e
  | .lit _ value => accountsFor_lit hr hfree value
  | .var _ name => accountsFor_var hr hfree name
  | .call _ func args =>
    accountsFor_call hr hfree (accountsFor hr hfree func) (accountsForList hr hfree args)
  | .lam _ params body => accountsFor_lam hr hfree params (accountsFor hr hfree body)
  | .letIn _ name written value body =>
    accountsFor_letIn hr hfree name written (accountsFor hr hfree value)
      (accountsFor hr hfree body)
  | .seq _ items => accountsFor_seq hr hfree (accountsForList hr hfree items)
  | .cond _ c t e =>
    accountsFor_cond hr hfree (accountsFor hr hfree c) (accountsFor hr hfree t)
      (accountsFor hr hfree e)
  | .matchOn _ s arms =>
    accountsFor_matchOn hr hfree (accountsFor hr hfree s) (accountsForArms hr hfree arms)
  | .tuple _ items => accountsFor_tuple hr hfree (accountsForList hr hfree items)
  | .construct _ name args =>
    accountsFor_construct hr hfree name (accountsForList hr hfree args)
  | .binary _ op opSpan a b =>
    accountsFor_binary hr hfree op opSpan (accountsFor hr hfree a) (accountsFor hr hfree b)
  | .unary _ op opSpan a => accountsFor_unary hr hfree op opSpan (accountsFor hr hfree a)
  | .borrow _ unique a => accountsFor_borrow hr hfree unique (accountsFor hr hfree a)
  | .deref _ a => accountsFor_deref hr hfree (accountsFor hr hfree a)
  | .assign _ place value =>
    accountsFor_assign hr hfree (accountsFor hr hfree place) (accountsFor hr hfree value)

theorem accountsForList (hr : r.Defined) (hfree : r.ErrorFree) : (es : List Expr) →
    ∀ e ∈ es, AccountsFor r outer e
  | [] => List.forall_mem_nil _
  | e :: es => List.forall_mem_cons.2 ⟨accountsFor hr hfree e, accountsForList hr hfree es⟩

theorem accountsForArm (hr : r.Defined) (hfree : r.ErrorFree) : (a : Arm) →
    AccountsForArm r outer a
  | .mk pattern none body =>
    accountsForArm_mk hr hfree pattern (by simp) (accountsFor hr hfree body)
  | .mk pattern (some guard) body =>
    accountsForArm_mk hr hfree pattern (by simpa using accountsFor hr hfree guard)
      (accountsFor hr hfree body)

theorem accountsForArms (hr : r.Defined) (hfree : r.ErrorFree) : (as : List Arm) →
    ∀ a ∈ as, AccountsForArm r outer a
  | [] => List.forall_mem_nil _
  | a :: as => List.forall_mem_cons.2 ⟨accountsForArm hr hfree a, accountsForArms hr hfree as⟩

end

end Checker

end RowCheck
