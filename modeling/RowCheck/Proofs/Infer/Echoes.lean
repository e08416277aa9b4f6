import RowCheck.Proofs.Infer.Reads
import RowCheck.Proofs.Infer.Renaming

/-!
Two runs of the checker side by side, in environments that differ in the names of some locals. An
action echoes another one if it finds out the same. The rules do, as long as the active patterns
that they apply have other names than the locals.
-/
namespace RowCheck

/-- Whether a name is valid, and neither that of an active pattern nor that of a case or variant. -/
structure Registries.Local (r : Registries) (x : String) : Prop where
  valid : identifierError? x = none
  pattern : ∀ p ∈ r.active.toList, p.name ≠ x
  case : r.active.ofCase? x = none
  variant : ∀ d ∈ r.types.toList, d.variant? x = none

namespace Registries.Local

variable {r : Registries} {x : String}

theorem name_ne (h : r.Local x) {case : String} {p : ActivePattern}
    (hp : r.active.ofCase? case = some p) : p.name ≠ x := by
  obtain ⟨owner, -, hget⟩ := Option.bind_eq_some_iff.1 hp
  exact h.pattern p (SortedMap.mem_values_iff.2 ⟨owner, hget⟩)

theorem variant?_eq_none (h : r.Local x) {name : String} {d : SumType}
    (hd : r.types.get? name = some d) : d.variant? x = none :=
  h.variant d (SortedMap.mem_values_iff.2 ⟨name, hd⟩)

theorem constructor?_eq_none (h : r.Local x) : r.types.constructor? x = none := by
  refine Option.eq_none_iff_forall_ne_some.2 fun q hq => ?_
  obtain ⟨owner, -, hd⟩ := Option.bind_eq_some_iff.1 hq
  obtain ⟨d, hd, hv⟩ := Option.bind_eq_some_iff.1 hd
  obtain ⟨v, hv, -⟩ := Option.bind_eq_some_iff.1 hv
  rw [h.variant?_eq_none hd] at hv
  cases hv

end Registries.Local

namespace Checker

/-- Whether a state is another one as far as checking reads it, but for the environments. -/
structure Beside (E : TypeEnv → TypeEnv → Prop) (c c' : Checker) : Prop where
  unifier : c'.unifier = c.unifier
  context : c'.context = c.context
  scope : c'.scope = c.scope
  active : c'.active = c.active
  env : E c.env c'.env

/-- Whether an action, from a state beside the one of another action, leads to a state beside and
has a related answer. -/
def Echoes {α β : Type} (E E' : TypeEnv → TypeEnv → Prop) (m : CheckM α) (m' : CheckM β)
    (R : α → β → Prop) : Prop :=
  ∀ ⦃c c' : Checker⦄, c.Beside E c' → R (m c).1 (m' c').1 ∧ (m c).2.Beside E' (m' c').2

/-- Two environments and no others. -/
def At (env env' : TypeEnv) : TypeEnv → TypeEnv → Prop := fun e e' => e = env ∧ e' = env'

section

variable {α α' β β' : Type} {m : CheckM α} {m' : CheckM α'} {f : α → CheckM β} {f' : α' → CheckM β'}
  {R : α → α' → Prop} {S : β → β' → Prop} {E E₁ E₂ : TypeEnv → TypeEnv → Prop}

theorem Echoes.bind (h : Echoes E E₁ m m' R) (hf : ∀ a a', R a a' → Echoes E₁ E₂ (f a) (f' a') S) :
    Echoes E E₂ (m >>= f) (m' >>= f') S := by
  intro c c' hc
  obtain ⟨hr, hc₁⟩ := h hc
  exact hf _ _ hr hc₁

/-- An action that has the same answer in both runs is followed by actions that may depend on it. -/
theorem Echoes.then {m' : CheckM α} {f' : α → CheckM β'} (h : Echoes E E₁ m m' (· = ·))
    (hf : ∀ a, Echoes E₁ E₂ (f a) (f' a) S) : Echoes E E₂ (m >>= f) (m' >>= f') S :=
  h.bind fun a _ ha => ha ▸ hf a

theorem Echoes.pure {a : α} {a' : α'} (h : R a a') : Echoes E E (pure a) (pure a') R :=
  fun _ _ hc => ⟨h, hc⟩

/-- Answers of the first run that have some property in any case have it here. -/
theorem Echoes.and {P : α → Prop} (h : Echoes E E₁ m m' R) (hp : ∀ c, P (m c).1) :
    Echoes E E₁ m m' (fun a a' => R a a' ∧ P a) := fun c _ hc => ⟨⟨(h hc).1, hp c⟩, (h hc).2⟩

theorem Echoes.grow (hE : ∀ env env', E₁ env env' → E₂ env env') (h : Echoes E E₁ m m' R) :
    Echoes E E₂ m m' R := by
  intro c c' hc
  obtain ⟨hr, hc₁⟩ := h hc
  exact ⟨hr, hc₁.unifier, hc₁.context, hc₁.scope, hc₁.active, hE _ _ hc₁.env⟩

theorem Echoes.get_bind {f : Checker → CheckM β} {f' : Checker → CheckM β'}
    (h : ∀ c c', c.Beside E c' → Echoes E E₁ (f c) (f' c') S) :
    Echoes E E₁ (get >>= f) (get >>= f') S := fun c c' hc => h c c' hc hc

/-- What an action does in each two environments apart, it does in all of them. -/
theorem Echoes.of_at (h : ∀ env env', E env env' → Echoes (At env env') (At env env') m m' R) :
    Echoes E E m m' R := by
  intro c c' hc
  obtain ⟨hr, hc₁⟩ := h _ _ hc.env ⟨hc.unifier, hc.context, hc.scope, hc.active, rfl, rfl⟩
  obtain ⟨henv, henv'⟩ := hc₁.env
  exact ⟨hr, hc₁.unifier, hc₁.context, hc₁.scope, hc₁.active, henv ▸ henv' ▸ hc.env⟩

/-- What is done to the state of unification takes no notice of the environment. -/
theorem lift_echoes (u : UnifyM α) : Echoes E E (liftM u : CheckM α) (liftM u) (· = ·) := by
  intro c c' hc
  obtain ⟨unifier, env, context, scope, active, steps⟩ := c'
  obtain ⟨rfl, rfl, rfl, rfl, henv⟩ := hc
  exact ⟨rfl, rfl, rfl, rfl, rfl, henv⟩

theorem resolving_echoes (m : ResolveM α) : Echoes E E (resolving m) (resolving m) (· = ·) := by
  intro c c' hc
  obtain ⟨unifier, env, context, scope, active, steps⟩ := c'
  obtain ⟨rfl, rfl, rfl, rfl, henv⟩ := hc
  exact ⟨rfl, rfl, rfl, rfl, rfl, henv⟩

theorem modify_echoes {f f' : Checker → Checker}
    (h : ∀ c c', c.Beside E c' → (f c).Beside E₁ (f' c')) :
    Echoes E E₁ (modify f) (modify f') (· = ·) := fun c c' hc => ⟨rfl, h c c' hc⟩

theorem modifyEnv_echoes {f f' : TypeEnv → TypeEnv}
    (h : ∀ env env', E env env' → E₁ (f env) (f' env')) :
    Echoes E E₁ (modifyEnv f) (modifyEnv f') (· = ·) :=
  modify_echoes fun _ _ hc => ⟨hc.unifier, hc.context, hc.scope, hc.active, h _ _ hc.env⟩

end

section

variable {E : TypeEnv → TypeEnv → Prop} {r : Registries}

theorem fail_echoes (category : Category) (message : String) (span : Span) :
    Echoes E E (fail category message span) (fail category message span) (· = ·) := lift_echoes _

/-- What is recorded is not read. -/
theorem traced_echoes (steps steps' : Checker → List InferStep) :
    Echoes E E
      (modify fun c => if c.unifier.tracing then { c with steps := steps c } else c : CheckM Unit)
      (modify fun c => if c.unifier.tracing then { c with steps := steps' c } else c : CheckM Unit)
      (· = ·) := by
  have hsteps : ∀ (c : Checker) (added : List InferStep),
      (if c.unifier.tracing then { c with steps := added } else c) =
        { c with steps := if c.unifier.tracing then added else c.steps } := by
    intro c added
    split <;> rfl
  refine modify_echoes fun c c' hc => ?_
  rw [hsteps, hsteps]
  exact ⟨hc.unifier, hc.context, hc.scope, hc.active, hc.env⟩

theorem record_echoes (rule rule' : InferRule) (e e' : Expr) (t t' : Ty) (detail detail' : String) :
    Echoes E E (record rule e t detail) (record rule' e' t' detail') (· = ·) :=
  traced_echoes _ _

theorem checkName_echoes (name : Name) :
    Echoes E E (checkName name) (checkName name) (· = ·) := by
  unfold checkName
  split
  · exact .pure rfl
  · split
    · exact .pure rfl
    · exact fail_echoes _ _ _

theorem checkName_of_identifier {name : Name} (h : identifierError? name.text = none) :
    checkName name = pure () := by
  unfold checkName
  rw [h]
  split <;> rfl

theorem checkLiteral_echoes (value : Literal) (span : Span) :
    Echoes E E (checkLiteral value span) (checkLiteral value span) (· = ·) := by
  unfold checkLiteral
  split
  · split
    · exact .pure rfl
    · exact lift_echoes _
  · exact .pure rfl

/-! ## Rules -/

/-- Whether the same is known of two nodes. -/
abbrev SameInfo (e e' : TExpr) : Prop := e'.info = e.info

theorem SameInfo.ty {e e' : TExpr} (h : SameInfo e e') : e'.ty = e.ty := congrArg Info.ty h

theorem SameInfo.span {e e' : TExpr} (h : SameInfo e e') : e'.span = e.span := congrArg Info.span h

theorem functionParts_echoes (t : Ty) (why : Provenance) :
    Echoes E E (functionParts t why) (functionParts t why) (· = ·) := by
  unfold functionParts
  refine (lift_echoes _).then fun head => ?_
  split
  · exact .pure rfl
  · exact .pure rfl
  · exact (lift_echoes _).then fun _ => (lift_echoes _).then fun _ => .pure rfl
  · exact (lift_echoes _).then fun _ => (lift_echoes _).then fun _ => .pure rfl

theorem includeInContext_echoes {α α' : Type} {row : Row} {why : Provenance} {a : α} {a' : α'}
    {R : α → α' → Prop} (h : R a a') : Echoes E E (do
      Unifier.includeRow row (← get).context why
      return a : CheckM α) (do
      Unifier.includeRow row (← get).context why
      return a' : CheckM α') R := by
  refine .get_bind fun c c' hc => ?_
  rw [hc.context]
  exact (lift_echoes _).then fun _ => .pure h

theorem applyTo_echoes {callee callee' arg arg' : TExpr} (hf : SameInfo callee callee')
    (ha : SameInfo arg arg') (funcSpan span : Span) :
    Echoes E E (applyTo callee arg funcSpan span) (applyTo callee' arg' funcSpan span)
      SameInfo := by
  unfold applyTo
  rw [hf.ty, ha.ty, ha.span]
  refine (functionParts_echoes _ _).then fun parts => ?_
  split
  · exact .pure rfl
  · exact (lift_echoes _).then fun _ => includeInContext_echoes rfl

theorem unifyFields_eq (constructor : String) {args args' : List TExpr}
    (h : List.Forall₂ SameInfo args args') (fields : List Ty) :
    unifyFields constructor fields args' = unifyFields constructor fields args := by
  induction h generalizing fields with
  | nil => rfl
  | cons ha _ ih =>
    cases fields with
    | nil => rfl
    | cons field fields =>
      unfold unifyFields
      rw [ha.ty, ha.span, ih]

theorem construct_echoes (name : Name) {args args' : List TExpr}
    (h : List.Forall₂ SameInfo args args') (span : Span) :
    Echoes E E (construct r name args span) (construct r name args' span) SameInfo := by
  have hlen := h.length_eq
  have hempty : args'.isEmpty = args.isEmpty := by
    rw [Bool.eq_iff_iff, List.isEmpty_iff_length_eq_zero, List.isEmpty_iff_length_eq_zero, hlen]
  have hfailed : ∀ category message at_, Echoes E E (do
      fail category message at_
      return TExpr.tuple (.quiet span .error) args) (do
      fail category message at_
      return TExpr.tuple (.quiet span .error) args') SameInfo := fun _ _ _ =>
    (fail_echoes _ _ _).then fun _ => .pure rfl
  unfold construct
  dsimp only
  split
  · refine .get_bind fun c c' hc => ?_
    rw [hc.active, hempty]
    split
    · split
      · exact .pure rfl
      · exact hfailed _ _ _
    · exact hfailed _ _ _
  · split
    · exact hfailed _ _ _
    · rw [hlen]
      split
      · exact (fail_echoes _ _ _).then fun _ => .pure rfl
      · refine (lift_echoes _).then fun types => ?_
        rw [unifyFields_eq _ h]
        exact (lift_echoes _).then fun _ => .pure rfl

theorem target_echoes (t : Ty) (span : Span) :
    Echoes E E (target t span) (target t span) (· = ·) := by
  unfold target
  refine (lift_echoes _).then fun head => ?_
  split
  · exact .pure rfl
  · exact .pure rfl
  · exact (lift_echoes _).then fun _ => (lift_echoes _).then fun _ => .pure rfl

theorem binaryType_echoes (op : BinOp) (opSpan : Span) {left left' right right' : TExpr}
    (hl : SameInfo left left') (hr : SameInfo right right') :
    Echoes E E (binaryType op opSpan left right) (binaryType op opSpan left' right')
      (· = ·) := by
  have htwo : ∀ (u v : UnifyM Unit) (t : Ty), Echoes E E (do
      u
      v
      return t : CheckM Ty) (do
      u
      v
      return t) (· = ·) := fun _ _ _ =>
    (lift_echoes _).then fun _ => (lift_echoes _).then fun _ => .pure rfl
  unfold binaryType
  rw [hl.ty, hr.ty, hl.span, hr.span]
  cases op with
  | and | or | add | sub | mul | div | lt | le | gt | ge => exact htwo _ _ _
  | eq | ne => exact (lift_echoes _).then fun _ => .pure rfl

theorem unaryType_echoes (op : UnOp) (opSpan : Span) {operand operand' : TExpr}
    (h : SameInfo operand operand') :
    Echoes E E (unaryType op opSpan operand) (unaryType op opSpan operand') (· = ·) := by
  unfold unaryType
  rw [h.ty, h.span]
  split
  · exact (lift_echoes _).then fun _ => .pure rfl
  · exact (lift_echoes _).then fun _ => .pure rfl

theorem requireBool_echoes {e e' : TExpr} (h : SameInfo e e') :
    Echoes E E (liftM (requireBool e)) (liftM (requireBool e')) (· = ·) := by
  unfold requireBool
  rw [h.ty, h.span]
  exact lift_echoes _

end

variable {x y : String} {on : Bool} {r : Registries}

/-- A variable and its counterpart have the same scheme. -/
theorem inferVar_echoes {env env' : TypeEnv} (h : env.Renamed x y on env') (span : Span)
    {name : String} (hy : name ≠ y) :
    Echoes (At env env') (At env env') (inferVar r (.var span name) name)
      (inferVar r (.var span (if on = true ∧ name = x then y else name))
        (if on = true ∧ name = x then y else name)) SameInfo := by
  unfold inferVar
  refine .get_bind fun c c' hc => ?_
  obtain ⟨henv, henv'⟩ := hc.env
  rw [henv, henv', h.lookup hy]
  split
  · exact (lift_echoes _).then fun t => (record_echoes ..).then fun _ => .pure rfl
  · rename_i hnone
    rw [if_neg (h.not_renamed_of_lookup hnone)]
    split
    · exact construct_echoes _ .nil _
    · exact (fail_echoes _ _ _).then fun _ => .pure rfl

/-- Whether the function of an active pattern has a scheme or not, what follows is the same. -/
theorem activeType_echoes (o : Option Scheme) (span : Span) {β : Type} {m : Ty → CheckM β}
    {E : TypeEnv → TypeEnv → Prop} (hm : ∀ t, Echoes E E (m t) (m t) (· = ·)) :
    Echoes E E (match o with
      | some s => liftM (s.instantiate span) >>= m
      | none => pure Ty.error >>= m) (match o with
      | some s => liftM (s.instantiate span) >>= m
      | none => pure Ty.error >>= m) (· = ·) := by
  cases o with
  | none => exact (Echoes.pure rfl).then hm
  | some s => exact (lift_echoes _).then hm

/-- A case of an active pattern stands for the same in both environments, if these agree on the name
of the pattern. -/
theorem applyActive_echoes {env env' : TypeEnv} {p : ActivePattern}
    (h : env'.lookup p.name = env.lookup p.name) (name : String) (expected : Ty) (span : Span) :
    Echoes (At env env') (At env env') (applyActive r p name expected span)
      (applyActive r p name expected span) (· = ·) := by
  unfold applyActive
  refine .get_bind fun c c' hc => ?_
  obtain ⟨henv, henv'⟩ := hc.env
  rw [henv, henv', h]
  refine activeType_echoes _ span fun function => ?_
  refine (lift_echoes _).then fun parts => (lift_echoes _).then fun _ => ?_
  refine (lift_echoes _).then fun _ => (lift_echoes _).then fun _ => ?_
  exact includeInContext_echoes rfl

theorem resolveCase_echoes {env env' : TypeEnv} (h : env.Renamed x y on env') (hx : r.Local x)
    (hy : r.Local y) (name : String) (expected : Ty) (span : Span) :
    Echoes (At env env') (At env env') (resolveCase r name expected span)
      (resolveCase r name expected span) (· = ·) := by
  unfold resolveCase
  refine .get_bind fun c c' hc => ?_
  rw [hc.unifier]
  split
  · exact .pure rfl
  · split
    · rename_i p hp
      have hsame : env'.lookup p.name = env.lookup p.name := by
        have := h.lookup (hy.name_ne hp)
        rwa [if_neg fun hon => hx.name_ne hp hon.2] at this
      exact (applyActive_echoes hsame name expected span).then fun _ => .pure rfl
    · split
      · exact .pure rfl
      · exact (lift_echoes _).then fun _ => (lift_echoes _).then fun _ => .pure rfl

/-- A name of no case stands for none. -/
theorem resolveCase_local (h : r.Local x) (expected : Ty) (span : Span) :
    resolveCase r x expected span = pure none := by
  have hown : ∀ t, ownVariant? r x t = none := by
    intro t
    unfold ownVariant?
    split
    · rename_i typeName args
      cases hd : r.types.get? typeName with
      | none => rfl
      | some d => simp [h.variant?_eq_none hd]
    · rfl
  unfold resolveCase
  simp only [hown, h.case, h.constructor?_eq_none]
  rfl

end Checker

end RowCheck
