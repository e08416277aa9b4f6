import RowCheck.Proofs.Infer.Errors
import RowCheck.Proofs.Typing.Accounts

/-!
What is assigned to. Errors are never taken back while a group is checked, so whatever is reported on
the way shows at the end. What goes without a report is then known of all that was checked: every
assignment is to a name or to the target of a reference.
-/
namespace RowCheck

open Unifier

namespace TExpr

/-- Whether an expression is the target of a reference, or has no parts. -/
def IsTarget (e : TExpr) : Prop := (∃ i t, e = .deref i t) ∨ e.nodes = [e]

/-- Whether a node assigns to nothing but a target, if it assigns. -/
def AssignsPlace : TExpr → Prop
  | assign _ t _ => t.IsTarget
  | _ => True

/-- Whether all assignments within an expression are to targets. -/
def Targeted (e : TExpr) : Prop := ∀ n ∈ e.nodes, n.AssignsPlace

end TExpr

/-! ## Checking -/

namespace Checker

/-- Whether no error is among what has been reported. -/
def Clear (c : Checker) : Prop := ∀ d ∈ c.unifier.errors, d.isError = false

/-- Whether an action only adds to the errors, in every state, and its answer has some property unless
something is at fault after it. -/
structure Vouches {α : Type} (m : CheckM α) (P : α → Prop) : Prop where
  errors : ∀ c, c.unifier.errors <+: (m c).2.unifier.errors
  answer : ∀ c, (m c).2.Clear → P (m c).1

theorem Clear.before {c c' : Checker} (h : c'.Clear) (hc : c.unifier.errors <+: c'.unifier.errors) :
    c.Clear := fun d hd => h d (hc.mem hd)

section

variable {α β : Type} {m : CheckM α} {f : α → CheckM β} {P P' : α → Prop} {Q : β → Prop}

theorem Vouches.pure {a : α} (h : P a) : Vouches (pure a) P :=
  ⟨fun _ => List.prefix_refl _, fun _ _ => h⟩

theorem Vouches.bind (h : Vouches m P) (hf : ∀ a, Vouches (f a) fun b => P a → Q b) :
    Vouches (m >>= f) Q where
  errors c := (h.errors c).trans ((hf (m c).1).errors (m c).2)
  answer c hclear := (hf (m c).1).answer (m c).2 hclear
    (h.answer c (hclear.before ((hf (m c).1).errors (m c).2)))

theorem Vouches.imp (h : Vouches m P) (hp : ∀ a, P a → P' a) : Vouches m P' :=
  ⟨h.errors, fun c hclear => hp _ (h.answer c hclear)⟩

/-- An action of which nothing needs to be known. -/
theorem Vouches.seq (h : Vouches m P) (hf : ∀ a, Vouches (f a) Q) : Vouches (m >>= f) Q :=
  h.bind fun a => (hf a).imp fun _ hq _ => hq

/-- What all answers have in common is known also of those at fault. -/
theorem Vouches.also (h : Vouches m P) (hp : Always m P') : Vouches m fun a => P a ∧ P' a :=
  ⟨h.errors, fun c hclear => ⟨h.answer c hclear, hp c⟩⟩

theorem Vouches.get_bind {f : Checker → CheckM β} (h : ∀ c, Vouches (f c) Q) :
    Vouches (get >>= f) Q := ⟨fun c => (h c).errors c, fun c => (h c).answer c⟩

theorem Vouches.lift {x : UnifyM α} (h : AddsErrors x) : Vouches (liftM x) fun _ => True :=
  ⟨fun c => h.moves c.unifier, fun _ _ => trivial⟩

theorem Vouches.modify {f : Checker → Checker} (h : ∀ c, (f c).unifier = c.unifier) :
    Vouches (modify f) fun _ => True :=
  ⟨fun c => (congrArg Unifier.errors (h c)).symm ▸ List.prefix_refl _, fun _ _ => trivial⟩

end

theorem modifyEnv_vouches (f : TypeEnv → TypeEnv) : Vouches (modifyEnv f) fun _ => True :=
  .modify fun _ => rfl

theorem resolving_vouches {α : Type} {x : ResolveM α} (h : x.AddsErrors) :
    Vouches (resolving x) fun _ => True :=
  ⟨fun c => (h.run c.scope).moves c.unifier, fun _ _ => trivial⟩

theorem record_vouches (rule : InferRule) (e : Expr) (t : Ty) (detail : String) :
    Vouches (record rule e t detail) fun _ => True :=
  .modify fun c => by split <;> rfl

theorem fail_vouches (category : Category) (message : String) (span : Span) :
    Vouches (fail category message span) fun _ => True :=
  .lift (report_addsErrors _)

/-- What comes after an error need not be right. -/
theorem report_vouches {d : Diagnostic} (h : d.isError = true) :
    Vouches (liftM (report d)) fun _ => False where
  errors c := (report_addsErrors d).moves c.unifier
  answer c hclear := by
    have hd : d ∈ (report d c.unifier).2.errors := List.mem_append_right _ List.mem_cons_self
    exact Bool.false_ne_true ((hclear d hd).symm.trans h)

theorem unify_vouches (a b : Ty) (why : Provenance) :
    Vouches (liftM (unify a b why)) fun _ => True := .lift (unify_addsErrors a b why)

theorem includeRow_vouches (row within : Row) (why : Provenance) :
    Vouches (liftM (includeRow row within why)) fun _ => True :=
  .lift (includeRow_addsErrors row within why)

theorem checkName_vouches (name : Name) : Vouches (checkName name) fun _ => True := by
  unfold checkName
  split
  · exact .pure trivial
  · split
    · exact .pure trivial
    · exact fail_vouches ..

theorem checkLiteral_vouches (value : Literal) (span : Span) :
    Vouches (checkLiteral value span) fun _ => True := by
  unfold checkLiteral
  split
  · split
    · exact .pure trivial
    · exact .lift (report_addsErrors _)
  · exact .pure trivial

theorem freshType_addsErrors : AddsErrors freshType := ⟨fun _ => List.prefix_refl _⟩

theorem freshFunction_vouches : Vouches (liftM freshFunction) fun _ => True :=
  .lift ⟨fun _ => List.prefix_refl _⟩

theorem find_vouches (t : Ty) : Vouches (liftM (find t)) fun _ => True :=
  .lift (find_leavesInclusions t).addsErrors

theorem requireNumeric_vouches (t : Ty) (why : Provenance) :
    Vouches (liftM (requireNumeric t why)) fun _ => True :=
  .lift (requireNumeric_leavesInclusions t why).addsErrors

theorem functionParts_vouches (t : Ty) (why : Provenance) :
    Vouches (functionParts t why) fun _ => True := by
  unfold functionParts
  refine (find_vouches t).seq fun head => ?_
  split
  · exact .pure trivial
  · exact .pure trivial
  · exact freshFunction_vouches.seq fun _ => (unify_vouches ..).seq fun _ => .pure trivial
  · exact freshFunction_vouches.seq fun _ => (unify_vouches ..).seq fun _ => .pure trivial

theorem applyTo_vouches (callee arg : TExpr) (funcSpan span : Span) :
    Vouches (applyTo callee arg funcSpan span) fun _ => True := by
  unfold applyTo
  refine (functionParts_vouches ..).seq fun parts => ?_
  split
  · exact .pure trivial
  · exact (unify_vouches ..).seq fun _ => .get_bind fun _ => (includeRow_vouches ..).seq fun _ =>
      .pure trivial

/-- Whether the nodes of an expression are itself, which does not assign, and those of its parts. -/
structure Over (parts : List TExpr) (e : TExpr) : Prop where
  nodes : e.nodes = e :: TExpr.nodesList parts
  place : e.AssignsPlace

theorem construct_vouches (r : Registries) (name : Name) (args : List TExpr) (span : Span) :
    Vouches (construct r name args span) (Over args) := by
  have hfailed : Over args (.tuple (.quiet span .error) args) := ⟨rfl, trivial⟩
  unfold construct
  dsimp only
  split
  · refine .get_bind fun c => ?_
    split
    · split
      · exact .pure ⟨rfl, trivial⟩
      · exact (fail_vouches ..).seq fun _ => .pure hfailed
    · exact (fail_vouches ..).seq fun _ => .pure hfailed
  · split
    · exact (fail_vouches ..).seq fun _ => .pure hfailed
    · split
      · exact (fail_vouches ..).seq fun _ => .pure hfailed
      · exact (Vouches.lift (freshTypes_addsErrors _)).seq fun _ =>
          (Vouches.lift (unifyFields_addsErrors ..)).seq fun _ => .pure ⟨rfl, trivial⟩

theorem inferVar_vouches (r : Registries) (e : Expr) (name : String) :
    Vouches (inferVar r e name) (Over []) := by
  unfold inferVar
  refine .get_bind fun c => ?_
  split
  · exact (Vouches.lift (instantiate_leavesInclusions ..).addsErrors).seq fun _ =>
      (record_vouches ..).seq fun _ => .pure ⟨rfl, trivial⟩
  · split
    · exact construct_vouches ..
    · exact (fail_vouches ..).seq fun _ => .pure ⟨rfl, trivial⟩

theorem target_vouches (t : Ty) (span : Span) : Vouches (target t span) fun _ => True := by
  unfold target
  refine (find_vouches t).seq fun head => ?_
  split
  · exact .pure trivial
  · exact .pure trivial
  · exact (Vouches.lift freshType_addsErrors).seq fun _ => (unify_vouches ..).seq fun _ =>
      .pure trivial

theorem binaryType_vouches (op : BinOp) (opSpan : Span) (left right : TExpr) :
    Vouches (binaryType op opSpan left right) fun _ => True := by
  unfold binaryType
  dsimp only
  split <;> refine (unify_vouches ..).seq fun _ => ?_
  all_goals first
    | exact .pure trivial
    | exact (requireNumeric_vouches ..).seq fun _ => .pure trivial
    | exact (unify_vouches ..).seq fun _ => .pure trivial

theorem unaryType_vouches (op : UnOp) (opSpan : Span) (operand : TExpr) :
    Vouches (unaryType op opSpan operand) fun _ => True := by
  cases op
  · exact (requireNumeric_vouches ..).seq fun _ => .pure trivial
  · exact (unify_vouches ..).seq fun _ => .pure trivial

/-! ## Patterns -/

theorem bindPatternName_vouches (name : String) (expected : Ty) (span : Span) :
    Vouches (bindPatternName name expected span) fun _ => True :=
  (checkName_vouches _).seq fun _ => (modifyEnv_vouches _).seq fun _ => .pure trivial

theorem activeType_vouches {m : Ty → CheckM (CaseTarget × Row)}
    (hm : ∀ t, Vouches (m t) fun _ => True) (s : Option Scheme) (span : Span) :
    Vouches (match s with
      | some s => liftM (s.instantiate span) >>= m
      | none => pure Ty.error >>= m) fun _ => True := by
  split
  · exact .seq (.lift (instantiate_leavesInclusions ..).addsErrors) hm
  · exact hm _

theorem applyActive_vouches (r : Registries) (p : ActivePattern) (name : String) (expected : Ty)
    (span : Span) : Vouches (applyActive r p name expected span) fun _ => True := by
  unfold applyActive
  refine .get_bind fun c => activeType_vouches (fun function => ?_) _ span
  refine freshFunction_vouches.seq fun _ => (unify_vouches ..).seq fun _ => ?_
  refine (unify_vouches ..).seq fun _ => (unify_vouches ..).seq fun _ => .get_bind fun _ => ?_
  exact (includeRow_vouches ..).seq fun _ => .pure trivial

theorem resolveCase_vouches (r : Registries) (name : String) (expected : Ty) (span : Span) :
    Vouches (resolveCase r name expected span) fun _ => True := by
  unfold resolveCase
  refine .get_bind fun c => ?_
  split
  · exact .pure trivial
  · split
    · exact (applyActive_vouches ..).seq fun _ => .pure trivial
    · split
      · exact .pure trivial
      · exact (Vouches.lift (freshTypes_addsErrors _)).seq fun _ => (unify_vouches ..).seq fun _ =>
          .pure trivial

mutual

theorem inferPattern_vouches (r : Registries) : (p : Pattern) → (t : Ty) → (own : Row) →
    Vouches (inferPattern r p t own) fun _ => True
  | .wild _, t, own => by
    unfold inferPattern
    exact .pure trivial
  | .var span name, t, own => by
    have hfound : ∀ {m : Option (CaseTarget × Row) → CheckM (TPattern × Row)},
        (∀ found, Vouches (m found) fun _ => True) → Vouches (if Text.isCapitalized name then
          resolveCase r name t span >>= m else pure none >>= m) fun _ => True := by
      intro m hm
      split
      · exact (resolveCase_vouches ..).seq hm
      · exact hm none
    rw [inferPattern]
    refine hfound fun found => ?_
    dsimp only
    split
    · exact (bindPatternName_vouches ..).seq fun _ => .pure trivial
    · split
      · exact .pure trivial
      · exact (fail_vouches ..).seq fun _ => .pure trivial
  | .lit _ _, t, own => by
    unfold inferPattern
    exact (checkLiteral_vouches ..).seq fun _ => (unify_vouches ..).seq fun _ => .pure trivial
  | .tuple _ items, t, own => by
    unfold inferPattern
    refine (Vouches.lift (freshItems_addsErrors _)).seq fun types => (unify_vouches ..).seq fun _ => ?_
    exact (inferPatterns_vouches r items types own).seq fun _ => .pure trivial
  | .ctor span name args, t, own => by
    unfold inferPattern
    refine (resolveCase_vouches ..).seq fun found => ?_
    split
    · exact (fail_vouches ..).seq fun _ => (bindOnly_vouches r args own).seq fun _ => .pure trivial
    · split
      · exact (inferPatterns_vouches r args _ _).seq fun _ => .pure trivial
      · exact (fail_vouches ..).seq fun _ => (bindOnly_vouches r args _).seq fun _ => .pure trivial

theorem inferPatterns_vouches (r : Registries) : (ps : List Pattern) → (ts : List Ty) →
    (own : Row) → Vouches (inferPatterns r ps ts own) fun _ => True
  | [], _, own | _ :: _, [], own => by
    unfold inferPatterns
    exact .pure trivial
  | p :: ps, t :: ts, own => by
    unfold inferPatterns
    refine (inferPattern_vouches r p t own).seq fun q => ?_
    exact (inferPatterns_vouches r ps ts q.2).seq fun _ => .pure trivial

theorem bindOnly_vouches (r : Registries) : (ps : List Pattern) → (own : Row) →
    Vouches (bindOnly r ps own) fun _ => True
  | [], own => by
    unfold bindOnly
    exact .pure trivial
  | p :: ps, own => by
    unfold bindOnly
    refine (Vouches.lift freshType_addsErrors).seq fun t => ?_
    exact (inferPattern_vouches r p t own).seq fun q => bindOnly_vouches r ps q.2

end

/-! ## Functions -/

theorem exposedEffects_vouches (performed : Row) (declared : Declared) (span : Span) :
    Vouches (exposedEffects performed declared span) fun _ => True := by
  unfold exposedEffects
  split
  · exact .pure trivial
  · exact (resolving_vouches (RowExpr.resolve_addsErrors _)).seq fun _ =>
      (includeRow_vouches ..).seq fun _ => .pure trivial

theorem bindParams_vouches (r : Registries) (ps : List Param) :
    Vouches (bindParams r ps) fun _ => True := by
  induction ps with
  | nil => exact .pure trivial
  | cons p ps ih =>
    have hrest : ∀ t, Vouches (do
        bindMono p.name.text t
        return ⟨p.name.text, p.name.span, t, none⟩ :: (← bindParams r ps)) fun _ => True := fun t =>
      (modifyEnv_vouches _).seq fun _ => ih.seq fun _ => .pure trivial
    unfold bindParams
    refine (checkName_vouches _).seq fun _ => ?_
    split
    · exact (resolving_vouches (TypeExpr.resolve_addsErrors ..)).seq hrest
    · exact (Vouches.lift freshType_addsErrors).seq hrest

section

variable {body : CheckM TExpr}

theorem inContext_vouches (h : Vouches body TExpr.Targeted) (expected : Expected) :
    Vouches (inContext body expected) fun q => q.1.Targeted := by
  have hrest : ∀ (outer : Row) {e : TExpr}, Vouches (do
      let performed := (← get).context
      modify (fun c => { c with context := outer })
      return (e, performed)) fun q => e.Targeted → q.1.Targeted := fun outer e =>
    .get_bind fun _ => .seq (.modify fun _ => rfl) fun _ => .pure id
  unfold inContext
  refine .get_bind fun c => .seq (.lift ⟨fun _ => List.prefix_refl _⟩) fun inner => ?_
  refine .seq (.modify fun _ => rfl) fun _ => h.bind fun e => ?_
  cases expected with
  | none => exact hrest _
  | some p => exact (unify_vouches ..).seq fun _ => hrest _

theorem targeted_lambdaChain (span : Span) {body : TExpr} (h : body.Targeted) (effects : Row)
    (bs : List Binder) : (lambdaChain span body effects bs).Targeted := by
  induction bs with
  | nil => exact h
  | cons b bs ih => cases bs <;> exact List.forall_mem_cons.2 ⟨trivial, ih⟩

theorem inferLambda_vouches (h : Vouches body TExpr.Targeted) (r : Registries)
    (params : List Param) (span : Span) (expected : Expected) (declared : Declared) :
    Vouches (inferLambda r params body span expected declared) fun q => q.1.Targeted := by
  unfold inferLambda
  refine (modifyEnv_vouches _).seq fun _ => (bindParams_vouches r params).seq fun binders => ?_
  refine (inContext_vouches h expected).bind fun q => ?_
  refine (exposedEffects_vouches ..).seq fun effects => (modifyEnv_vouches _).seq fun _ => ?_
  exact .pure fun hq => targeted_lambdaChain span hq effects _

end

/-! ## Expressions -/

/-- Whether checking an expression builds assignments to targets only, and from an expression that can
be assigned to a target. -/
def BuildsTargets (r : Registries) (e : Expr) : Prop :=
  Vouches (infer r e) fun t => t.Targeted ∧ (e.isPlace = true → t.IsTarget)

/-- Whether checking an arm builds assignments to targets only. -/
def BuildsTargetsArm (r : Registries) (a : Arm) : Prop :=
  ∀ t first own, Vouches (inferArm r t first own a) fun q => ∀ e ∈ q.1.parts, e.Targeted

section

variable {r : Registries} {span : Span} {func value body : Expr} {es : List Expr}

/-- What is no name and no dereference cannot be assigned to. -/
theorem buildsTargets_of {e : Expr} (h : Vouches (infer r e) TExpr.Targeted)
    (he : e.isPlace = false) : BuildsTargets r e :=
  h.imp fun _ ht => ⟨ht, fun hp => absurd (he.symm.trans hp) Bool.false_ne_true⟩

theorem BuildsTargets.targeted {e : Expr} (h : BuildsTargets r e) :
    Vouches (infer r e) TExpr.Targeted := h.imp fun _ => And.left

theorem buildsTargets_var (name : String) : BuildsTargets r (.var span name) := by
  rw [BuildsTargets, infer]
  refine (inferVar_vouches r (.var span name) name).imp fun t ht => ⟨?_, fun _ => .inr ht.nodes⟩
  rw [TExpr.Targeted, ht.nodes]
  exact List.forall_mem_cons.2 ⟨ht.place, List.forall_mem_nil _⟩

theorem inferList_vouches (h : ∀ e ∈ es, BuildsTargets r e) :
    Vouches (inferList r es) fun ts => ∀ t ∈ ts, t.Targeted := by
  induction es with
  | nil =>
    unfold inferList
    exact .pure (List.forall_mem_nil _)
  | cons e es ih =>
    rw [List.forall_mem_cons] at h
    unfold inferList
    refine h.1.targeted.bind fun t => (ih h.2).bind fun ts => .pure fun hts ht => ?_
    exact List.forall_mem_cons.2 ⟨ht, hts⟩

theorem targeted_call {i : Info} {f a : TExpr} (hf : f.Targeted) (ha : a.Targeted) :
    (TExpr.call i f a).Targeted :=
  List.forall_mem_cons.2 ⟨trivial, List.forall_mem_append.2 ⟨hf, ha⟩⟩

theorem inferCall_vouches (h : ∀ e ∈ es, BuildsTargets r e) (funcSpan span : Span)
    (callee : TExpr) :
    Vouches (inferCall r funcSpan span callee es) fun t => callee.Targeted → t.Targeted := by
  induction es generalizing callee with
  | nil =>
    unfold inferCall
    exact .pure id
  | cons e es ih =>
    rw [List.forall_mem_cons] at h
    unfold inferCall
    refine h.1.targeted.bind fun arg => ?_
    refine ((applyTo_vouches ..).also (applyTo_always callee arg funcSpan span)).bind fun next => ?_
    refine (ih h.2 next).imp fun t ht hnext harg hcallee => ht ?_
    obtain ⟨i, rfl⟩ := hnext.2
    exact targeted_call hcallee harg

theorem buildsTargets_call (hf : BuildsTargets r func) (h : ∀ e ∈ es, BuildsTargets r e) :
    BuildsTargets r (.call span func es) := by
  refine buildsTargets_of ?_ rfl
  rw [infer]
  have hrecord : ∀ result : TExpr, Vouches (do
      record .call (.call span func es) result.ty s!"{es.length} argument(s)"
      return result) fun t => result.Targeted → t.Targeted := fun result =>
    (record_vouches ..).seq fun _ => .pure id
  refine hf.targeted.bind fun callee => ?_
  dsimp only
  split
  · refine ((applyTo_vouches ..).also (applyTo_always callee _ func.span span)).bind fun result => ?_
    refine (hrecord result).imp fun t ht hresult hcallee => ht ?_
    obtain ⟨i, rfl⟩ := hresult.2
    exact targeted_call hcallee (List.forall_mem_cons.2 ⟨trivial, List.forall_mem_nil _⟩)
  · exact (inferCall_vouches h func.span span callee).bind fun result =>
      (hrecord result).imp fun t ht hresult hcallee => ht (hresult hcallee)

theorem buildsTargets_lam (params : List Param) (hb : BuildsTargets r body) :
    BuildsTargets r (.lam span params body) := by
  refine buildsTargets_of ?_ rfl
  rw [infer]
  refine (inferLambda_vouches hb.targeted r params span none none).bind fun q => ?_
  exact (record_vouches ..).seq fun _ => .pure id

theorem localScheme_vouches (e value : Expr) (name : String) (t : Ty) :
    Vouches (localScheme e value name t) fun _ => True := by
  unfold localScheme
  split
  · refine .get_bind fun c => .seq (.lift (generalize_leavesInclusions ..).addsErrors) fun s => ?_
    exact (record_vouches ..).seq fun _ => .pure trivial
  · exact .pure trivial

theorem buildsTargets_letIn (name : Name) (written : Option TypeExpr) (hv : BuildsTargets r value)
    (hb : BuildsTargets r body) : BuildsTargets r (.letIn span name written value body) := by
  refine buildsTargets_of ?_ rfl
  rw [infer]
  have hrest : ∀ v : TExpr, Vouches (do
      let s ← localScheme (.letIn span name written value body) value name.text v.ty
      modifyEnv .pushScope
      modifyEnv (fun env => env.bind name.text s)
      let b ← infer r body
      modifyEnv .popScope
      record .letIn (.letIn span name written value body) b.ty name.text
      return TExpr.letIn (.quiet span b.ty) ⟨name.text, name.span, v.ty, none⟩ v b)
      fun t => v.Targeted → t.Targeted := by
    intro v
    refine (localScheme_vouches ..).seq fun s => (modifyEnv_vouches _).seq fun _ => ?_
    refine (modifyEnv_vouches _).seq fun _ => hb.targeted.bind fun b => ?_
    refine (modifyEnv_vouches _).seq fun _ => (record_vouches ..).seq fun _ => ?_
    exact .pure fun hb hv => List.forall_mem_cons.2 ⟨trivial, List.forall_mem_append.2 ⟨hv, hb⟩⟩
  refine (checkName_vouches name).seq fun _ => hv.targeted.bind fun v => ?_
  cases written with
  | none => exact hrest v
  | some w =>
    exact (resolving_vouches (TypeExpr.resolve_addsErrors ..)).seq fun t =>
      (unify_vouches ..).seq fun _ => hrest v

theorem requireBool_vouches (e : TExpr) : Vouches (liftM (requireBool e)) fun _ => True :=
  unify_vouches ..

theorem buildsTargets_cond {c t e : Expr} (hc : BuildsTargets r c) (ht : BuildsTargets r t)
    (he : BuildsTargets r e) : BuildsTargets r (.cond span c t e) := by
  refine buildsTargets_of ?_ rfl
  rw [infer]
  refine hc.targeted.bind fun c => (requireBool_vouches c).seq fun _ => ht.targeted.bind fun t => ?_
  refine he.targeted.bind fun e => (unify_vouches ..).seq fun _ => (record_vouches ..).seq fun _ => ?_
  exact .pure fun he ht hc => List.forall_mem_cons.2
    ⟨trivial, List.forall_mem_append.2 ⟨List.forall_mem_append.2 ⟨hc, ht⟩, he⟩⟩

theorem unifyArm_vouches (first : Option TExpr) (body : TExpr) :
    Vouches (liftM (unifyArm first body)) fun _ => True := by
  cases first with
  | none => exact .lift (.pure _)
  | some f => exact unify_vouches ..

theorem buildsTargetsArm_mk (pattern : Pattern) {guard : Option Expr}
    (hg : ∀ g ∈ guard, BuildsTargets r g) (hb : BuildsTargets r body) :
    BuildsTargetsArm r (.mk pattern guard body) := by
  intro t first own
  have hrest : ∀ (p : TPattern) (own : Row) (g : Option TExpr), Vouches (do
      let b ← infer r body
      modifyEnv .popScope
      unifyArm first b
      return (TArm.mk p g b, own)) fun q =>
        (∀ e ∈ g, e.Targeted) → ∀ e ∈ q.1.parts, e.Targeted := by
    intro p own g
    refine hb.targeted.bind fun b => (modifyEnv_vouches _).seq fun _ => ?_
    refine (unifyArm_vouches first b).seq fun _ => .pure fun hb hg e he => ?_
    rcases TArm.mem_parts.1 he with he | rfl
    · exact hg e he
    · exact hb
  cases guard with
  | none =>
    unfold inferArm
    refine (modifyEnv_vouches _).seq fun _ => (inferPattern_vouches r pattern t own).seq fun q => ?_
    exact (hrest q.1 q.2 none).imp fun _ h => h nofun
  | some guard =>
    unfold inferArm
    refine (modifyEnv_vouches _).seq fun _ => (inferPattern_vouches r pattern t own).seq fun q => ?_
    refine (hg guard rfl).targeted.bind fun g => (requireBool_vouches g).seq fun _ => ?_
    refine (hrest q.1 q.2 (some g)).imp fun _ h hg => h fun e he => ?_
    cases he
    exact hg

theorem inferArms_vouches {as : List Arm} (h : ∀ a ∈ as, BuildsTargetsArm r a) (t : Ty)
    (first : Option TExpr) (own : Row) : Vouches (inferArms r t first own as) fun q =>
      ∀ n ∈ TExpr.nodesArms q.1, n.AssignsPlace := by
  induction as generalizing first own with
  | nil =>
    unfold inferArms
    exact .pure (List.forall_mem_nil _)
  | cons a as ih =>
    rw [List.forall_mem_cons] at h
    unfold inferArms
    refine (h.1 t first own).bind fun q => (ih h.2 _ q.2).bind fun rest => .pure fun hrest hq => ?_
    rw [TExpr.nodesArms_eq] at hrest ⊢
    rw [List.flatMap_cons, List.forall_mem_append]
    refine ⟨fun n hn => ?_, hrest⟩
    obtain ⟨e, he, hn⟩ := List.mem_flatMap.1 hn
    exact hq e he n hn

theorem buildsTargets_matchOn {s : Expr} {as : List Arm} (hs : BuildsTargets r s)
    (h : ∀ a ∈ as, BuildsTargetsArm r a) : BuildsTargets r (.matchOn span s as) := by
  refine buildsTargets_of ?_ rfl
  rw [infer]
  refine hs.targeted.bind fun s' => (inferArms_vouches h s'.ty none .pure).bind fun q => ?_
  have hrest : ∀ t, Vouches (do
      record .matchOn (.matchOn span s as) t s!"{as.length} arm(s)"
      return TExpr.matchOn (.of span t q.2) s' q.1 none) fun t =>
        (∀ n ∈ TExpr.nodesArms q.1, n.AssignsPlace) → s'.Targeted → t.Targeted := fun t =>
    (record_vouches ..).seq fun _ => .pure fun hq hs =>
      List.forall_mem_cons.2 ⟨trivial, List.forall_mem_append.2 ⟨hs, hq⟩⟩
  dsimp only
  split
  · exact hrest _
  · exact .seq (.lift freshType_addsErrors) hrest

theorem buildsTargets_deref {a : Expr} (ha : BuildsTargets r a) : BuildsTargets r (.deref span a) := by
  rw [BuildsTargets, infer]
  refine ha.targeted.bind fun t => (target_vouches ..).seq fun ty => .pure fun ht => ⟨?_, fun _ => ?_⟩
  · exact List.forall_mem_cons.2 ⟨trivial, ht⟩
  · exact .inl ⟨_, _, rfl⟩

/-- Whatever is not a place is reported. -/
theorem buildsTargets_assign {place : Expr} (hp : BuildsTargets r place)
    (hv : BuildsTargets r value) : BuildsTargets r (.assign span place value) := by
  refine buildsTargets_of ?_ rfl
  rw [infer]
  have hrest : Vouches (do
      let a ← infer r place
      let b ← infer r value
      Unifier.unify a.ty b.ty ((Provenance.of b.span .assign).relatedTo a.span)
      let own := Row.closed [mutLabel]
      Unifier.includeRow own (← get).context (.of span .performedEffect)
      record .assign (.assign span place value) .unit ""
      return TExpr.assign (.of span .unit own) a b)
      fun t => place.isPlace = true → t.Targeted := by
    refine hp.bind fun a => hv.targeted.bind fun b => (unify_vouches ..).seq fun _ => ?_
    refine .get_bind fun c => (includeRow_vouches ..).seq fun _ => (record_vouches ..).seq fun _ => ?_
    exact .pure fun hb ⟨ha, htarget⟩ hplace => List.forall_mem_cons.2
      ⟨htarget hplace, List.forall_mem_append.2 ⟨ha, hb⟩⟩
  dsimp only
  split
  · rename_i hplace
    exact hrest.imp fun _ h => h hplace
  · exact (report_vouches rfl).bind fun _ => hrest.imp fun _ _ h => h.elim

end

mutual

/-- Checking an expression builds assignments to targets only, unless something is at fault. -/
theorem buildsTargets (r : Registries) : (e : Expr) → BuildsTargets r e
  | .lit _ value => by
    refine buildsTargets_of ?_ rfl
    rw [infer]
    refine (checkLiteral_vouches ..).seq fun _ => (record_vouches ..).seq fun _ => .pure ?_
    exact List.forall_mem_cons.2 ⟨trivial, List.forall_mem_nil _⟩
  | .var _ name => buildsTargets_var name
  | .call _ func args => buildsTargets_call (buildsTargets r func) (buildsTargetsList r args)
  | .lam _ params body => buildsTargets_lam params (buildsTargets r body)
  | .letIn _ name written value body =>
    buildsTargets_letIn name written (buildsTargets r value) (buildsTargets r body)
  | .seq _ items => by
    refine buildsTargets_of ?_ rfl
    rw [infer]
    refine (inferList_vouches (buildsTargetsList r items)).bind fun ts => .pure fun hts => ?_
    exact List.forall_mem_cons.2 ⟨trivial, TExpr.forall_nodesList hts⟩
  | .cond _ c t e => buildsTargets_cond (buildsTargets r c) (buildsTargets r t) (buildsTargets r e)
  | .matchOn _ s as => buildsTargets_matchOn (buildsTargets r s) (buildsTargetsArms r as)
  | .tuple _ items => by
    refine buildsTargets_of ?_ rfl
    rw [infer]
    refine (inferList_vouches (buildsTargetsList r items)).bind fun ts => ?_
    refine (record_vouches ..).seq fun _ => .pure fun hts => ?_
    exact List.forall_mem_cons.2 ⟨trivial, TExpr.forall_nodesList hts⟩
  | .construct _ name args => by
    refine buildsTargets_of ?_ rfl
    rw [infer]
    refine (inferList_vouches (buildsTargetsList r args)).bind fun ts => ?_
    refine (construct_vouches r name ts _).bind fun e => (record_vouches ..).seq fun _ => ?_
    refine .pure fun he hts => ?_
    rw [TExpr.Targeted, he.nodes]
    exact List.forall_mem_cons.2 ⟨he.place, TExpr.forall_nodesList hts⟩
  | .binary _ _ _ a b => by
    refine buildsTargets_of ?_ rfl
    rw [infer]
    refine (buildsTargets r a).targeted.bind fun a => (buildsTargets r b).targeted.bind fun b => ?_
    refine (binaryType_vouches ..).seq fun _ => (record_vouches ..).seq fun _ => .pure fun hb ha => ?_
    exact List.forall_mem_cons.2 ⟨trivial, List.forall_mem_append.2 ⟨ha, hb⟩⟩
  | .unary _ _ _ a => by
    refine buildsTargets_of ?_ rfl
    rw [infer]
    refine (buildsTargets r a).targeted.bind fun a => (unaryType_vouches ..).seq fun _ => ?_
    exact .pure fun ha => List.forall_mem_cons.2 ⟨trivial, ha⟩
  | .borrow _ _ a => by
    refine buildsTargets_of ?_ rfl
    rw [infer]
    refine (buildsTargets r a).targeted.bind fun a => (record_vouches ..).seq fun _ => ?_
    exact .pure fun ha => List.forall_mem_cons.2 ⟨trivial, ha⟩
  | .deref _ a => buildsTargets_deref (buildsTargets r a)
  | .assign _ place value => buildsTargets_assign (buildsTargets r place) (buildsTargets r value)

theorem buildsTargetsList (r : Registries) : (es : List Expr) → ∀ e ∈ es, BuildsTargets r e
  | [] => List.forall_mem_nil _
  | e :: es => List.forall_mem_cons.2 ⟨buildsTargets r e, buildsTargetsList r es⟩

theorem buildsTargetsArm (r : Registries) : (a : Arm) → BuildsTargetsArm r a
  | .mk pattern none body => buildsTargetsArm_mk pattern nofun (buildsTargets r body)
  | .mk pattern (some guard) body =>
    buildsTargetsArm_mk pattern (by simpa using buildsTargets r guard) (buildsTargets r body)

theorem buildsTargetsArms (r : Registries) : (as : List Arm) → ∀ a ∈ as, BuildsTargetsArm r a
  | [] => List.forall_mem_nil _
  | a :: as => List.forall_mem_cons.2 ⟨buildsTargetsArm r a, buildsTargetsArms r as⟩

end

/-! ## Groups -/

theorem resultType_vouches {r : Registries} {d : FnDecl} {P : TExpr × Row → Prop}
    {m : Expected → CheckM (TExpr × Row)} (hm : ∀ e, Vouches (m e) P) :
    Vouches (match d.result with
      | some written => do
        let t ← resolving (written.resolve r.types)
        pure (some (t, (Provenance.of d.body.span .resultType).relatedTo written.span)) >>= m
      | none => pure none >>= m) P := by
  split
  · exact (resolving_vouches (TypeExpr.resolve_addsErrors ..)).seq fun t => hm _
  · exact hm none

theorem inferFunction_vouches (r : Registries) (d : FnDecl) :
    Vouches (inferFunction r d) fun q => q.1.Targeted := by
  have hbody := (buildsTargets r d.body).targeted
  unfold inferFunction
  refine resultType_vouches fun expected => ?_
  dsimp only
  split
  · refine (inContext_vouches hbody expected).bind fun q => ?_
    exact (exposedEffects_vouches ..).seq fun _ => .pure id
  · exact inferLambda_vouches hbody ..

theorem inferActive_vouches (r : Registries) (d : ActiveDecl) :
    Vouches (inferActive r d) fun q => q.1.Targeted := by
  unfold inferActive
  refine .seq (.modify fun _ => rfl) fun _ => ?_
  refine (inferLambda_vouches (buildsTargets r d.body).targeted ..).bind fun q => ?_
  exact .seq (.modify fun _ => rfl) fun _ => .pure id

theorem bindPlaceholders_vouches (ds : List ValueDecl) :
    Vouches (bindPlaceholders ds) fun _ => True := by
  induction ds with
  | nil => exact .pure trivial
  | cons d ds ih =>
    unfold bindPlaceholders
    refine .seq (.lift freshType_addsErrors) fun t => (modifyEnv_vouches _).seq fun _ => ?_
    exact ih.seq fun _ => .pure trivial

theorem inferDecls_vouches (r : Registries) (ps : List (ValueDecl × Ty)) :
    Vouches (inferDecls r ps) fun ks => ∀ k ∈ ks, k.body.Targeted := by
  induction ps with
  | nil => exact .pure (List.forall_mem_nil _)
  | cons p ps ih =>
    obtain ⟨d, t⟩ := p
    have hrest : ∀ q : TExpr × Row, Vouches (do
        Unifier.unify t q.1.ty ((Provenance.of d.span .recursiveUse).relatedTo d.name.span)
        return ⟨d, q.1, q.2⟩ :: (← inferDecls r ps))
        fun ks => q.1.Targeted → ∀ k ∈ ks, k.body.Targeted := fun q =>
      (unify_vouches ..).seq fun _ => ih.bind fun ks => .pure fun hks hq =>
        List.forall_mem_cons.2 ⟨hq, hks⟩
    unfold inferDecls
    refine .seq (.modify fun _ => rfl) fun _ => ?_
    cases d with
    | fn f => exact (inferFunction_vouches r f).bind hrest
    | active a => exact (inferActive_vouches r a).bind hrest

theorem inferGroup_vouches (r : Registries) (ds : List ValueDecl) :
    Vouches (inferGroup r ds) fun ks => ∀ k ∈ ks, k.body.Targeted := by
  unfold inferGroup
  refine (modifyEnv_vouches _).seq fun _ => (bindPlaceholders_vouches ds).seq fun ps => ?_
  refine (inferDecls_vouches r ps).bind fun ks => (modifyEnv_vouches _).seq fun _ => ?_
  exact .seq (.lift finish_addsErrors) fun _ => .pure id

end Checker

/-- The bodies of a group that passes are settled forms of bodies that assign to targets only. -/
theorem checkGroup_targeted {r : Registries} {env : TypeEnv} {tracing : Bool} {ds : List Decl}
    (h : (checkGroup r env tracing ds).hasErrors = false) {d : TDecl} {f : TFunction}
    (hd : d ∈ (checkGroup r env tracing ds).decls) (hf : d.function? = some f) :
    ∃ s body, body.Targeted ∧ f.body = TExpr.settle s body := by
  obtain ⟨k, hk, rfl⟩ := List.mem_map.1 hd
  rw [Checker.Checked.function?_settle, Option.some.injEq] at hf
  subst hf
  refine ⟨_, k.body, ?_, rfl⟩
  refine (Checker.inferGroup_vouches r (ds.filterMap Decl.value?)).answer (.start env tracing)
    (fun e he => ?_) k hk
  simpa using List.any_eq_false.1 h e he

end RowCheck
