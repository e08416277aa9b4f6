import RowCheck.Proofs.Infer.Registries

/-!
The rules of checking that need no recursion. What each of them builds performs only rows that are
promised to be covered by the context.
-/
namespace RowCheck

theorem SumType.fieldsAt_below {d : SumType} {v : Variant} (hv : ∀ t ∈ v.fields, t.rows = [])
    {n : Nat} {args : List Ty} (hargs : ∀ t ∈ args, t.Below n) :
    ∀ t ∈ d.fieldsAt v args, t.Below n := by
  intro t ht
  obtain ⟨u, hu, rfl⟩ := List.mem_map.1 ht
  intro e he
  rcases Ty.mem_effects_mapVars.1 he with ⟨w, -, he⟩ | ⟨e', he', rfl⟩
  · cases hw : (d.instantiation args).get? w with
    | none => simp [hw, Ty.effects] at he
    | some a =>
      have ha : a ∈ args := (List.of_mem_zip (SortedMap.mem_of_get?_ofList hw)).2
      exact hargs a ha e (by simpa [hw] using he)
  · exact (Ty.rows_eq_nil_iff.1 (hv u hu)).mono (Nat.zero_le n) _ he'

theorem Registries.RowsClosed.variant {r : Registries} (h : r.RowsClosed) {name : String}
    {d : SumType} (hd : r.types.get? name = some d) {case : String} {v : Variant}
    (hv : d.variant? case = some v) : ∀ t ∈ v.fields, t.rows = [] :=
  h name d hd v (List.mem_of_find?_eq_some hv)

theorem Registries.RowsClosed.constructor {r : Registries} (h : r.RowsClosed) {name : String}
    {d : SumType} {v : Variant} (hc : r.types.constructor? name = some (d, v)) :
    ∀ t ∈ v.fields, t.rows = [] := by
  simp only [TypeRegistry.constructor?, Option.bind_eq_bind, Option.bind_eq_some_iff,
    Option.pure_def, Option.some.injEq, Prod.mk.injEq] at hc
  obtain ⟨owner, -, d', hd, v', hv, rfl, rfl⟩ := hc
  exact h.variant hd hv

namespace Unifier

variable {u u' : Unifier}

/-- Whether a row is promised to cover, by way of the context of a body, all that the body
performs. -/
def Exposes (u : Unifier) (effects : Row) (body : TExpr) : Prop :=
  ∃ inner, u.Promises inner effects ∧ ∀ r ∈ body.performed, u.Promises r inner

/-- Whether the arrow of a lambda exposes what its body performs. -/
def Shows (u : Unifier) (l : Info × TExpr) : Prop :=
  ∃ p q effects, l.1.ty = .fn p q effects ∧ u.Exposes effects l.2

/-- Whether an expression is well kept within a context: all that it performs is promised to be
covered by it, and each of its lambdas shows what its body performs. -/
structure Keeps (u : Unifier) (context : Row) (e : TExpr) : Prop where
  ty : e.ty.Below u.rowCount
  performed : ∀ r ∈ e.performed, u.Promises r context
  lambdas : ∀ l ∈ e.lambdas, u.Shows l

variable {context : Row} {e : TExpr}

theorem Exposes.advances {effects : Row} (h : u.Exposes effects e) (hu : u.Advances u') :
    u'.Exposes effects e := by
  obtain ⟨inner, hi, hb⟩ := h
  exact ⟨inner, hi.advances hu, fun r hr => (hb r hr).advances hu⟩

theorem Shows.advances {l : Info × TExpr} (h : u.Shows l) (hu : u.Advances u') : u'.Shows l := by
  obtain ⟨p, q, effects, ht, hb⟩ := h
  exact ⟨p, q, effects, ht, hb.advances hu⟩

theorem Keeps.advances (h : u.Keeps context e) (hu : u.Advances u') : u'.Keeps context e :=
  ⟨h.ty.mono hu.rows, fun r hr => (h.performed r hr).advances hu,
    fun l hl => (h.lambdas l hl).advances hu⟩

/-- An expression that is no lambda is kept if its parts are. -/
theorem keeps_of_parts (hne : ∀ i b body, e ≠ .lam i b body) (ht : e.ty.Below u.rowCount)
    (he : u.Promises e.effects context) (hp : ∀ p ∈ e.parts, u.Keeps context p) :
    u.Keeps context e := by
  refine ⟨ht, fun r hr => ?_, fun l hl => ?_⟩
  · rw [TExpr.performed_eq] at hr
    rcases List.mem_cons.1 hr with rfl | hr
    · exact he
    · obtain ⟨p, hmem, hr⟩ := List.mem_flatMap.1 hr
      exact (hp p hmem).performed r hr
  · rw [TExpr.lambdas_eq hne] at hl
    obtain ⟨p, hmem, hl⟩ := List.mem_flatMap.1 hl
    exact (hp p hmem).lambdas l hl

/-- A lambda is kept in every context. -/
theorem keeps_lam {i : Info} {b : Binder} {body : TExpr} {p q : Ty} {effects : Row}
    (ht : i.ty.Below u.rowCount) (he : i.effects = .pure) (harrow : i.ty = .fn p q effects)
    (hexp : u.Exposes effects body) (hlam : ∀ l ∈ body.lambdas, u.Shows l) :
    u.Keeps context (.lam i b body) := by
  refine ⟨ht, ?_, ?_⟩
  · simp only [TExpr.performed, List.mem_singleton, forall_eq, he]
    exact promises_pure u context
  · simp only [TExpr.lambdas, List.mem_cons, forall_eq_or_imp]
    exact ⟨⟨p, q, effects, harrow, hexp⟩, hlam⟩

theorem freshTypes_does (hu : u.Valid) (vs : List TyVar) :
    u.Does (freshTypes vs) (fun ts _ => ∀ t ∈ ts, ∀ n, t.Below n) := by
  induction vs generalizing u with
  | nil => exact .pure hu (by simp)
  | cons v vs ih =>
    unfold freshTypes
    refine (freshType_does hu).bind fun t u₁ h₁ ht => ?_
    refine (ih h₁.valid).bind fun ts u₂ h₂ hts => .pure h₂.valid ?_
    simp only [List.mem_cons, forall_eq_or_imp]
    exact ⟨ht, hts⟩

theorem freshFunction_does (hu : u.Valid) :
    u.Does Checker.freshFunction (fun f u' => f.1.Below u'.rowCount ∧ f.2.1.Below u'.rowCount ∧
      f.2.2.Below u'.rowCount) := by
  unfold Checker.freshFunction
  refine (freshType_does hu).bind fun p u₁ h₁ hp => ?_
  refine (freshType_does h₁.valid).bind fun r u₂ h₂ hr => ?_
  refine (freshRow_does h₂.valid).bind fun e u₃ h₃ he => ?_
  exact .pure h₃.valid ⟨hp _, hr _, he⟩

theorem unifyFields_does (hu : u.Valid) (constructor : String) {fields : List Ty}
    {args : List TExpr} (hf : ∀ t ∈ fields, t.Below u.rowCount)
    (ha : ∀ e ∈ args, e.ty.Below u.rowCount) :
    u.Does (Checker.unifyFields constructor fields args) (fun _ _ => True) := by
  induction fields generalizing u args with
  | nil => exact .pure hu trivial
  | cons t ts ih =>
    cases args with
    | nil => exact .pure hu trivial
    | cons a as =>
      simp only [List.mem_cons, forall_eq_or_imp] at hf ha
      unfold Checker.unifyFields
      refine (unify_does hu hf.1 ha.1 _).bind fun _ u₁ h₁ _ => ?_
      exact ih h₁.valid (fun t ht => (hf.2 t ht).mono h₁.rows)
        (fun e he => (ha.2 e he).mono h₁.rows)

end Unifier

namespace Checker

open Unifier

variable {c c' : Checker}

/-- Whether an expression is well kept within the context at hand. -/
abbrev Keeps (c : Checker) (e : TExpr) : Prop := c.unifier.Keeps c.context e

theorem Keeps.advances {e : TExpr} (h : c.Keeps e) (hc : c.Advances c') : c'.Keeps e := by
  rw [Keeps, hc.context]
  exact Unifier.Keeps.advances h hc.unifier

theorem Keeps.pair {a b : TExpr} (ha : c.Keeps a) (hb : c.Keeps b) : ∀ e ∈ [a, b], c.Keeps e := by
  simpa using ⟨ha, hb⟩

theorem unify_does (hc : c.Valid) {a b : Ty} (ha : a.Below c.unifier.rowCount)
    (hb : b.Below c.unifier.rowCount) (why : Provenance) :
    c.Does (liftM (Unifier.unify a b why)) (fun _ _ => True) :=
  (Does.lift hc (Unifier.unify_does hc.unifier ha hb why)).imp fun _ _ _ _ => trivial

theorem requireNumeric_does (hc : c.Valid) {t : Ty} (ht : t.Below c.unifier.rowCount)
    (why : Provenance) : c.Does (liftM (requireNumeric t why)) (fun _ _ => True) :=
  (Does.lift hc (Unifier.requireNumeric_does hc.unifier ht why)).imp fun _ _ _ _ => trivial

theorem keeps_quiet {e : TExpr} (hne : ∀ i b body, e ≠ .lam i b body)
    (ht : e.ty.Below c.unifier.rowCount) (he : e.effects = .pure)
    (hp : ∀ p ∈ e.parts, c.Keeps p) : c.Keeps e :=
  keeps_of_parts hne ht (he ▸ promises_pure _ _) hp

theorem functionParts_does (hc : c.Valid) {t : Ty} (ht : t.Below c.unifier.rowCount)
    (why : Provenance) :
    c.Does (functionParts t why) (fun o c' => ∀ p r e, o = some (p, r, e) →
      p.Below c'.unifier.rowCount ∧ r.Below c'.unifier.rowCount ∧ e.Below c'.unifier.rowCount) := by
  unfold functionParts
  refine .lift_bind hc (find_does hc.unifier ht) fun head c₁ h₁ hfind => ?_
  obtain ⟨-, -, -, hhead, -⟩ := hfind
  split
  · refine .pure h₁.valid fun p r e he => ?_
    cases he
    exact Ty.below_fn.1 hhead
  · exact .pure h₁.valid fun p r e he => by cases he
  · refine .lift_bind h₁.valid (freshFunction_does h₁.valid.unifier) fun f c₂ h₂ hf => ?_
    refine (unify_does h₂.valid (Ty.below_fn.2 hf) (ht.mono (h₁.trans h₂).rows) why).bind
      fun _ c₃ h₃ _ => .pure h₃.valid fun p r e he => ?_
    cases he
    exact ⟨hf.1.mono h₃.rows, hf.2.1.mono h₃.rows, hf.2.2.mono h₃.rows⟩
  · refine .lift_bind h₁.valid (freshFunction_does h₁.valid.unifier) fun f c₂ h₂ hf => ?_
    refine (unify_does h₂.valid (Ty.below_fn.2 hf) (hhead.mono h₂.rows) why).bind
      fun _ c₃ h₃ _ => .pure h₃.valid fun p r e he => by cases he

/-- Applying a function performs the effects of its arrow, which are included in the context. -/
theorem applyTo_does (hc : c.Valid) {callee arg : TExpr} (hf : c.Keeps callee) (ha : c.Keeps arg)
    (funcSpan span : Span) :
    c.Does (applyTo callee arg funcSpan span) (fun e c' => c'.Keeps e) := by
  have hparts : ∀ {c' : Checker} {i : Info}, c.Advances c' →
      ∀ p ∈ (TExpr.call i callee arg).parts, c'.Keeps p := fun h =>
    (hf.advances h).pair (ha.advances h)
  unfold applyTo
  refine (functionParts_does hc hf.ty _).bind fun o c₁ h₁ hparts₁ => ?_
  split
  · exact .pure h₁.valid (keeps_quiet (by simp) (Ty.below_of_effects_eq_nil rfl) rfl (hparts h₁))
  · rename_i p r e
    obtain ⟨hp, hr, he⟩ := hparts₁ p r e rfl
    refine (unify_does h₁.valid hp (ha.ty.mono h₁.rows) _).bind fun _ c₂ h₂ _ => .get_bind ?_
    refine .lift_bind h₂.valid (includeRow_promises h₂.valid.unifier (he.mono h₂.rows)
      h₂.valid.context _) fun _ c₃ h₃ hprom => .pure h₃.valid ?_
    refine keeps_of_parts (by simp) (hr.mono (h₂.trans h₃).rows) ?_
      (hparts (h₁.trans (h₂.trans h₃)))
    rw [h₃.context]
    exact hprom

theorem construct_does {r : Registries} (hr : r.RowsClosed) (hc : c.Valid) (name : Name)
    {args : List TExpr} (ha : ∀ e ∈ args, c.Keeps e) (span : Span) :
    c.Does (construct r name args span) (fun e c' => c'.Keeps e) := by
  have hargs : ∀ {c' : Checker}, c.Advances c' → ∀ e ∈ args, c'.Keeps e := fun h e he =>
    (ha e he).advances h
  have hfailed : ∀ {c' : Checker}, c.Advances c' → c'.Valid →
      c'.Keeps (.tuple (.quiet span .error) args) := fun h hv =>
    keeps_quiet (by simp) (Ty.below_of_effects_eq_nil rfl) rfl (hargs h)
  unfold construct
  dsimp only
  split
  · refine .get_bind ?_
    split
    · split
      · exact .pure hc (keeps_quiet (by simp) (Ty.below_of_effects_eq_nil rfl) rfl
          (hargs hc.advances))
      · exact (fail_does hc _ _ _).bind fun _ _ h _ => .pure h.valid (hfailed h h.valid)
    · exact (fail_does hc _ _ _).bind fun _ _ h _ => .pure h.valid (hfailed h h.valid)
  · split
    · exact (fail_does hc _ _ _).bind fun _ _ h _ => .pure h.valid (hfailed h h.valid)
    · rename_i d v hcon
      split
      · exact (fail_does hc _ _ _).bind fun _ _ h _ => .pure h.valid (hfailed h h.valid)
      · refine .lift_bind hc (freshTypes_does hc.unifier d.params) fun ts c₁ h₁ hts => ?_
        have hfields := SumType.fieldsAt_below (d := d) (hr.constructor hcon)
          (fun t ht => hts t ht c₁.unifier.rowCount)
        refine .lift_bind h₁.valid (unifyFields_does h₁.valid.unifier _ hfields
          fun e he => (ha e he).ty.mono h₁.rows) fun _ c₂ h₂ _ => .pure h₂.valid ?_
        exact keeps_quiet (by simp) (Ty.below_named.2 fun t ht => hts t ht _) rfl
          (hargs (h₁.trans h₂))

theorem inferVar_does {r : Registries} (hr : r.RowsClosed) (hc : c.Valid) (e : Expr)
    (name : String) : c.Does (inferVar r e name) (fun e c' => c'.Keeps e) := by
  unfold inferVar
  refine .get_bind ?_
  split
  · rename_i s hs
    refine .lift_bind hc (instantiate_does hc.unifier (hc.env.lookup hs) _) fun t c₁ h₁ ht => ?_
    refine (record_does h₁.valid _ _ _ _).bind fun _ c₂ h₂ _ => .pure h₂.valid ?_
    exact keeps_quiet (by simp) (ht.mono h₂.rows) rfl (by simp [TExpr.parts])
  · split
    · exact construct_does hr hc _ (by simp) _
    · exact (fail_does hc _ _ _).bind fun _ _ h _ => .pure h.valid
        (keeps_quiet (by simp) (Ty.below_of_effects_eq_nil rfl) rfl (by simp [TExpr.parts]))

theorem target_does (hc : c.Valid) {t : Ty} (ht : t.Below c.unifier.rowCount) (span : Span) :
    c.Does (target t span) (fun t c' => t.Below c'.unifier.rowCount) := by
  unfold target
  refine .lift_bind hc (find_does hc.unifier ht) fun head c₁ h₁ hfind => ?_
  obtain ⟨-, -, -, hhead, -⟩ := hfind
  split
  · exact .pure h₁.valid (Ty.below_ref.1 hhead)
  · exact .pure h₁.valid hhead
  · refine .lift_bind h₁.valid (freshType_does h₁.valid.unifier) fun inner c₂ h₂ hinner => ?_
    refine (unify_does h₂.valid (Ty.below_ref.2 (hinner _)) (ht.mono (h₁.trans h₂).rows) _).bind
      fun _ c₃ h₃ _ => .pure h₃.valid (hinner _)

theorem binaryType_does (hc : c.Valid) (op : BinOp) (opSpan : Span) {left right : TExpr}
    (hl : left.ty.Below c.unifier.rowCount) (hr : right.ty.Below c.unifier.rowCount) :
    c.Does (binaryType op opSpan left right) (fun t c' => t.Below c'.unifier.rowCount) := by
  have hbool : ∀ n, Ty.bool.Below n := fun n => Ty.below_of_effects_eq_nil rfl
  unfold binaryType
  dsimp only
  split
  · refine (unify_does hc (hbool _) hl _).bind fun _ c₁ h₁ _ => ?_
    exact (unify_does h₁.valid (hbool _) (hr.mono h₁.rows) _).bind fun _ _ h _ =>
      .pure h.valid (hbool _)
  · refine (unify_does hc (hbool _) hl _).bind fun _ c₁ h₁ _ => ?_
    exact (unify_does h₁.valid (hbool _) (hr.mono h₁.rows) _).bind fun _ _ h _ =>
      .pure h.valid (hbool _)
  all_goals
    refine (unify_does hc hl hr _).bind fun _ c₁ h₁ _ => ?_
    first
    | exact .pure h₁.valid (hbool _)
    | exact (requireNumeric_does h₁.valid (hl.mono h₁.rows) _).bind fun _ _ h _ =>
        .pure h.valid (hbool _)
    | exact (requireNumeric_does h₁.valid (hl.mono h₁.rows) _).bind fun _ _ h _ =>
        .pure h.valid (hl.mono (h₁.trans h).rows)

theorem unaryType_does (hc : c.Valid) (op : UnOp) (opSpan : Span) {operand : TExpr}
    (ho : operand.ty.Below c.unifier.rowCount) :
    c.Does (unaryType op opSpan operand) (fun t c' => t.Below c'.unifier.rowCount) := by
  have hbool : ∀ n, Ty.bool.Below n := fun n => Ty.below_of_effects_eq_nil rfl
  unfold unaryType
  split
  · exact (requireNumeric_does hc ho _).bind fun _ _ h _ => .pure h.valid (ho.mono h.rows)
  · exact (unify_does hc (hbool _) ho _).bind fun _ _ h _ => .pure h.valid (hbool _)

theorem requireBool_does (hc : c.Valid) {e : TExpr} (he : e.ty.Below c.unifier.rowCount) :
    c.Does (liftM (requireBool e)) (fun _ _ => True) :=
  unify_does hc (Ty.below_of_effects_eq_nil rfl) he _

end Checker

end RowCheck
