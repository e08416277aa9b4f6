import RowCheck.Proofs.Principal.Canonical

/-!
Functions of several parameters. In the functional core such a function may be written as a function of
its first parameter that answers a function of the others, anywhere in an expression: that changes
neither whether the expression can be checked nor, but for effects, the scheme that is found. Effects
tell the two apart, since only the arrow of a function that stands by itself has a row that may still
become another one.
-/
namespace RowCheck

namespace Expr

/-- Whether an expression becomes another one if one of its functions of several parameters is written as
a function of the first parameter that answers a function of the others. -/
inductive Nests : Expr → Expr → Prop
  | here {span : Span} {p q : Param} {ps : List Param} {body : Expr} :
      Nests (.lam span (p :: q :: ps) body) (.lam span [p] (.lam span (q :: ps) body))
  | body {span : Span} {ps : List Param} {e e' : Expr} :
      Nests e e' → Nests (.lam span ps e) (.lam span ps e')
  | func {span : Span} {args : List Expr} {e e' : Expr} :
      Nests e e' → Nests (.call span e args) (.call span e' args)
  | arg {span : Span} {func : Expr} {before after : List Expr} {e e' : Expr} : Nests e e' →
      Nests (.call span func (before ++ e :: after)) (.call span func (before ++ e' :: after))
  | letValue {span : Span} {name : Name} {type : Option TypeExpr} {body e e' : Expr} :
      Nests e e' → Nests (.letIn span name type e body) (.letIn span name type e' body)
  | letBody {span : Span} {name : Name} {type : Option TypeExpr} {value e e' : Expr} :
      Nests e e' → Nests (.letIn span name type value e) (.letIn span name type value e')
  | item {span : Span} {before after : List Expr} {e e' : Expr} : Nests e e' →
      Nests (.seq span (before ++ e :: after)) (.seq span (before ++ e' :: after))
  | condition {span : Span} {onTrue onFalse e e' : Expr} :
      Nests e e' → Nests (.cond span e onTrue onFalse) (.cond span e' onTrue onFalse)
  | onTrue {span : Span} {condition onFalse e e' : Expr} :
      Nests e e' → Nests (.cond span condition e onFalse) (.cond span condition e' onFalse)
  | onFalse {span : Span} {condition onTrue e e' : Expr} :
      Nests e e' → Nests (.cond span condition onTrue e) (.cond span condition onTrue e')
  | scrutinee {span : Span} {arms : List Arm} {e e' : Expr} :
      Nests e e' → Nests (.matchOn span e arms) (.matchOn span e' arms)
  | guard {span : Span} {scrutinee body : Expr} {before after : List Arm} {pattern : Pattern}
      {e e' : Expr} : Nests e e' →
      Nests (.matchOn span scrutinee (before ++ .mk pattern (some e) body :: after))
        (.matchOn span scrutinee (before ++ .mk pattern (some e') body :: after))
  | arm {span : Span} {scrutinee : Expr} {before after : List Arm} {pattern : Pattern}
      {guard : Option Expr} {e e' : Expr} : Nests e e' →
      Nests (.matchOn span scrutinee (before ++ .mk pattern guard e :: after))
        (.matchOn span scrutinee (before ++ .mk pattern guard e' :: after))
  | component {span : Span} {before after : List Expr} {e e' : Expr} : Nests e e' →
      Nests (.tuple span (before ++ e :: after)) (.tuple span (before ++ e' :: after))
  | field {span : Span} {name : Name} {before after : List Expr} {e e' : Expr} : Nests e e' →
      Nests (.construct span name (before ++ e :: after)) (.construct span name (before ++ e' :: after))
  | left {span opSpan : Span} {op : BinOp} {right e e' : Expr} :
      Nests e e' → Nests (.binary span op opSpan e right) (.binary span op opSpan e' right)
  | right {span opSpan : Span} {op : BinOp} {left e e' : Expr} :
      Nests e e' → Nests (.binary span op opSpan left e) (.binary span op opSpan left e')
  | operand {span opSpan : Span} {op : UnOp} {e e' : Expr} :
      Nests e e' → Nests (.unary span op opSpan e) (.unary span op opSpan e')
  | lent {span : Span} {unique : Bool} {e e' : Expr} :
      Nests e e' → Nests (.borrow span unique e) (.borrow span unique e')
  | referenced {span : Span} {e e' : Expr} : Nests e e' → Nests (.deref span e) (.deref span e')
  | place {span : Span} {value e e' : Expr} :
      Nests e e' → Nests (.assign span e value) (.assign span e' value)
  | assigned {span : Span} {target e e' : Expr} :
      Nests e e' → Nests (.assign span target e) (.assign span target e')

variable {e e' : Expr}

theorem Nests.isValue (h : e.Nests e') : e'.isValue = e.isValue := by cases h <;> rfl

theorem Nests.core (h : e.Nests e') (he : e.Core) : e'.Core := by
  have hlist : ∀ {before after : List Expr} {a a' : Expr}, (a.Core → a'.Core) →
      (∀ b ∈ before ++ a :: after, b.Core) → ∀ b ∈ before ++ a' :: after, b.Core := by
    intro before after a a' ha hall
    simp only [List.forall_mem_append, List.forall_mem_cons] at hall ⊢
    exact ⟨hall.1, ha hall.2.1, hall.2.2⟩
  induction h with
  | here =>
    cases he with
    | lam hparams hbody =>
      rw [List.forall_mem_cons] at hparams
      exact .lam (List.forall_mem_singleton.2 hparams.1) (.lam hparams.2 hbody)
  | body _ ih =>
    cases he with
    | lam hparams hbody => exact .lam hparams (ih hbody)
  | func _ ih =>
    cases he with
    | call hfunc hargs => exact .call (ih hfunc) hargs
  | arg _ ih =>
    cases he with
    | call hfunc hargs => exact .call hfunc (hlist ih hargs)
  | letValue _ ih =>
    cases he with
    | letIn hname hvalue hbody => exact .letIn hname (ih hvalue) hbody
  | letBody _ ih =>
    cases he with
    | letIn hname hvalue hbody => exact .letIn hname hvalue (ih hbody)
  | item _ ih =>
    cases he with
    | seq hitems => exact .seq (hlist ih hitems)
  | condition _ ih =>
    cases he with
    | cond hcondition htrue hfalse => exact .cond (ih hcondition) htrue hfalse
  | onTrue _ ih =>
    cases he with
    | cond hcondition htrue hfalse => exact .cond hcondition (ih htrue) hfalse
  | onFalse _ ih =>
    cases he with
    | cond hcondition htrue hfalse => exact .cond hcondition htrue (ih hfalse)
  | component _ ih =>
    cases he with
    | tuple hitems => exact .tuple (hlist ih hitems)
  | scrutinee | guard | arm | field | left | right | operand | lent | referenced | place | assigned =>
    cases he

/-! ## Typing -/

/-- Whether an expression has each type that another one has, whatever is assumed. -/
def Covers (e' e : Expr) : Prop := ∀ Γ t, e.HasType Γ t → e'.HasType Γ t

section

variable {span : Span} {before after : List Expr}

theorem haveTypes_exchange (h : e'.Covers e) {Γ : Assumptions} {ts : List Ty}
    (hts : HaveTypes Γ (before ++ e :: after) ts) : HaveTypes Γ (before ++ e' :: after) ts := by
  induction before generalizing ts with
  | nil =>
    cases hts with
    | cons he hafter => exact .cons (h _ _ he) hafter
  | cons b before ih =>
    cases hts with
    | cons hb hrest => exact .cons hb (ih hrest)

theorem Covers.body (h : e'.Covers e) {ps : List Param} :
    (lam span ps e').Covers (.lam span ps e) := by
  intro Γ t ht
  cases ht with
  | thunk hbody => exact .thunk (h _ _ hbody)
  | lam hps hlength hbody => exact .lam hps hlength (h _ _ hbody)

theorem Covers.func (h : e'.Covers e) {args : List Expr} :
    (call span e' args).Covers (.call span e args) := by
  intro Γ t ht
  cases ht with
  | force hfunc => exact .force (h _ _ hfunc)
  | call hargs hfunc hts => exact .call hargs (h _ _ hfunc) hts

theorem Covers.arg (h : e'.Covers e) {func : Expr} :
    (call span func (before ++ e' :: after)).Covers (.call span func (before ++ e :: after)) := by
  intro Γ t ht
  generalize hargs : before ++ e :: after = args at ht
  cases ht with
  | force => exact absurd hargs (by simp)
  | call _ hfunc hts =>
    subst hargs
    exact .call (by simp) hfunc (haveTypes_exchange h hts)

theorem Covers.letValue (h : e'.Covers e) (hvalue : e'.isValue = e.isValue) {name : Name}
    {type : Option TypeExpr} {body : Expr} :
    (letIn span name type e' body).Covers (.letIn span name type e body) := by
  intro Γ t ht
  cases ht with
  | letValue he hu hvs hbody => exact .letValue (hvalue.trans he) (h _ _ hu) hvs hbody
  | letOther he hu hbody => exact .letOther (hvalue.trans he) (h _ _ hu) hbody

theorem Covers.letBody (h : e'.Covers e) {name : Name} {type : Option TypeExpr} {value : Expr} :
    (letIn span name type value e').Covers (.letIn span name type value e) := by
  intro Γ t ht
  cases ht with
  | letValue he hu hvs hbody => exact .letValue he hu hvs (h _ _ hbody)
  | letOther he hu hbody => exact .letOther he hu (h _ _ hbody)

theorem Covers.cond {c c' f f' : Expr} (hc : c'.Covers c) (h : e'.Covers e) (hf : f'.Covers f) :
    (cond span c' e' f').Covers (.cond span c e f) := by
  intro Γ t ht
  cases ht with
  | cond hcondition htrue hfalse => exact .cond (hc _ _ hcondition) (h _ _ htrue) (hf _ _ hfalse)

theorem Covers.item (h : e'.Covers e) :
    (seq span (before ++ e' :: after)).Covers (.seq span (before ++ e :: after)) := by
  intro Γ t ht
  cases ht with
  | seq hts => exact .seq (haveTypes_exchange h hts)

theorem Covers.component (h : e'.Covers e) :
    (tuple span (before ++ e' :: after)).Covers (.tuple span (before ++ e :: after)) := by
  intro Γ t ht
  cases ht with
  | tuple hts => exact .tuple (haveTypes_exchange h hts)

theorem Covers.refl (e : Expr) : e.Covers e := fun _ _ => id

/-- The type of a function of several parameters is that of a function that answers a function. -/
theorem covers_nested {p q : Param} {ps : List Param} :
    (lam span [p] (.lam span (q :: ps) e)).Covers (.lam span (p :: q :: ps) e) := by
  intro Γ t ht
  cases ht with
  | @lam _ _ _ _ ts u _ hlength hbody =>
    match ts, hlength, hbody with
    | v :: w :: ts, hlength, hbody =>
      have hinner : HasType (Γ.bindParams [p] [v]) (.lam span (q :: ps) e)
          (.curried (w :: ts) u .pure) := .lam (List.cons_ne_nil _ _) (Nat.succ.inj hlength) hbody
      have houter : HasType Γ (.lam span [p] (.lam span (q :: ps) e))
          (.curried [v] (.curried (w :: ts) u .pure) .pure) := .lam (List.cons_ne_nil _ _) rfl hinner
      exact houter

theorem nested_covers {p q : Param} {ps : List Param} :
    (lam span (p :: q :: ps) e).Covers (.lam span [p] (.lam span (q :: ps) e)) := by
  intro Γ t ht
  cases ht with
  | @lam _ _ _ _ vs _ _ hone hinner =>
    match vs, hone, hinner with
    | [v], _, hinner =>
      cases hinner with
      | @lam _ _ _ _ ts u _ hlength hbody =>
        match ts, hlength, hbody with
        | w :: ts, hlength, hbody =>
          have hboth : HasType Γ (.lam span (p :: q :: ps) e) (.curried (v :: w :: ts) u .pure) :=
            .lam (List.cons_ne_nil _ _) (congrArg Nat.succ hlength) hbody
          exact hboth

/-- How its functions of several parameters are written does not change the types of an expression. -/
theorem Nests.covers (h : e.Nests e') : e'.Covers e ∧ e.Covers e' := by
  induction h with
  | here => exact ⟨covers_nested, nested_covers⟩
  | body _ ih => exact ⟨ih.1.body, ih.2.body⟩
  | func _ ih => exact ⟨ih.1.func, ih.2.func⟩
  | arg _ ih => exact ⟨ih.1.arg, ih.2.arg⟩
  | letValue h ih => exact ⟨ih.1.letValue h.isValue, ih.2.letValue h.isValue.symm⟩
  | letBody _ ih => exact ⟨ih.1.letBody, ih.2.letBody⟩
  | item _ ih => exact ⟨ih.1.item, ih.2.item⟩
  | condition _ ih => exact ⟨ih.1.cond (.refl _) (.refl _), ih.2.cond (.refl _) (.refl _)⟩
  | onTrue _ ih => exact ⟨(Covers.refl _).cond ih.1 (.refl _), (Covers.refl _).cond ih.2 (.refl _)⟩
  | onFalse _ ih => exact ⟨(Covers.refl _).cond (.refl _) ih.1, (Covers.refl _).cond (.refl _) ih.2⟩
  | component _ ih => exact ⟨ih.1.component, ih.2.component⟩
  | scrutinee | guard | arm | field | left | right | operand | lent | referenced | place | assigned =>
    exact ⟨nofun, nofun⟩

end

end Expr

open Checker in
/-- The scheme that is found for an expression has no bounds, and the types that the expression has. -/
theorem answer_types {env : TypeEnv} (h : env.Plain) {e : Expr} (he : e.Core)
    (herrors : (alone env e).errors = []) : ∃ s : Scheme, (answer env e).2 = s.canonical ∧
      s.numeric = ∅ ∧ ∀ t, e.HasType (.ofEnv env) t ↔ ∃ g, t = s.ty.under g := by
  obtain ⟨htidy, howns, htyped⟩ := found_hasType h he herrors
  let c := (infer .empty e (start env false)).2
  refine ⟨(generalize (found env e) c.env true (alone env e)).1, rfl, ?_, fun t => ?_⟩
  · exact htidy.filter_numeric _
  · rw [← Scheme.canonical_admits_iff, generalize_admits htidy howns]
    constructor
    · exact fun ht => (exists_found h he ht).2
    · rintro ⟨f, hf, rfl⟩
      exact htyped f hf

/-- Writing a function of several parameters as a function that answers functions, anywhere in an
expression of the functional core, changes neither whether the expression can be checked nor, but for
effects, the scheme that is found. -/
theorem inferExpression_nests {env : TypeEnv} (h : env.Plain) {e e' : Expr} (he : e.Core)
    (hn : e.Nests e') :
    ((∃ p, inferExpression .empty env e = .ok p) ↔ ∃ p, inferExpression .empty env e' = .ok p) ∧
    ∀ p p', inferExpression .empty env e = .ok p → inferExpression .empty env e' = .ok p' →
      p.2.erase = p'.2.erase := by
  have he' := hn.core he
  have htypes : ∀ t, e.HasType (.ofEnv env) t ↔ e'.HasType (.ofEnv env) t := fun t =>
    ⟨hn.covers.1 _ t, hn.covers.2 _ t⟩
  simp only [inferExpression_eq_ok_iff]
  refine ⟨⟨?_, ?_⟩, ?_⟩
  · rintro ⟨_, herrors, -⟩
    obtain ⟨s, -, -, hs⟩ := answer_types h he herrors
    exact ⟨_, (Checker.exists_found h he' ((htypes _).1 ((hs _).2 ⟨.var, rfl⟩))).1, rfl⟩
  · rintro ⟨_, herrors, -⟩
    obtain ⟨s, -, -, hs⟩ := answer_types h he' herrors
    exact ⟨_, (Checker.exists_found h he ((htypes _).2 ((hs _).2 ⟨.var, rfl⟩))).1, rfl⟩
  · rintro _ _ ⟨herrors, rfl⟩ ⟨herrors', rfl⟩
    obtain ⟨s, hs, hnumeric, htyped⟩ := answer_types h he herrors
    obtain ⟨s', hs', hnumeric', htyped'⟩ := answer_types h he' herrors'
    rw [hs, hs']
    exact Scheme.erase_canonical_eq hnumeric hnumeric' fun t =>
      (htyped t).symm.trans ((htypes t).trans (htyped' t))

/-- The function that answers the first of its two arguments, with both parameters in one function:
`fn(x, y) { x }`. -/
def firstOfTwo : Expr :=
  .lam .synthetic [⟨.mk .synthetic "x", none⟩, ⟨.mk .synthetic "y", none⟩] (.var .synthetic "x")

/-- The same function, with a function for each parameter: `fn(x) { fn(y) { x } }`. -/
def firstThenOther : Expr :=
  .lam .synthetic [⟨.mk .synthetic "x", none⟩]
    (.lam .synthetic [⟨.mk .synthetic "y", none⟩] (.var .synthetic "x"))

/-- An expression that uses a local function with both arguments and with one:
`let k = f in (k(1, true), k(true))`. -/
def appliedTwice (f : Expr) : Expr :=
  let one := Expr.lit .synthetic (.int 1)
  let yes := Expr.lit .synthetic (.bool true)
  .letIn .synthetic (.mk .synthetic "k") none f
    (.tuple .synthetic [.call .synthetic (.var .synthetic "k") [one, yes],
      .call .synthetic (.var .synthetic "k") [yes]])

theorem appliedTwice_core : (appliedTwice firstOfTwo).Core := by
  have hname : ∀ x ∈ ["k", "x", "y"], Name.Valid (.mk .synthetic x) := by
    simp only [Name.Valid]
    decide +kernel
  have hyes : Expr.Core (.lit .synthetic (.bool true)) := .lit trivial
  have hone : Expr.Core (.lit .synthetic (.int 1)) := .lit ⟨by decide, by decide⟩
  refine .letIn (hname "k" (by decide)) (.lam ?_ .var) (.tuple ?_)
  · simpa using ⟨hname "x" (by decide), hname "y" (by decide)⟩
  · simpa using ⟨Expr.Core.call .var (by simpa using ⟨hone, hyes⟩),
      Expr.Core.call .var (by simpa using hyes)⟩

/-- With a function for each parameter, the expression has the scheme that it has with both parameters in
one function. -/
theorem appliedTwice_nests : identityEnv.Plain ∧ (appliedTwice firstOfTwo).Core ∧
    (appliedTwice firstOfTwo).Nests (appliedTwice firstThenOther) ∧
    ∃ p, inferExpression .empty identityEnv (appliedTwice firstThenOther) = .ok p ∧
      p.2.erase = ⟨[0], [], ∅, .tuple [.s32, .arrow (.var 0) .bool]⟩ := by
  have hnests : (appliedTwice firstOfTwo).Nests (appliedTwice firstThenOther) := .letValue .here
  have hrun : (inferExpression .empty identityEnv (appliedTwice firstOfTwo)).toOption.map
      (·.2.erase) = some ⟨[0], [], ∅, .tuple [.s32, .arrow (.var 0) .bool]⟩ := by decide +kernel
  obtain ⟨hok, hscheme⟩ := inferExpression_nests identityEnv_plain appliedTwice_core hnests
  cases hp : inferExpression .empty identityEnv (appliedTwice firstOfTwo) with
  | error =>
    rw [hp] at hrun
    cases hrun
  | ok p =>
    rw [hp] at hrun
    obtain ⟨p', hp'⟩ := hok.1 ⟨p, hp⟩
    exact ⟨identityEnv_plain, appliedTwice_core, hnests, p', hp',
      (hscheme p p' hp hp').symm.trans (Option.some.inj hrun)⟩

/-- The scheme of a global function that performs an effect already when it gets its first argument. -/
def eagerStep : Scheme := .mono (.fn .s32 (.arrow .s32 .s32) ⟨SortedSet.ofList ["io"], none⟩)

/-- A choice between a function and the global one: `if true { f } else { step }`. -/
def orStep (f : Expr) : Expr :=
  .cond .synthetic (.lit .synthetic (.bool true)) f (.var .synthetic "step")

/-- Where effects are named, it matters how a function is written. The outer arrow of a function with a
function for each parameter may become one that performs an effect, and that of a function with both
parameters may not. -/
theorem orStep_rejects : (orStep firstOfTwo).Nests (orStep firstThenOther) ∧
    (inferExpression .empty (.ofGlobals ((∅ : SortedMap String Scheme).insert "step" eagerStep))
      (orStep firstOfTwo)).toOption.map (·.2) = none ∧
    (inferExpression .empty (.ofGlobals ((∅ : SortedMap String Scheme).insert "step" eagerStep))
      (orStep firstThenOther)).toOption.map (·.2) = some eagerStep :=
  ⟨.onTrue .here, by decide +kernel, by decide +kernel⟩

end RowCheck
