import RowCheck.Infer.Definitions
import RowCheck.Proofs.Infer.Layers

/-!
Local names are hygienic: another name for a parameter or a `let` changes neither the faults nor the
schemes of a group, as long as no active pattern and no case has one of the two names. An active
pattern is looked up by its name in the local scopes too, so a local of that name captures it.
-/
namespace RowCheck

namespace Expr.Renamed

variable {x y : String} {on : Bool} {e e' : Expr}

theorem span (h : e.Renamed x y on e') : e'.span = e.span := by cases h <;> rfl

theorem isValue (h : e.Renamed x y on e') : e'.isValue = e.isValue := by cases h <;> rfl

theorem isPlace (h : e.Renamed x y on e') : e'.isPlace = e.isPlace := by cases h <;> rfl

end Expr.Renamed

namespace Checker

open TypeEnv

/-! ## Expressions -/

section

variable {x y : String} {on : Bool} {env env' : TypeEnv} {r : Registries}

theorem localScheme_echoes (henv : env.Renamed x y on env') (e e' : Expr) {value value' : Expr}
    (hvalue : value'.isValue = value.isValue) (name name' : String) (t : Ty) :
    Echoes (At env env') (At env env') (localScheme e value name t)
      (localScheme e' value' name' t) (· = ·) := by
  unfold localScheme
  rw [hvalue]
  split
  · refine .get_bind fun c c' hc => ?_
    obtain ⟨he, he'⟩ := hc.env
    rw [he, he', henv.generalize]
    exact (lift_echoes _).then fun s => (record_echoes ..).then fun _ => .pure rfl
  · exact .pure rfl

/-- What is checked within one more scope is checked alike within that scope renamed. -/
theorem within_echoes {α α' : Type} {m : CheckM α} {m' : CheckM α'} {R : α → α' → Prop}
    (moved : Bool) (bound : List String) (henv : env.Renamed x y on env')
    (h : ∀ e e', e.Renamed x y (moved || (on && decide (x ∉ bound))) e' →
      Echoes (At e e') (At e e') m m' R) :
    Echoes (Layered x y bound moved env env') (Layered x y bound moved env env') m m' R :=
  .of_at fun e e' he => h e e' (he.renamed henv)

theorem unifyArm_eq {first first' : Option TExpr} (h : first'.map TExpr.info = first.map TExpr.info)
    {body body' : TExpr} (hb : SameInfo body body') :
    unifyArm first' body' = unifyArm first body := by
  unfold unifyArm
  rw [hb.ty, hb.span]
  cases first with
  | none => rw [Option.map_eq_none_iff.1 h]
  | some f =>
    obtain ⟨f', rfl, hf⟩ := Option.map_eq_some_iff.1 h
    have hf : SameInfo f f' := hf
    simp only [hf.ty, hf.span]

theorem lastType_eq {items items' : List TExpr} (h : List.Forall₂ SameInfo items items') :
    lastType items' = lastType items := by
  have hmap : items'.map TExpr.info = items.map TExpr.info := by
    induction h with
    | nil => rfl
    | cons h _ ih => rw [List.map_cons, List.map_cons, h, ih]
  have hlast : items'.getLast?.map TExpr.info = items.getLast?.map TExpr.info := by
    rw [← List.getLast?_map, hmap, List.getLast?_map]
  unfold lastType
  cases hi : items.getLast? with
  | none =>
    rw [hi] at hlast
    rw [Option.map_eq_none_iff.1 hlast]
  | some e =>
    rw [hi] at hlast
    obtain ⟨e', he', hinfo⟩ := Option.map_eq_some_iff.1 hlast
    rw [he']
    exact SameInfo.ty hinfo

theorem map_ty_eq {items items' : List TExpr} (h : List.Forall₂ SameInfo items items') :
    items'.map TExpr.ty = items.map TExpr.ty := by
  induction h with
  | nil => rfl
  | cons h _ ih => rw [List.map_cons, List.map_cons, SameInfo.ty h, ih]

end

/-- Whether two expressions are checked alike, each in its environment. -/
abbrev ChecksAlike (env env' : TypeEnv) (m m' : CheckM TExpr) : Prop :=
  Echoes (At env env') (At env env') m m' SameInfo

/-- Whether the bodies of two arms are known to be the same. -/
abbrev SameBody (a a' : TArm) : Prop := SameInfo a.body a'.body

section

variable {x y : String} {r : Registries}

/-- A function is checked alike if its body is. -/
theorem lambda_echoes (hx : r.Local x) (hy : r.Local y) {on : Bool} {env env' : TypeEnv} {s : Span}
    {ps ps' : List Param} {b b' : Expr} (h : (Expr.lam s ps b).Renamed x y on (.lam s ps' b'))
    (henv : env.Renamed x y on env')
    (hbody : ∀ on e e', b.Renamed x y on b' → TypeEnv.Renamed x y on e e' →
      ChecksAlike e e' (infer r b) (infer r b'))
    (span : Span) (expected : Expected) (declared : Declared) :
    Echoes (At env env') (At env env') (inferLambda r ps (infer r b) span expected declared)
      (inferLambda r ps' (infer r b') span expected declared) SameResult := by
  cases h with
  | lam hps hb =>
    refine inferLambda_echoes (x := x) (bindParams_echoes hps []) ?_ span expected declared
    exact within_echoes false _ henv fun e e' he => hbody _ e e' hb he
  | lamName hps hone hb =>
    refine inferLambda_echoes (bindParams_rename hx hy hps hone List.not_mem_nil) ?_
      span expected declared
    exact within_echoes true [] henv fun e e' he => hbody _ e e' hb he

/-- A `let` is checked alike if its value and its body are and its name is bound in the place of the
other one. -/
theorem letIn_echoes {on : Bool} {env env' : TypeEnv} (moved : Bool) (bound : List String)
    (henv : env.Renamed x y on env') (span : Span) {name name' : Name} (written : Option TypeExpr)
    {v v' b b' : Expr} (hrenamed : v.Renamed x y on v')
    (hname : Echoes (At env env') (At env env') (checkName name) (checkName name') (· = ·))
    (hbind : ∀ s e e', Layered x y [] false env env' e e' →
      Layered x y bound moved env env' (e.bind name.text s) (e'.bind name'.text s))
    (hvalue : ChecksAlike env env' (infer r v) (infer r v'))
    (hbody : Echoes (Layered x y bound moved env env') (Layered x y bound moved env env')
      (infer r b) (infer r b') SameInfo) :
    ChecksAlike env env' (infer r (.letIn span name written v b))
      (infer r (.letIn span name' written v' b')) := by
  have hrest : ∀ (u u' : TExpr), SameInfo u u' → ChecksAlike env env' (do
      let s ← localScheme (.letIn span name written v b) v name.text u.ty
      modifyEnv .pushScope
      modifyEnv (fun env => env.bind name.text s)
      let e ← infer r b
      modifyEnv .popScope
      record .letIn (.letIn span name written v b) e.ty name.text
      return TExpr.letIn (.quiet span e.ty) ⟨name.text, name.span, u.ty, none⟩ u e) (do
      let s ← localScheme (.letIn span name' written v' b') v' name'.text u.ty
      modifyEnv .pushScope
      modifyEnv (fun env => env.bind name'.text s)
      let e ← infer r b'
      modifyEnv .popScope
      record .letIn (.letIn span name' written v' b') e.ty name'.text
      return TExpr.letIn (.quiet span e.ty) ⟨name'.text, name'.span, u.ty, none⟩ u' e) := by
    intro u u' hu
    refine (localScheme_echoes henv _ _ hrenamed.isValue _ _ _).then fun s => ?_
    refine (pushScope_echoes x y).then fun _ => (modifyEnv_echoes (hbind s)).then fun _ => ?_
    refine hbody.bind fun e e' he => popScope_echoes.then fun _ => ?_
    rw [he.ty]
    exact (record_echoes ..).then fun _ => .pure rfl
  unfold infer
  refine hname.then fun _ => hvalue.bind fun u u' hu => ?_
  rw [hu.ty, hrenamed.span]
  dsimp only
  split
  · exact (resolving_echoes _).then fun t => (lift_echoes _).then fun _ => hrest u u' hu
  · exact hrest u u' hu

/-- A `let` is checked alike whether it keeps its name or has the other one, if its value and its body
are. -/
theorem letIn_renamed_echoes (hx : r.Local x) (hy : r.Local y) {on : Bool} {env env' : TypeEnv}
    {span : Span} {name : Name} {written : Option TypeExpr} {value body e' : Expr}
    (h : (Expr.letIn span name written value body).Renamed x y on e') (henv : env.Renamed x y on env')
    (hvalue : ∀ value', value.Renamed x y on value' →
      ChecksAlike env env' (infer r value) (infer r value'))
    (hbody : ∀ body' on d d', body.Renamed x y on body' → TypeEnv.Renamed x y on d d' →
      ChecksAlike d d' (infer r body) (infer r body')) :
    ChecksAlike env env' (infer r (.letIn span name written value body)) (infer r e') := by
  cases h with
  | letIn hn hv hb =>
    refine letIn_echoes false [name.text] henv span written hv (checkName_echoes _)
      (fun s _ _ h => h.bind hn s) (hvalue _ hv) ?_
    refine within_echoes false [name.text] henv fun e e' he => ?_
    exact hbody _ _ e e' (by simpa [eq_comm] using hb) he
  | letName hn he hv hb =>
    refine letIn_echoes true [] henv span written hv ?_ (fun s _ _ h => ?_) (hvalue _ hv) ?_
    · rw [checkName_of_identifier (he ▸ hx.valid), checkName_of_identifier hy.valid]
      exact .pure rfl
    · subst he
      exact h.rename List.not_mem_nil hn s []
    · exact within_echoes true [] henv fun e e' he => hbody _ _ e e' hb he

section

variable {env env' : TypeEnv}

/-- A call is checked alike if its callee and its arguments are. -/
theorem call_echoes {func func' : Expr} {args args' : List Expr} (span : Span)
    (hspan : func'.span = func.span) (hempty : args'.isEmpty = args.isEmpty)
    (hfunc : ChecksAlike env env' (infer r func) (infer r func'))
    (hargs : ∀ callee callee', SameInfo callee callee' →
      ChecksAlike env env' (inferCall r func.span span callee args)
        (inferCall r func.span span callee' args')) :
    ChecksAlike env env' (infer r (.call span func args)) (infer r (.call span func' args')) := by
  have hrec : ∀ (e e' : TExpr) (note note' : String), SameInfo e e' → ChecksAlike env env' (do
      record .call (.call span func args) e.ty note
      return e) (do
      record .call (.call span func' args') e'.ty note'
      return e') := fun e e' _ _ he => (record_echoes ..).then fun _ => .pure he
  unfold infer
  rw [hempty, hspan]
  refine hfunc.bind fun callee callee' hc => ?_
  dsimp only
  split
  · exact (applyTo_echoes hc rfl _ _).bind fun e e' => hrec e e' _ _
  · exact (hargs callee callee' hc).bind fun e e' => hrec e e' _ _

/-- A function is checked alike as an expression too. -/
theorem lam_echoes (hx : r.Local x) (hy : r.Local y) {on : Bool} {span : Span}
    {params params' : List Param} {body body' : Expr}
    (h : (Expr.lam span params body).Renamed x y on (.lam span params' body'))
    (henv : env.Renamed x y on env')
    (hbody : ∀ on e e', body.Renamed x y on body' → TypeEnv.Renamed x y on e e' →
      ChecksAlike e e' (infer r body) (infer r body')) :
    ChecksAlike env env' (infer r (.lam span params body)) (infer r (.lam span params' body')) := by
  unfold infer
  refine (lambda_echoes hx hy h henv hbody span none none).bind ?_
  rintro ⟨e, _⟩ ⟨e', _⟩ ⟨he, -⟩
  exact (record_echoes ..).then fun _ => .pure he

/-- A condition is checked alike if its three parts are. -/
theorem cond_echoes {condition condition' onTrue onTrue' onFalse onFalse' : Expr} (span : Span)
    (hcondition : ChecksAlike env env' (infer r condition) (infer r condition'))
    (hTrue : ChecksAlike env env' (infer r onTrue) (infer r onTrue'))
    (hFalse : ChecksAlike env env' (infer r onFalse) (infer r onFalse')) :
    ChecksAlike env env' (infer r (.cond span condition onTrue onFalse))
      (infer r (.cond span condition' onTrue' onFalse')) := by
  unfold infer
  refine hcondition.bind fun c c' hc => ?_
  refine (requireBool_echoes hc).then fun _ => ?_
  refine hTrue.bind fun t t' ht => ?_
  refine hFalse.bind fun f f' hf => ?_
  rw [ht.ty, ht.span, hf.ty, hf.span]
  exact (lift_echoes _).then fun _ => (record_echoes ..).then fun _ => .pure rfl

/-- A match is checked alike if its scrutinee and its arms are. -/
theorem matchOn_echoes {scrutinee scrutinee' : Expr} {arms arms' : List Arm} (span : Span)
    (hscrutinee : ChecksAlike env env' (infer r scrutinee) (infer r scrutinee'))
    (harms : ∀ t, Echoes (At env env') (At env env') (inferArms r t none .pure arms)
      (inferArms r t none .pure arms')
      (fun p p' => List.Forall₂ SameBody p.1 p'.1 ∧ p'.2 = p.2)) :
    ChecksAlike env env' (infer r (.matchOn span scrutinee arms))
      (infer r (.matchOn span scrutinee' arms')) := by
  have hrec : ∀ (s s' : TExpr) (as as' : List TArm) (own : Row) (t : Ty) (note note' : String),
      ChecksAlike env env' (do
        record .matchOn (.matchOn span scrutinee arms) t note
        return TExpr.matchOn (.of span t own) s as none) (do
        record .matchOn (.matchOn span scrutinee' arms') t note'
        return TExpr.matchOn (.of span t own) s' as' none) := fun _ _ _ _ _ _ _ _ =>
    (record_echoes ..).then fun _ => .pure rfl
  unfold infer
  refine hscrutinee.bind fun s s' hs => ?_
  rw [hs.ty]
  refine (harms s.ty).bind ?_
  rintro ⟨as, own⟩ ⟨as', _⟩ ⟨has, rfl⟩
  cases has with
  | nil => exact (lift_echoes _).then fun t => hrec _ _ _ _ _ t _ _
  | cons ha _ =>
    dsimp only
    rw [SameInfo.ty ha]
    exact (Echoes.pure rfl).then fun t => hrec _ _ _ _ _ t _ _

/-- An operation is checked alike if its operands are. -/
theorem binary_echoes {left left' right right' : Expr} (span : Span) (op : BinOp) (opSpan : Span)
    (hleft : ChecksAlike env env' (infer r left) (infer r left'))
    (hright : ChecksAlike env env' (infer r right) (infer r right')) :
    ChecksAlike env env' (infer r (.binary span op opSpan left right))
      (infer r (.binary span op opSpan left' right')) := by
  unfold infer
  refine hleft.bind fun a a' ha => ?_
  refine hright.bind fun b b' hb => ?_
  refine (binaryType_echoes op opSpan ha hb).then fun t => ?_
  exact (record_echoes ..).then fun _ => .pure rfl

/-- An assignment is checked alike if its place and its value are. -/
theorem assign_echoes {place place' value value' : Expr} (span : Span)
    (hisPlace : place'.isPlace = place.isPlace) (hspan : place'.span = place.span)
    (hplace : ChecksAlike env env' (infer r place) (infer r place'))
    (hvalue : ChecksAlike env env' (infer r value) (infer r value')) :
    ChecksAlike env env' (infer r (.assign span place value)) (infer r (.assign span place' value')) := by
  have hrest : ChecksAlike env env' (do
      let a ← infer r place
      let b ← infer r value
      Unifier.unify a.ty b.ty ((Provenance.of b.span .assign).relatedTo a.span)
      let own := Row.closed [mutLabel]
      Unifier.includeRow own (← get).context (.of span .performedEffect)
      record .assign (.assign span place value) .unit ""
      return TExpr.assign (.of span .unit own) a b) (do
      let a ← infer r place'
      let b ← infer r value'
      Unifier.unify a.ty b.ty ((Provenance.of b.span .assign).relatedTo a.span)
      let own := Row.closed [mutLabel]
      Unifier.includeRow own (← get).context (.of span .performedEffect)
      record .assign (.assign span place' value') .unit ""
      return TExpr.assign (.of span .unit own) a b) := by
    refine hplace.bind fun a a' ha => ?_
    refine hvalue.bind fun b b' hb => ?_
    rw [ha.ty, ha.span, hb.ty, hb.span]
    refine (lift_echoes _).then fun _ => .get_bind fun c c' hc => ?_
    rw [hc.context]
    exact (lift_echoes _).then fun _ => (record_echoes ..).then fun _ => .pure rfl
  unfold infer
  rw [hisPlace, hspan]
  dsimp only
  split
  · exact hrest
  · exact (lift_echoes _).then fun _ => hrest

end

mutual

theorem infer_echoes (hx : r.Local x) (hy : r.Local y) : (e e' : Expr) → (on : Bool) →
    (env env' : TypeEnv) →
    e.Renamed x y on e' → env.Renamed x y on env' → ChecksAlike env env' (infer r e) (infer r e')
  | .lit span value, _, on, env, env', h, henv => by
    cases h
    unfold infer
    exact (checkLiteral_echoes _ _).then fun _ => (record_echoes ..).then fun _ => .pure rfl
  | .var span name, _, on, env, env', h, henv => by
    cases h with
    | var hname =>
      unfold infer
      exact inferVar_echoes henv span hname
  | .call span func args, _, on, env, env', h, henv => by
    cases h with
    | call hfunc hargs =>
      refine call_echoes span hfunc.span (by cases hargs <;> rfl)
        (infer_echoes hx hy func _ on env env' hfunc henv) fun callee callee' hc => ?_
      exact inferCall_echoes hx hy func.span span args _ callee callee' on env env' hargs henv hc
  | .lam span params body, _, on, env, env', h, henv => by
    have hbody : ∀ body' on e e', body.Renamed x y on body' → TypeEnv.Renamed x y on e e' →
        ChecksAlike e e' (infer r body) (infer r body') := fun body' on e e' hb he =>
      infer_echoes hx hy body body' on e e' hb he
    cases h with
    | lam hps hb => exact lam_echoes hx hy (.lam hps hb) henv (hbody _)
    | lamName hps hone hb => exact lam_echoes hx hy (.lamName hps hone hb) henv (hbody _)
  | .letIn span name written value body, _, on, env, env', h, henv =>
    letIn_renamed_echoes hx hy h henv
      (fun value' hv => infer_echoes hx hy value value' on env env' hv henv)
      fun body' on e e' hb he => infer_echoes hx hy body body' on e e' hb he
  | .seq span items, _, on, env, env', h, henv => by
    cases h with
    | seq hitems =>
      unfold infer
      refine (inferList_echoes hx hy items _ on env env' hitems henv).bind fun es es' hes => ?_
      rw [lastType_eq hes]
      exact .pure rfl
  | .cond span condition onTrue onFalse, _, on, env, env', h, henv => by
    cases h with
    | cond hc ht hf =>
      exact cond_echoes span (infer_echoes hx hy condition _ on env env' hc henv)
        (infer_echoes hx hy onTrue _ on env env' ht henv)
        (infer_echoes hx hy onFalse _ on env env' hf henv)
  | .matchOn span scrutinee arms, _, on, env, env', h, henv => by
    cases h with
    | matchOn hs harms =>
      refine matchOn_echoes span (infer_echoes hx hy scrutinee _ on env env' hs henv) fun t => ?_
      exact inferArms_echoes hx hy t arms _ none none .pure on env env' harms henv rfl
  | .tuple span items, _, on, env, env', h, henv => by
    cases h with
    | tuple hitems =>
      unfold infer
      refine (inferList_echoes hx hy items _ on env env' hitems henv).bind fun es es' hes => ?_
      rw [map_ty_eq hes]
      exact (record_echoes ..).then fun _ => .pure rfl
  | .construct span name args, _, on, env, env', h, henv => by
    cases h with
    | construct hargs =>
      unfold infer
      refine (inferList_echoes hx hy args _ on env env' hargs henv).bind fun es es' hes => ?_
      refine (construct_echoes _ hes _).bind fun e e' he => ?_
      exact (record_echoes ..).then fun _ => .pure he
  | .binary span op opSpan left right, _, on, env, env', h, henv => by
    cases h with
    | binary hl hr =>
      exact binary_echoes span op opSpan (infer_echoes hx hy left _ on env env' hl henv)
        (infer_echoes hx hy right _ on env env' hr henv)
  | .unary span op opSpan operand, _, on, env, env', h, henv => by
    cases h with
    | unary ho =>
      unfold infer
      refine (infer_echoes hx hy operand _ on env env' ho henv).bind fun a a' ha => ?_
      exact (unaryType_echoes op opSpan ha).then fun _ => .pure rfl
  | .borrow span unique inner, _, on, env, env', h, henv => by
    cases h with
    | borrow hi =>
      unfold infer
      refine (infer_echoes hx hy inner _ on env env' hi henv).bind fun a a' ha => ?_
      rw [ha.ty]
      exact (record_echoes ..).then fun _ => .pure rfl
  | .deref span inner, _, on, env, env', h, henv => by
    cases h with
    | deref hi =>
      unfold infer
      refine (infer_echoes hx hy inner _ on env env' hi henv).bind fun a a' ha => ?_
      rw [ha.ty, ha.span]
      exact (target_echoes _ _).then fun t => .pure rfl
  | .assign span place value, _, on, env, env', h, henv => by
    cases h with
    | assign hp hv =>
      exact assign_echoes span hp.isPlace hp.span (infer_echoes hx hy place _ on env env' hp henv)
        (infer_echoes hx hy value _ on env env' hv henv)
termination_by structural e => e

theorem inferList_echoes (hx : r.Local x) (hy : r.Local y) : (es es' : List Expr) →
    (on : Bool) → (env env' : TypeEnv) →
    Expr.RenamedList x y on es es' → env.Renamed x y on env' →
    Echoes (At env env') (At env env') (inferList r es) (inferList r es') (List.Forall₂ SameInfo)
  | [], _, on, env, env', h, henv => by
    cases h
    unfold inferList
    exact .pure .nil
  | e :: es, _, on, env, env', h, henv => by
    cases h with
    | cons he hes =>
      unfold inferList
      refine (infer_echoes hx hy e _ on env env' he henv).bind fun t t' ht => ?_
      refine (inferList_echoes hx hy es _ on env env' hes henv).bind fun ts ts' hts => ?_
      exact .pure (.cons ht hts)
termination_by structural es => es

theorem inferCall_echoes (hx : r.Local x) (hy : r.Local y) (funcSpan span : Span) :
    (es es' : List Expr) → (f f' : TExpr) →
    (on : Bool) → (env env' : TypeEnv) → Expr.RenamedList x y on es es' →
    env.Renamed x y on env' → SameInfo f f' →
    Echoes (At env env') (At env env') (inferCall r funcSpan span f es)
      (inferCall r funcSpan span f' es') SameInfo
  | [], _, f, f', on, env, env', h, henv, hf => by
    cases h
    unfold inferCall
    exact .pure hf
  | e :: es, _, f, f', on, env, env', h, henv, hf => by
    cases h with
    | cons he hes =>
      unfold inferCall
      refine (infer_echoes hx hy e _ on env env' he henv).bind fun a a' ha => ?_
      refine (applyTo_echoes hf ha _ _).bind fun g g' hg => ?_
      exact inferCall_echoes hx hy funcSpan span es _ g g' on env env' hes henv hg
termination_by structural es => es

theorem inferArm_echoes (hx : r.Local x) (hy : r.Local y) (t : Ty) : (a a' : Arm) →
    (first first' : Option TExpr) → (own : Row) →
    (on : Bool) → (env env' : TypeEnv) → Expr.RenamedArm x y on a a' → env.Renamed x y on env' →
    first'.map TExpr.info = first.map TExpr.info →
    Echoes (At env env') (At env env') (inferArm r t first own a) (inferArm r t first' own a')
      (fun p p' => SameBody p.1 p'.1 ∧ p'.2 = p.2)
  | .mk pattern (some guard) body, _, first, first', own, on, env, env', h, henv, hfirst => by
    cases h with
    | guarded hp hg hb =>
      unfold inferArm
      refine (pushScope_echoes x y).then fun _ => ?_
      refine (inferPattern_echoes henv hx hy pattern t own [] hp).then fun q => ?_
      refine (within_echoes false pattern.bindings henv fun e e' he =>
        infer_echoes hx hy guard _ _ e e' hg he).bind fun g g' hg => ?_
      refine (requireBool_echoes hg).then fun _ => ?_
      refine (within_echoes false pattern.bindings henv fun e e' he =>
        infer_echoes hx hy body _ _ e e' hb he).bind fun b b' hb => ?_
      refine popScope_echoes.then fun _ => ?_
      rw [unifyArm_eq hfirst hb]
      exact (lift_echoes _).then fun _ => .pure ⟨hb, rfl⟩
  | .mk pattern none body, _, first, first', own, on, env, env', h, henv, hfirst => by
    cases h with
    | plain hp hb =>
      unfold inferArm
      refine (pushScope_echoes x y).then fun _ => ?_
      refine (inferPattern_echoes henv hx hy pattern t own [] hp).then fun q => ?_
      refine (within_echoes false pattern.bindings henv fun e e' he =>
        infer_echoes hx hy body _ _ e e' hb he).bind fun b b' hb => ?_
      refine popScope_echoes.then fun _ => ?_
      rw [unifyArm_eq hfirst hb]
      exact (lift_echoes _).then fun _ => .pure ⟨hb, rfl⟩
termination_by structural a => a

theorem inferArms_echoes (hx : r.Local x) (hy : r.Local y) (t : Ty) : (as as' : List Arm) →
    (first first' : Option TExpr) →
    (own : Row) → (on : Bool) → (env env' : TypeEnv) → Expr.RenamedArms x y on as as' →
    env.Renamed x y on env' → first'.map TExpr.info = first.map TExpr.info →
    Echoes (At env env') (At env env') (inferArms r t first own as) (inferArms r t first' own as')
      (fun p p' => List.Forall₂ SameBody p.1 p'.1 ∧ p'.2 = p.2)
  | [], _, first, first', own, on, env, env', h, henv, hfirst => by
    cases h
    unfold inferArms
    exact .pure ⟨.nil, rfl⟩
  | a :: as, _, first, first', own, on, env, env', h, henv, hfirst => by
    cases h with
    | cons ha has =>
      unfold inferArms
      refine (inferArm_echoes hx hy t a _ first first' own on env env' ha henv hfirst).bind ?_
      rintro ⟨b, own⟩ ⟨b', _⟩ ⟨hb, rfl⟩
      have hnext : (first'.or (some b'.body)).map TExpr.info =
          (first.or (some b.body)).map TExpr.info := by
        rw [Option.map_or, Option.map_or, hfirst, Option.map_some, Option.map_some, hb]
      refine (inferArms_echoes hx hy t as _ _ _ _ on env env' has henv hnext).bind ?_
      rintro ⟨bs, own⟩ ⟨bs', _⟩ ⟨hbs, rfl⟩
      exact .pure ⟨.cons hb hbs, rfl⟩
termination_by structural as => as

end

end

end Checker

/-! ## Declarations -/

/-- Whether a declaration is another one with some of its parameters and `let`s renamed: the
function that its parameters and its body make is. -/
inductive ValueDecl.Renamed (x y : String) : ValueDecl → ValueDecl → Prop
  | fn {d : FnDecl} {ps : List Param} {b : Expr} :
      (Expr.lam d.span d.params d.body).Renamed x y false (.lam d.span ps b) →
      Renamed x y (.fn d) (.fn { d with params := ps, body := b })
  | active {d : ActiveDecl} {p : Param} {b : Expr} :
      (Expr.lam d.span [d.param] d.body).Renamed x y false (.lam d.span [p] b) →
      Renamed x y (.active d) (.active { d with param := p, body := b })

namespace ValueDecl.Renamed

variable {x y : String} {d d' : ValueDecl}

theorem name (h : d.Renamed x y d') : d'.name = d.name := by cases h <;> rfl

theorem span (h : d.Renamed x y d') : d'.span = d.span := by cases h <;> rfl

end ValueDecl.Renamed

namespace Checker

/-- Equal environments. -/
abbrev Alike : TypeEnv → TypeEnv → Prop := fun env env' => env' = env

theorem modifyEnv_alike (f : TypeEnv → TypeEnv) :
    Echoes Alike Alike (modifyEnv f) (modifyEnv f) (· = ·) :=
  modifyEnv_echoes fun _ _ => congrArg f

/-- Whether a declaration is checked to be the same, up to names, as another one. -/
structure SameChecked (k k' : Checked) : Prop where
  name : k'.decl.name = k.decl.name
  body : SameInfo k.body k'.body

section

variable {x y : String} {r : Registries} {E : TypeEnv → TypeEnv → Prop}

theorem resultType_echoes (result : Option TypeExpr) (span : Span)
    {m m' : Expected → CheckM (TExpr × Row)} (hm : ∀ e, Echoes E E (m e) (m' e) SameResult) :
    Echoes E E (match result with
      | some written => do
        let t ← resolving (written.resolve r.types)
        pure (some (t, (Provenance.of span .resultType).relatedTo written.span)) >>= m
      | none => pure none >>= m) (match result with
      | some written => do
        let t ← resolving (written.resolve r.types)
        pure (some (t, (Provenance.of span .resultType).relatedTo written.span)) >>= m'
      | none => pure none >>= m') SameResult := by
  split
  · exact (resolving_echoes _).then fun _ => (Echoes.pure rfl).then hm
  · exact (Echoes.pure rfl).then hm

theorem inferFunction_echoes (hx : r.Local x) (hy : r.Local y) {d d' : FnDecl}
    (h : (ValueDecl.fn d).Renamed x y (.fn d')) {env env' : TypeEnv}
    (henv : env.Renamed x y false env') :
    Echoes (At env env') (At env env') (inferFunction r d) (inferFunction r d') SameResult := by
  cases h with
  | @fn _ ps b hlam =>
    have hbody : ∀ on e e', d.body.Renamed x y on b → TypeEnv.Renamed x y on e e' →
        ChecksAlike e e' (infer r d.body) (infer r b) := fun on e e' hb he =>
      infer_echoes hx hy _ _ on e e' hb he
    obtain ⟨hps, hbspan, hnone⟩ : ps.isEmpty = d.params.isEmpty ∧ b.span = d.body.span ∧
        (d.params.isEmpty = true → d.body.Renamed x y false b) := by
      cases hlam with
      | lam _ hb => exact ⟨rfl, hb.span, fun hp => by simpa [List.isEmpty_iff.1 hp] using hb⟩
      | lamName _ hone hb =>
        exact ⟨by simp, hb.span, fun hp => by simp [List.isEmpty_iff.1 hp] at hone⟩
    unfold inferFunction
    dsimp only
    rw [hbspan, hps]
    refine resultType_echoes d.result _ fun expected => ?_
    split
    · rename_i hp
      refine (inContext_echoes (hbody _ _ _ (hnone hp) henv) expected).bind ?_
      rintro ⟨e, performed⟩ ⟨e', _⟩ ⟨he, rfl⟩
      exact (exposedEffects_echoes _ _ _).then fun _ => .pure ⟨he, rfl⟩
    · exact lambda_echoes hx hy hlam henv hbody _ _ _

theorem inferActive_echoes (hx : r.Local x) (hy : r.Local y) {d d' : ActiveDecl}
    (h : (ValueDecl.active d).Renamed x y (.active d')) {env env' : TypeEnv}
    (henv : env.Renamed x y false env') :
    Echoes (At env env') (At env env') (inferActive r d) (inferActive r d') SameResult := by
  have hset : ∀ p : Option ActivePattern, Echoes (At env env') (At env env')
      (modify fun c : Checker => { c with active := p })
      (modify fun c : Checker => { c with active := p }) (· = ·) := fun _ =>
    modify_echoes fun _ _ hc => ⟨hc.unifier, hc.context, hc.scope, rfl, hc.env⟩
  cases h with
  | @active _ p b hlam =>
    have hbspan : b.span = d.body.span := by
      cases hlam with
      | lam _ hb => exact hb.span
      | lamName _ _ hb => exact hb.span
    unfold inferActive
    rw [hbspan]
    refine (hset _).then fun _ => ?_
    refine (lambda_echoes hx hy hlam henv (fun on e e' hb he =>
      infer_echoes hx hy _ _ on e e' hb he) _ _ _).bind fun p p' hp => ?_
    exact (hset none).then fun _ => .pure hp

/-- The names of a group are bound before its declarations are looked into. -/
theorem bindPlaceholders_echoes {ds ds' : List ValueDecl}
    (h : List.Forall₂ (ValueDecl.Renamed x y) ds ds') :
    Echoes Alike Alike (bindPlaceholders ds) (bindPlaceholders ds')
      (List.Forall₂ fun p p' => p.1.Renamed x y p'.1 ∧ p'.2 = p.2) := by
  induction h with
  | nil => exact .pure .nil
  | cons hd _ ih =>
    unfold bindPlaceholders
    rw [hd.name]
    refine (lift_echoes _).then fun t => ?_
    refine (modifyEnv_alike _).then fun _ => ?_
    exact ih.bind fun ps ps' hps => .pure (.cons ⟨hd, rfl⟩ hps)

theorem inferDecls_echoes (hx : r.Local x) (hy : r.Local y) {ps ps' : List (ValueDecl × Ty)}
    (h : List.Forall₂ (fun p p' => p.1.Renamed x y p'.1 ∧ p'.2 = p.2) ps ps') :
    Echoes Alike Alike (inferDecls r ps) (inferDecls r ps')
      (List.Forall₂ SameChecked) := by
  induction h with
  | nil => exact .pure .nil
  | @cons p p' ps ps' hp _ ih =>
    obtain ⟨d, _⟩ := p
    obtain ⟨d', placeholder⟩ := p'
    obtain ⟨hd, rfl⟩ := hp
    have hrest : ∀ q q' : TExpr × Row, SameResult q q' →
        Echoes Alike Alike (do
        Unifier.unify placeholder q.1.ty
          ((Provenance.of d.span .recursiveUse).relatedTo d.name.span)
        return ⟨d, q.1, q.2⟩ :: (← inferDecls r ps)) (do
        Unifier.unify placeholder q'.1.ty
          ((Provenance.of d'.span .recursiveUse).relatedTo d'.name.span)
        return ⟨d', q'.1, q'.2⟩ :: (← inferDecls r ps')) (List.Forall₂ SameChecked) := by
      intro q q' hq
      rw [hd.span, hd.name, hq.1.ty]
      exact (lift_echoes _).then fun _ => ih.bind fun _ _ h => .pure (.cons ⟨hd.name, hq.1⟩ h)
    have henv : ∀ {e e' : TypeEnv}, e' = e → e.Renamed x y false e' := by
      rintro e _ rfl
      exact ⟨rfl, .base _⟩
    have hscope : Echoes Alike Alike (modify fun c : Checker => { c with scope := .opened })
        (modify fun c : Checker => { c with scope := .opened }) (· = ·) :=
      modify_echoes fun _ _ hc => ⟨hc.unifier, hc.context, rfl, hc.active, hc.env⟩
    unfold inferDecls
    refine hscope.then fun _ => ?_
    cases hd with
    | fn hlam =>
      exact (Echoes.of_at fun e e' he =>
        inferFunction_echoes hx hy (.fn hlam) (henv he)).bind hrest
    | active hlam =>
      exact (Echoes.of_at fun e e' he =>
        inferActive_echoes hx hy (.active hlam) (henv he)).bind hrest

theorem recordScheme_echoes (name : Name) (s : Scheme) :
    Echoes E E (recordScheme name s) (recordScheme name s) (· = ·) :=
  traced_echoes _ _

theorem closeSchemes_echoes (failed : Bool) {ks ks' : List Checked}
    (h : List.Forall₂ SameChecked ks ks') :
    Echoes Alike Alike (closeSchemes failed ks)
      (closeSchemes failed ks') (· = ·) := by
  induction h with
  | nil => exact .pure rfl
  | @cons k k' ks ks' hk _ ih =>
    have hrest : ∀ s : Scheme, Echoes Alike Alike (do
        recordScheme k.decl.name s
        return (k.decl.name.text, s) :: (← closeSchemes failed ks)) (do
        recordScheme k.decl.name s
        return (k.decl.name.text, s) :: (← closeSchemes failed ks')) (· = ·) := fun s =>
      (recordScheme_echoes _ _).then fun _ => ih.then fun _ => .pure rfl
    unfold closeSchemes
    rw [hk.name, hk.body.ty]
    dsimp only
    split
    · exact hrest _
    · refine .get_bind fun c c' hc => ?_
      rw [hc.env]
      exact (lift_echoes _).then fun s => hrest _

theorem inferGroup_echoes (hx : r.Local x) (hy : r.Local y) {ds ds' : List ValueDecl}
    (h : List.Forall₂ (ValueDecl.Renamed x y) ds ds') :
    Echoes Alike Alike (inferGroup r ds) (inferGroup r ds')
      (List.Forall₂ SameChecked) := by
  unfold inferGroup
  refine (modifyEnv_alike _).then fun _ => (bindPlaceholders_echoes h).bind fun ps ps' hps => ?_
  refine (inferDecls_echoes hx hy hps).bind fun ks ks' hks => (modifyEnv_alike _).then fun _ => ?_
  exact (lift_echoes _).then fun _ => .pure hks

end

end Checker

open Checker

variable {x y : String} {r : Registries}

/-- A local name may be another one: a group in which some parameters and `let`s have another name,
which is not one of a variable in it, is at fault in the same places, and has the same schemes.
Neither name may be that of an active pattern or a case. -/
theorem checkGroup_renamed (hx : r.Local x) (hy : r.Local y) (env : TypeEnv) (tracing : Bool)
    {decls decls' : List Decl} (h : List.Forall₂ (ValueDecl.Renamed x y)
      (decls.filterMap Decl.value?) (decls'.filterMap Decl.value?)) :
    (checkGroup r env tracing decls').diagnostics = (checkGroup r env tracing decls).diagnostics ∧
      (checkGroup r env tracing decls').schemes = (checkGroup r env tracing decls).schemes := by
  have hstart : (start env tracing).Beside Alike (start env tracing) :=
    ⟨rfl, rfl, rfl, rfl, rfl⟩
  obtain ⟨hks, hc⟩ := inferGroup_echoes hx hy h hstart
  have herrors := congrArg Unifier.errors hc.unifier
  refine ⟨herrors, ?_⟩
  show (closeSchemes ((inferGroup r (decls'.filterMap Decl.value?)
    (start env tracing)).2.unifier.errors.any (·.isError)) _ _).1 = _
  rw [herrors]
  exact (closeSchemes_echoes _ hks hc).1.symm

/-- An active pattern, and a function that applies it where a local name is in scope:
```
active Size(n: s32) = Zero | More { if n = 0 { Zero } else { More } }
fn count(n) { let local = 1; match n { Zero => local, More => 2 } }
```
-/
def sizing : Decl :=
  let name := Name.mk .synthetic
  let int := fun n => Expr.lit .synthetic (.int n)
  .active ⟨.synthetic, name "Size", [⟨name "Zero", []⟩, ⟨name "More", []⟩], true,
    ⟨name "n", some (.named .synthetic "s32" [])⟩,
    .cond .synthetic (.binary .synthetic .eq .synthetic (.var .synthetic "n") (int 0))
      (.construct .synthetic (name "Zero") []) (.construct .synthetic (name "More") [])⟩

@[inherit_doc sizing]
def counting (x : String) : FnDecl :=
  let name := Name.mk .synthetic
  let int := fun n => Expr.lit .synthetic (.int n)
  ⟨.synthetic, name "count", [⟨name "n", none⟩], none, none,
    .letIn .synthetic (name x) none (int 1) (.matchOn .synthetic (.var .synthetic "n")
      [.mk (.ctor .synthetic "Zero" []) none (.var .synthetic x),
      .mk (.ctor .synthetic "More" []) none (int 2)])⟩

theorem counting_renamed :
    let r := (Module.registries [sizing]).1
    let env := TypeEnv.ofGlobals (.ofList [("Size", .mono (.arrow .s32 (.named "Size" [])))])
    let checked (x : String) := checkGroup r env false [.fn (counting x)]
    ValueDecl.Renamed "one" "size" (.fn (counting "one")) (.fn (counting "size")) ∧
    (checked "size").diagnostics = (checked "one").diagnostics ∧
    (checked "size").schemes = (checked "one").schemes := by
  have hrenamed : ValueDecl.Renamed "one" "size" (.fn (counting "one"))
      (.fn (counting "size")) := by
    refine .fn (.lam (by decide) (.letName (by decide) rfl .lit (.matchOn (.var (by decide))
      (.cons (.plain List.not_mem_nil ?_) (.cons (.plain List.not_mem_nil .lit) .nil)))))
    exact .var (by decide)
  refine ⟨hrenamed, checkGroup_renamed ?_ ?_ _ _ (.cons hrenamed .nil)⟩
  · exact ⟨by decide +kernel, by decide +kernel, by decide +kernel, by decide +kernel⟩
  · exact ⟨by decide +kernel, by decide +kernel, by decide +kernel, by decide +kernel⟩

/-- A local name that is that of an active pattern may not. The patterns of the function apply what
the local name stands for, and the function is found at fault. -/
theorem counting_captures :
    let r := (Module.registries [sizing]).1
    let env := TypeEnv.ofGlobals (.ofList [("Size", .mono (.arrow .s32 (.named "Size" [])))])
    let diagnostics (x : String) := (checkGroup r env false [.fn (counting x)]).diagnostics
    r.Local "size" ∧
    ValueDecl.Renamed "Size" "size" (.fn (counting "Size")) (.fn (counting "size")) ∧
    (diagnostics "Size").isEmpty = false ∧ (diagnostics "size").isEmpty = true := by
  refine ⟨?_, ?_, by decide +kernel, by decide +kernel⟩
  · exact ⟨by decide +kernel, by decide +kernel, by decide +kernel, by decide +kernel⟩
  · refine .fn (.lam (by decide) (.letName (by decide) rfl .lit (.matchOn (.var (by decide))
      (.cons (.plain List.not_mem_nil ?_) (.cons (.plain List.not_mem_nil .lit) .nil)))))
    exact .var (by decide)

end RowCheck
