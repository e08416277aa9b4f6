import RowCheck.Proofs.Infer.Reads

/-!
Checking depends on the global layer only by the names it may read. What is found at fault, and the
schemes that are inferred, are the same under any two layers that agree on these; so a declaration
can be checked as soon as what it may read has been, and a name that it does not read may as well
stand for a failed declaration.
-/
namespace RowCheck

namespace Checker

variable {globals : SortedMap String Scheme} {env : TypeEnv} {r : Registries}

theorem inContext_quiet {body : CheckM TExpr} (hbody : Quiet globals env body) (expected : Expected) :
    Quiet globals env (inContext body expected) := by
  have hset : ∀ row : Row, Quiet globals env (modify fun c : Checker => { c with context := row }) :=
    fun row => modify_quiet (fun _ => rfl) fun _ => rfl
  have hrest : ∀ (outer : Row) (e : TExpr), Quiet globals env (do
      let performed := (← get).context
      modify (fun c => { c with context := outer })
      return (e, performed)) := fun outer e =>
    .get_bind (fun _ _ => rfl) fun c _ => (hset outer).bind fun _ => .pure _
  unfold inContext
  refine .get_bind (fun _ _ => rfl) fun c _ => (lift_quiet _).bind fun row => (hset row).bind fun _ => ?_
  refine hbody.bind fun e => ?_
  dsimp only
  split
  · exact (lift_quiet _).bind fun _ => hrest _ _
  · exact hrest _ _

theorem exposedEffects_quiet (performed : Row) (declared : Declared) (span : Span) :
    Quiet globals env (exposedEffects performed declared span) := by
  unfold exposedEffects
  split
  · exact .pure _
  · exact (resolving_quiet _).bind fun _ => (lift_quiet _).bind fun _ => .pure _

theorem bindParams_binding (params : List Param) : ∀ env : TypeEnv,
    Binding globals env (bindParams r params) (params.map (·.name.text)) := by
  induction params with
  | nil => exact fun env => .pure _
  | cons p ps ih =>
    intro env
    have hrest : ∀ t : Ty, Binding globals env (do
        bindMono p.name.text t
        return ⟨p.name.text, p.name.span, t, none⟩ :: (← bindParams r ps))
        ((p :: ps).map (·.name.text)) := fun t =>
      (bindMono_binding p.name.text t).bind fun _ env' _ => (ih env').map _
    unfold bindParams
    refine (checkName_quiet _).binds fun _ => ?_
    dsimp only
    split
    · exact (resolving_quiet _).binds hrest
    · exact (lift_quiet _).binds hrest

/-- What is done within a scope of its own leaves the environment as it was. -/
theorem Binding.scoped {α β : Type} {m : CheckM α} {f : α → CheckM β} {names : List String}
    (h : Binding globals env.pushScope m names)
    (hf : ∀ a env', env.pushScope.Grows env' → (∀ name ∈ names, env'.Bound name) →
      Same globals env' (f a) fun env'' => env'' = env) :
    Quiet globals env (do
      modifyEnv .pushScope
      let a ← m
      f a) := by
  refine Same.bind pushScope_same fun _ env' he => ?_
  subst he
  exact Same.bind h fun a env' ⟨hg, hn⟩ => hf a env' hg hn

theorem popScope_restores {env' : TypeEnv} (hg : env.pushScope.Grows env') {α : Type}
    {m : CheckM α} (hm : Quiet globals env m) :
    Same globals env' (do
      modifyEnv .popScope
      m) fun env'' => env'' = env := by
  refine Same.bind popScope_same fun _ env'' he => ?_
  rw [he, hg.popScope]
  exact hm

theorem inferLambda_quiet (params : List Param) {body : CheckM TExpr}
    (hbody : ∀ env', env.pushScope.Grows env' → (∀ p ∈ params, env'.Bound p.name.text) →
      Quiet globals env' body) (span : Span) (expected : Expected) (declared : Declared) :
    Quiet globals env (inferLambda r params body span expected declared) := by
  unfold inferLambda
  refine (bindParams_binding params _).scoped fun bs env' hg hn => ?_
  have hbody' : Quiet globals env' body :=
    hbody env' hg fun p hp => hn _ (List.mem_map_of_mem hp)
  refine (inContext_quiet hbody' expected).then fun p => ?_
  refine (exposedEffects_quiet _ declared _).then fun effects => ?_
  exact popScope_restores hg (.pure _)

theorem localScheme_quiet (e value : Expr) (name : String) (t : Ty) :
    Quiet globals env (localScheme e value name t) := by
  unfold localScheme
  split
  · refine .get_bind (fun _ _ => rfl) fun c _ => (lift_quiet _).bind fun s => ?_
    exact (record_quiet _ _ _ _).bind fun _ => .pure _
  · exact .pure _

/-- The names that are bound and those on which the global layers agree, for what reads only these. -/
structure Reading (globals : SortedMap String Scheme) (env : TypeEnv) (bound reads : List String) :
    Prop where
  bound : ∀ name ∈ bound, env.Bound name
  agrees : ∀ name ∈ reads, env.globals.get? name = globals.get? name

namespace Reading

variable {bound reads reads' names : List String}

theorem append (h : Reading globals env bound (reads ++ reads')) :
    Reading globals env bound reads ∧ Reading globals env bound reads' := by
  obtain ⟨hreads, hreads'⟩ := List.forall_mem_append.1 h.agrees
  exact ⟨⟨h.bound, hreads⟩, ⟨h.bound, hreads'⟩⟩

/-- Names need not be read further out if they are bound. -/
theorem filter (h : Reading globals env bound (names.filter (· ∉ bound))) :
    Agrees globals env.pushScope names := by
  intro name hname
  by_cases hb : name ∈ bound
  · exact .inl (TypeEnv.bound_pushScope.2 (h.bound name hb))
  · exact .inr (h.agrees name (List.mem_filter.2 ⟨hname, by simpa using hb⟩))

/-- Within a scope that binds further names. -/
theorem within (h : Reading globals env bound reads) {env' : TypeEnv}
    (hg : env.pushScope.Grows env') (hn : ∀ name ∈ names, env'.Bound name) :
    Reading globals env' (names ++ bound) reads := by
  refine ⟨fun name hname => ?_, fun name hname => ?_⟩
  · rcases List.mem_append.1 hname with hname | hname
    · exact hn name hname
    · exact hg.bound name (TypeEnv.bound_pushScope.2 (h.bound name hname))
  · exact hg.globals ▸ h.agrees name hname

end Reading

/-! ## Forms of expressions -/

/-- A call reads what its callee and its arguments read. -/
theorem call_quiet {func : Expr} {args : List Expr} (span : Span) (hfunc : Quiet globals env (infer r func))
    (hargs : ∀ callee, Quiet globals env (inferCall r func.span span callee args)) :
    Quiet globals env (infer r (.call span func args)) := by
  have hrec : ∀ e : TExpr, Quiet globals env (do
      record .call (.call span func args) e.ty s!"{args.length} argument(s)"
      return e) := fun e => (record_quiet _ _ _ _).bind fun _ => .pure _
  unfold infer
  refine hfunc.bind fun callee => ?_
  dsimp only
  split
  · exact (applyTo_quiet _ _ _ _).bind hrec
  · exact (hargs callee).bind hrec

/-- A `let` reads what its value reads, and what its body reads in a scope where the name is bound. -/
theorem letIn_quiet {value body : Expr} {name : Name} (span : Span) (written : Option TypeExpr)
    (hvalue : Quiet globals env (infer r value))
    (hbody : ∀ env', env.pushScope.Grows env' → (∀ x ∈ [name.text], env'.Bound x) →
      Quiet globals env' (infer r body)) :
    Quiet globals env (infer r (.letIn span name written value body)) := by
  have hrest : ∀ (v : TExpr) (s : Scheme), Quiet globals env (do
      modifyEnv .pushScope
      modifyEnv (fun env => env.bind name.text s)
      let b ← infer r body
      modifyEnv .popScope
      record .letIn (.letIn span name written value body) b.ty name.text
      return TExpr.letIn (.quiet span b.ty) ⟨name.text, name.span, v.ty, none⟩ v b) := by
    intro v s
    have hbind : Binding globals env.pushScope (modifyEnv fun env => env.bind name.text s)
        [name.text] := (modifyEnv_same (env.pushScope.bind_withGlobals ..)).imp fun env' he => by
      rw [he]
      exact ⟨env.pushScope.grows_bind .., by simpa using env.pushScope.bound_bind ..⟩
    refine hbind.scoped fun _ env' hg hn => (hbody env' hg hn).then fun b => ?_
    exact popScope_restores hg ((record_quiet _ _ _ _).bind fun _ => .pure _)
  have htail : ∀ v : TExpr, Quiet globals env (do
      let s ← localScheme (.letIn span name written value body) value name.text v.ty
      modifyEnv .pushScope
      modifyEnv (fun env => env.bind name.text s)
      let b ← infer r body
      modifyEnv .popScope
      record .letIn (.letIn span name written value body) b.ty name.text
      return TExpr.letIn (.quiet span b.ty) ⟨name.text, name.span, v.ty, none⟩ v b) := fun v =>
    (localScheme_quiet _ _ _ _).bind fun s => hrest v s
  unfold infer
  refine (checkName_quiet name).bind fun _ => hvalue.bind fun v => ?_
  dsimp only
  split
  · exact (resolving_quiet _).bind fun _ => (lift_quiet _).bind fun _ => htail v
  · exact htail v

/-- A match reads what its scrutinee and its arms read. -/
theorem matchOn_quiet {scrutinee : Expr} {arms : List Arm} (span : Span)
    (hscrutinee : Quiet globals env (infer r scrutinee))
    (harms : ∀ t, Quiet globals env (inferArms r t none .pure arms)) :
    Quiet globals env (infer r (.matchOn span scrutinee arms)) := by
  have hrec : ∀ (s : TExpr) (checked : List TArm) (own : Row) (t : Ty), Quiet globals env (do
      record .matchOn (.matchOn span scrutinee arms) t s!"{arms.length} arm(s)"
      return TExpr.matchOn (.of span t own) s checked none) := fun _ _ _ _ =>
    (record_quiet _ _ _ _).bind fun _ => .pure _
  unfold infer
  refine hscrutinee.bind fun s => (harms s.ty).bind fun p => ?_
  dsimp only
  split
  · exact hrec _ _ _ _
  · exact (lift_quiet _).bind fun _ => hrec _ _ _ _

/-- An assignment reads what its place and its value read. -/
theorem assign_quiet {place value : Expr} (span : Span) (hplace : Quiet globals env (infer r place))
    (hvalue : Quiet globals env (infer r value)) :
    Quiet globals env (infer r (.assign span place value)) := by
  have hrest : Quiet globals env (do
      let a ← infer r place
      let b ← infer r value
      Unifier.unify a.ty b.ty ((Provenance.of b.span .assign).relatedTo a.span)
      let own := Row.closed [mutLabel]
      Unifier.includeRow own (← get).context (.of span .performedEffect)
      record .assign (.assign span place value) .unit ""
      return TExpr.assign (.of span .unit own) a b) := by
    refine hplace.bind fun a => hvalue.bind fun b => (lift_quiet _).bind fun _ => ?_
    refine .get_bind (fun _ _ => rfl) fun c _ => (lift_quiet _).bind fun _ => ?_
    exact (record_quiet _ _ _ _).bind fun _ => .pure _
  unfold infer
  dsimp only
  split
  · exact hrest
  · exact (lift_quiet _).bind fun _ => hrest

mutual

/-- An expression is checked the same under global layers that agree on what it may read. -/
theorem infer_quiet : (e : Expr) → (bound : List String) → (env : TypeEnv) →
    Reading globals env bound (e.reads r.active bound) → Quiet globals env (infer r e)
  | .lit span value, bound, env, _ => by
    unfold infer
    exact (checkLiteral_quiet _ _).bind fun _ => (record_quiet _ _ _ _).bind fun _ => .pure _
  | .var span name, bound, env, h => by
    unfold infer
    refine inferVar_quiet _ (List.forall_mem_singleton.2 ?_)
    by_cases hname : name ∈ bound
    · exact .inl (h.bound name hname)
    · exact .inr (h.agrees name (by simp [Expr.reads, hname]))
  | .call span func args, bound, env, h => by
    obtain ⟨hfunc, hargs⟩ := Reading.append h
    exact call_quiet span (infer_quiet func bound env hfunc) fun callee =>
      inferCall_quiet func.span span args callee bound env hargs
  | .lam span params body, bound, env, h => by
    unfold infer
    refine (inferLambda_quiet params (fun env' hg hn => ?_) span none none).bind fun p => ?_
    · refine infer_quiet body _ env' (h.within hg fun name hname => ?_)
      obtain ⟨p, hp, rfl⟩ := List.mem_map.1 hname
      exact hn p hp
    · exact (record_quiet _ _ _ _).bind fun _ => .pure _
  | .letIn span name written value body, bound, env, h => by
    obtain ⟨hvalue, hbody⟩ := Reading.append h
    exact letIn_quiet span written (infer_quiet value bound env hvalue) fun env' hg hn =>
      infer_quiet body _ env' (hbody.within hg hn)
  | .seq span items, bound, env, h => by
    unfold infer
    exact (inferList_quiet items bound env h).bind fun _ => .pure _
  | .cond span condition onTrue onFalse, bound, env, h => by
    obtain ⟨h, hfalse⟩ := Reading.append h
    obtain ⟨hcond, htrue⟩ := h.append
    unfold infer
    refine (infer_quiet condition bound env hcond).bind fun c => (lift_quiet _).bind fun _ => ?_
    refine (infer_quiet onTrue bound env htrue).bind fun t => ?_
    refine (infer_quiet onFalse bound env hfalse).bind fun f => (lift_quiet _).bind fun _ => ?_
    exact (record_quiet _ _ _ _).bind fun _ => .pure _
  | .matchOn span scrutinee arms, bound, env, h => by
    obtain ⟨hscrutinee, harms⟩ := Reading.append h
    exact matchOn_quiet span (infer_quiet scrutinee bound env hscrutinee) fun t =>
      inferArms_quiet t arms none .pure bound env harms
  | .tuple span items, bound, env, h => by
    unfold infer
    refine (inferList_quiet items bound env h).bind fun _ => ?_
    exact (record_quiet _ _ _ _).bind fun _ => .pure _
  | .construct span name args, bound, env, h => by
    unfold infer
    refine (inferList_quiet args bound env h).bind fun _ => (construct_quiet _ _ _).bind fun _ => ?_
    exact (record_quiet _ _ _ _).bind fun _ => .pure _
  | .binary span op opSpan left right, bound, env, h => by
    obtain ⟨hleft, hright⟩ := Reading.append h
    unfold infer
    refine (infer_quiet left bound env hleft).bind fun a => ?_
    refine (infer_quiet right bound env hright).bind fun b => (binaryType_quiet _ _ _ _).bind fun t => ?_
    exact (record_quiet _ _ _ _).bind fun _ => .pure _
  | .unary span op opSpan operand, bound, env, h => by
    unfold infer
    refine (infer_quiet operand bound env h).bind fun a => ?_
    exact (unaryType_quiet _ _ _).bind fun _ => .pure _
  | .borrow span unique inner, bound, env, h => by
    unfold infer
    refine (infer_quiet inner bound env h).bind fun a => ?_
    exact (record_quiet _ _ _ _).bind fun _ => .pure _
  | .deref span inner, bound, env, h => by
    unfold infer
    refine (infer_quiet inner bound env h).bind fun a => ?_
    exact (target_quiet _ _).bind fun _ => .pure _
  | .assign span place value, bound, env, h => by
    obtain ⟨hplace, hvalue⟩ := Reading.append h
    exact assign_quiet span (infer_quiet place bound env hplace) (infer_quiet value bound env hvalue)

theorem inferList_quiet : (es : List Expr) → (bound : List String) → (env : TypeEnv) →
    Reading globals env bound (Expr.readsList r.active bound es) → Quiet globals env (inferList r es)
  | [], bound, env, _ => by
    unfold inferList
    exact .pure _
  | e :: es, bound, env, h => by
    obtain ⟨he, hes⟩ := Reading.append h
    unfold inferList
    refine (infer_quiet e bound env he).bind fun t => ?_
    exact (inferList_quiet es bound env hes).bind fun ts => .pure _

theorem inferCall_quiet (funcSpan span : Span) : (args : List Expr) → (callee : TExpr) →
    (bound : List String) → (env : TypeEnv) →
    Reading globals env bound (Expr.readsList r.active bound args) →
    Quiet globals env (inferCall r funcSpan span callee args)
  | [], callee, bound, env, _ => by
    unfold inferCall
    exact .pure _
  | a :: as, callee, bound, env, h => by
    obtain ⟨ha, has⟩ := Reading.append h
    unfold inferCall
    refine (infer_quiet a bound env ha).bind fun arg => (applyTo_quiet _ _ _ _).bind fun next => ?_
    exact inferCall_quiet funcSpan span as next bound env has

theorem inferArm_quiet (t : Ty) : (a : Arm) → (first : Option TExpr) → (own : Row) →
    (bound : List String) → (env : TypeEnv) →
    Reading globals env bound (Expr.readsArm r.active bound a) →
    Quiet globals env (inferArm r t first own a)
  | .mk pattern (some guard) body, first, own, bound, env, h => by
    obtain ⟨h, hbody⟩ := Reading.append h
    obtain ⟨hpattern, hguard⟩ := h.append
    unfold inferArm
    refine (inferPattern_binding pattern t own _ hpattern.filter).scoped fun p env' hg hn => ?_
    refine (infer_quiet guard _ env' (hguard.within hg hn)).then fun g => (lift_quiet _).then fun _ => ?_
    refine (infer_quiet body _ env' (hbody.within hg hn)).then fun b => ?_
    exact popScope_restores hg ((lift_quiet _).bind fun _ => .pure _)
  | .mk pattern none body, first, own, bound, env, h => by
    obtain ⟨hpattern, hbody⟩ := Reading.append h
    unfold inferArm
    refine (inferPattern_binding pattern t own _ hpattern.filter).scoped fun p env' hg hn => ?_
    refine (infer_quiet body _ env' (hbody.within hg hn)).then fun b => ?_
    exact popScope_restores hg ((lift_quiet _).bind fun _ => .pure _)

theorem inferArms_quiet (t : Ty) : (as : List Arm) → (first : Option TExpr) → (own : Row) →
    (bound : List String) → (env : TypeEnv) →
    Reading globals env bound (Expr.readsArms r.active bound as) →
    Quiet globals env (inferArms r t first own as)
  | [], first, own, bound, env, _ => by
    unfold inferArms
    exact .pure _
  | a :: as, first, own, bound, env, h => by
    obtain ⟨ha, has⟩ := Reading.append h
    unfold inferArms
    refine (inferArm_quiet t a first own bound env ha).bind fun q => ?_
    exact (inferArms_quiet t as _ q.2 bound env has).bind fun _ => .pure _

end

end Checker

/-! ## Declarations -/

/-- The names that checking a declaration may read, given names that are bound around it. -/
def ValueDecl.reads (active : ActiveRegistry) (bound : List String) : ValueDecl → List String
  | .fn d => d.body.reads active (d.params.map (·.name.text) ++ bound)
  | .active d => d.body.reads active (d.param.name.text :: bound)

namespace Checker

variable {globals : SortedMap String Scheme} {env : TypeEnv} {r : Registries} {bound : List String}

theorem resultType_quiet (d : FnDecl) {m : Expected → CheckM (TExpr × Row)}
    (hm : ∀ e, Quiet globals env (m e)) : Quiet globals env (match d.result with
      | some written => do
        let t ← resolving (written.resolve r.types)
        pure (some (t, (Provenance.of d.body.span .resultType).relatedTo written.span)) >>= m
      | none => pure none >>= m) := by
  split
  · exact (resolving_quiet _).bind fun _ => (Quiet.pure _).bind hm
  · exact (Quiet.pure _).bind hm

theorem inferFunction_quiet (d : FnDecl)
    (h : Reading globals env bound ((ValueDecl.fn d).reads r.active bound)) :
    Quiet globals env (inferFunction r d) := by
  unfold inferFunction
  refine resultType_quiet d fun expected => ?_
  dsimp only
  split
  · rename_i hparams
    have hreads : (ValueDecl.fn d).reads r.active bound = d.body.reads r.active bound := by
      rw [ValueDecl.reads, List.isEmpty_iff.1 hparams]
      rfl
    rw [hreads] at h
    refine (inContext_quiet (infer_quiet d.body bound env h) expected).bind fun p => ?_
    exact (exposedEffects_quiet _ _ _).bind fun _ => .pure _
  · refine inferLambda_quiet d.params (fun env' hg hn => ?_) _ _ _
    refine infer_quiet d.body _ env' (h.within hg fun name hname => ?_)
    obtain ⟨p, hp, rfl⟩ := List.mem_map.1 hname
    exact hn p hp

theorem inferActive_quiet (d : ActiveDecl)
    (h : Reading globals env bound ((ValueDecl.active d).reads r.active bound)) :
    Quiet globals env (inferActive r d) := by
  have hset : ∀ p : Option ActivePattern,
      Quiet globals env (modify fun c : Checker => { c with active := p }) :=
    fun _ => modify_quiet (fun _ => rfl) fun _ => rfl
  unfold inferActive
  refine (hset _).bind fun _ => ?_
  refine (inferLambda_quiet [d.param] (fun env' hg hn => ?_) _ _ _).bind fun p => ?_
  · have hparam : ∀ name ∈ [d.param.name.text], env'.Bound name :=
      List.forall_mem_singleton.2 (hn d.param List.mem_cons_self)
    exact infer_quiet d.body _ env' (h.within hg hparam)
  · exact (hset none).bind fun _ => .pure _

theorem bindPlaceholders_binding (ds : List ValueDecl) : ∀ env : TypeEnv,
    Binding globals env (bindPlaceholders ds) (ds.map (·.name.text)) := by
  induction ds with
  | nil => exact fun env => .pure _
  | cons d ds ih =>
    intro env
    unfold bindPlaceholders
    exact (lift_quiet _).binds fun t => (bindMono_binding d.name.text t).bind fun _ env' _ =>
      (ih env').map _

theorem bindPlaceholders_fst (ds : List ValueDecl) (c : Checker) :
    (bindPlaceholders ds c).1.map (·.1) = ds := by
  induction ds generalizing c with
  | nil => rfl
  | cons d ds ih => exact congrArg (d :: ·) (ih _)

theorem inferDecls_quiet (ps : List (ValueDecl × Ty))
    (h : ∀ p ∈ ps, Reading globals env bound (p.1.reads r.active bound)) :
    Quiet globals env (inferDecls r ps) := by
  induction ps with
  | nil => exact .pure _
  | cons p ps ih =>
    obtain ⟨d, placeholder⟩ := p
    rw [List.forall_mem_cons] at h
    have hrest : ∀ q : TExpr × Row, Quiet globals env (do
        Unifier.unify placeholder q.1.ty
          ((Provenance.of d.span .recursiveUse).relatedTo d.name.span)
        return ⟨d, q.1, q.2⟩ :: (← inferDecls r ps)) := fun q =>
      (lift_quiet _).bind fun _ => (ih h.2).bind fun _ => .pure _
    have hscope : Quiet globals env (modify fun c : Checker => { c with scope := .opened }) :=
      modify_quiet (fun _ => rfl) fun _ => rfl
    unfold inferDecls
    refine hscope.bind fun _ => ?_
    cases d with
    | fn f => exact (inferFunction_quiet f h.1).bind hrest
    | active a => exact (inferActive_quiet a h.1).bind hrest

theorem closeSchemes_quiet (failed : Bool) (ks : List Checked) :
    Quiet globals env (closeSchemes failed ks) := by
  induction ks with
  | nil => exact .pure _
  | cons k ks ih =>
    have hrest : ∀ s : Scheme, Quiet globals env (do
        recordScheme k.decl.name s
        return (k.decl.name.text, s) :: (← closeSchemes failed ks)) := fun s =>
      (recordScheme_quiet _ _).bind fun _ => ih.bind fun _ => .pure _
    unfold closeSchemes
    dsimp only
    split
    · exact hrest _
    · exact .get_bind (fun _ _ => rfl) fun c _ => (lift_quiet _).bind fun s => hrest _

theorem inferGroup_quiet (ds : List ValueDecl)
    (h : ∀ d ∈ ds, ∀ name ∈ d.reads r.active (ds.map (·.name.text)),
      env.globals.get? name = globals.get? name) :
    Quiet globals env (inferGroup r ds) := by
  unfold inferGroup
  refine Same.bind pushScope_same fun _ env' he => ?_
  subst he
  refine Same.next (bindPlaceholders_binding ds _) (P := fun ps => ps.map (·.1) = ds)
    (bindPlaceholders_fst ds) fun ps env' hps ⟨hg, hn⟩ => ?_
  have hdecls : Quiet globals env' (inferDecls r ps) := inferDecls_quiet ps fun p hp =>
    have hd : p.1 ∈ ds := hps ▸ List.mem_map_of_mem hp
    ⟨hn, fun name hname => hg.globals ▸ h p.1 hd name hname⟩
  exact hdecls.then fun _ => popScope_restores hg ((lift_quiet _).bind fun _ => .pure _)

end Checker

open Checker

variable {globals : SortedMap String Scheme} {env : TypeEnv} {r : Registries}

/-- A group is checked the same under global layers that agree on what its declarations may read,
apart from the names of the group itself. -/
theorem checkGroup_withGlobals {decls : List Decl} (tracing : Bool)
    (h : ∀ d ∈ decls.filterMap Decl.value?, ∀ name ∈ d.reads r.active
      ((decls.filterMap Decl.value?).map (·.name.text)),
      env.globals.get? name = globals.get? name) :
    checkGroup r (env.withGlobals globals) tracing decls = checkGroup r env tracing decls := by
  have hstart : start (env.withGlobals globals) tracing = (start env tracing).withGlobals globals := rfl
  have hclose : ∀ c : Checker, c.env = env → ∀ failed ks,
      closeSchemes failed ks (c.withGlobals globals) =
        ((closeSchemes failed ks c).1, (closeSchemes failed ks c).2.withGlobals globals) :=
    fun c hc failed ks => (closeSchemes_quiet failed ks c hc).1
  obtain ⟨hrun, henv⟩ := inferGroup_quiet (decls.filterMap Decl.value?) h (start env tracing) rfl
  simp only [checkGroup, StateT.run, hstart, hrun, hclose _ henv]
  rfl

/-- A group that does not read a name is checked the same whatever the name stands for; so nothing in
it depends on whether the declaration of that name has failed. -/
theorem checkGroup_insert {decls : List Decl} (tracing : Bool) {name : String}
    (h : ∀ d ∈ decls.filterMap Decl.value?, name ∉ d.reads r.active
      ((decls.filterMap Decl.value?).map (·.name.text))) (s s' : Scheme) :
    checkGroup r (env.withGlobals (env.globals.insert name s)) tracing decls =
      checkGroup r (env.withGlobals (env.globals.insert name s')) tracing decls := by
  have hsame : ∀ t : Scheme, checkGroup r (env.withGlobals (env.globals.insert name t)) tracing decls =
      checkGroup r env tracing decls := by
    intro t
    refine checkGroup_withGlobals tracing fun d hd other hother => ?_
    have hne : name ≠ other := fun he => h d hd (he ▸ hother)
    rw [SortedMap.get?_insert, if_neg hne]
  rw [hsame s, hsame s']

/-- A function that lends its argument before it reads through it and returns it:
`fn lend(r) -> &mut s32 { x(&r); *r; r }`. -/
def lend : Decl :=
  let name := Name.mk .synthetic
  let var := Expr.var .synthetic
  .fn ⟨.synthetic, name "lend", [⟨name "r", none⟩],
    some (.ref .synthetic true (.named .synthetic "s32" [])), none,
    .seq .synthetic [.call .synthetic (var "x") [.borrow .synthetic false (var "r")],
      .deref .synthetic (var "r"), var "r"]⟩

/-- A name that is read does leave a trace. The function is accepted where the name stands for a function
on such references; where the declaration of the name has failed, nothing tells that the argument is a
unique reference before it is read through, and the function is found at fault. -/
theorem lend_cascades :
    (checkGroup .empty (.ofGlobals ((∅ : SortedMap String Scheme).insert "x"
      (.mono (.arrow (.ref .shared (.ref .unique .s32)) .unit)))) false [lend]).diagnostics.isEmpty =
      true ∧
    (checkGroup .empty (.ofGlobals ((∅ : SortedMap String Scheme).insert "x"
      .error)) false [lend]).diagnostics.isEmpty = false := by decide +kernel

end RowCheck
