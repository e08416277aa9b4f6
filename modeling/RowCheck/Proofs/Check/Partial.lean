import RowCheck.Proofs.Check.Groups
import RowCheck.Proofs.Infer.Calls
import RowCheck.Proofs.Infer.Closing

/-!
Functions of several parameters and partial application. A declaration with parameters has a chain
of arrows for its type, and only the last arrow performs effects. A call of it in a later group
takes as many parameters away as it hands over arguments, and performs nothing of its own before it
has handed over the last one.
-/
namespace RowCheck

/-! ## Chains of arrows -/

namespace Ty

variable {f : TyVar → Ty} {g : Row → Row}

theorem curried_cons_eq_fn (p : Ty) (ps : List Ty) (q : Ty) (e : Row) :
    curried (p :: ps) q e = .fn p (curried ps q e) (if ps = [] then e else .pure) := by
  cases ps <;> rfl

theorem mapVars_curried (hg : g .pure = .pure) (ps : List Ty) (q : Ty) (e : Row) :
    (curried ps q e).mapVars f g = curried (ps.map (mapVars f g)) (q.mapVars f g) (g e) := by
  induction ps with
  | nil => rfl
  | cons p ps ih =>
    rw [List.map_cons, curried_cons_eq_fn, curried_cons_eq_fn, mapVars, ih]
    cases ps with
    | nil => rfl
    | cons p' ps => simp [hg]

end Ty

theorem Substitution.apply_curried (σ : Substitution) (ps : List Ty) (q : Ty) (e : Row) :
    σ.apply (.curried ps q e) = .curried (ps.map σ.apply) (σ.apply q) (σ.findRow e) :=
  Ty.mapVars_curried (findRow_closed rfl) ps q e

/-- An instance of a chain of arrows is one as long. -/
theorem Scheme.Instance.curried {s : Scheme} {t : Ty} (h : s.Instance t) {ps : List Ty} {q : Ty}
    {e : Row} (hs : s.ty = .curried ps q e) :
    ∃ qs q' e', qs.length = ps.length ∧ t = .curried qs q' e' := by
  obtain ⟨types, rows, rfl⟩ := h
  rw [hs, Ty.mapVars_curried rfl]
  exact ⟨_, _, _, List.length_map _, rfl⟩

/-! ## Calls -/

namespace TExpr

/-- What is called in the end, and the arguments that it is handed over one by one. -/
def spine : TExpr → TExpr × List TExpr
  | call _ f a => (f.spine.1, f.spine.2 ++ [a])
  | e => (e, [])

theorem spine_settle (s : Substitution) (e : TExpr) :
    (e.settle s).spine = (e.spine.1.settle s, e.spine.2.map (settle s)) := by
  induction e using TExpr.spine.induct with
  | case1 i f a ih => simp [settle, spine, ih]
  | case2 e he =>
    cases e with
    | call i f a => exact absurd rfl (he i f a)
    | _ => rfl

theorem eq_of_spine_nil {e h : TExpr} (he : e.spine = (h, [])) : e = h := by
  cases e with
  | call i f a => simp [spine] at he
  | _ => exact (Prod.mk.inj he).1

theorem eq_call_of_spine_concat {e h a : TExpr} {as : List TExpr} (he : e.spine = (h, as ++ [a])) :
    ∃ i f, e = .call i f a ∧ f.spine = (h, as) := by
  cases e with
  | call i f b =>
    obtain ⟨hhead, hargs⟩ := Prod.mk.inj he
    obtain ⟨hinit, hlast⟩ := List.append_inj' hargs rfl
    obtain rfl := List.singleton_inj.1 hlast
    exact ⟨i, f, rfl, Prod.ext hhead hinit⟩
  | _ => simp [spine] at he

/-- Whether an expression has what is left of a chain of arrows after some arguments: they match its
first parameters and, before the last one, nothing is performed but what they perform themselves. -/
structure Takes (n : TExpr) (args : List TExpr) (ps : List Ty) (q : Ty) (e : Row) : Prop where
  ty : n.ty = .curried (ps.drop args.length) q e
  params : List.Forall₂ Ty.Matches (ps.take args.length) (args.map TExpr.ty)
  quiet : args.length < ps.length → n.effects = (args.map effects).foldl Row.union .pure

variable {ps : List Ty} {q : Ty} {e : Row}

theorem takes_nil {n : TExpr} (ht : n.ty = .curried ps q e) (he : n.effects = .pure) :
    n.Takes [] ps q e := ⟨ht, .nil, fun _ => he⟩

/-- A call hands over one argument more. -/
theorem Takes.call {i : Info} {f a : TExpr} {as : List TExpr} (h : f.Takes as ps q e)
    (hlen : as.length < ps.length) (ht : i.ty = .curried (ps.drop (as.length + 1)) q e)
    (ha : ps[as.length].Matches a.ty)
    (he : as.length + 1 < ps.length → i.effects = f.effects.union a.effects) :
    (TExpr.call i f a).Takes (as ++ [a]) ps q e := by
  refine ⟨?_, ?_, fun hlt => ?_⟩
  · rw [List.length_append]
    exact ht
  · rw [List.length_append, List.map_append, List.length_singleton, List.take_add_one,
      List.getElem?_eq_getElem hlen]
    exact List.rel_append h.params (.cons ha .nil)
  · rw [List.length_append] at hlt
    rw [List.map_append, List.foldl_append, ← h.quiet hlen]
    exact he hlt

end TExpr

namespace Checker

variable {r : Registries}

theorem inferCall_spine (funcSpan span : Span) (callee : TExpr) (args : List Expr) :
    Always (inferCall r funcSpan span callee args) fun t =>
      ∃ as, as.length = args.length ∧ t.spine = (callee.spine.1, callee.spine.2 ++ as) := by
  induction args generalizing callee with
  | nil =>
    unfold inferCall
    exact .pure ⟨[], rfl, by simp⟩
  | cons a args ih =>
    unfold inferCall
    refine .bind fun arg => ?_
    refine Always.next (applyTo_always callee arg funcSpan span) fun next hnext => ?_
    obtain ⟨i, rfl⟩ := hnext
    intro c
    obtain ⟨as, hlen, hspine⟩ := ih (.call i callee arg) c
    exact ⟨arg :: as, congrArg (· + 1) hlen, hspine.trans (by simp [TExpr.spine])⟩

/-- A call that is written with several arguments is one of calls with one, and a call without
arguments hands over the unit value. -/
theorem infer_call_spine (span : Span) (func : Expr) (args : List Expr) (c : Checker) :
    ∃ as, as.length = max args.length 1 ∧ (infer r (.call span func args) c).1.spine =
      ((infer r func c).1.spine.1, (infer r func c).1.spine.2 ++ as) := by
  suffices h : ∀ callee : TExpr, Always (do
      let result ← if args.isEmpty then
          applyTo callee (.lit (.quiet span .unit) .unit) func.span span
        else inferCall r func.span span callee args
      record .call (.call span func args) result.ty s!"{args.length} argument(s)"
      return result) fun t => ∃ as, as.length = max args.length 1 ∧
        t.spine = (callee.spine.1, callee.spine.2 ++ as) by
    rw [infer]
    exact h _ _
  intro callee
  split
  · rename_i hargs
    refine Always.next (applyTo_always callee _ func.span span) fun t ht => .bind fun _ => .pure ?_
    obtain ⟨i, rfl⟩ := ht
    exact ⟨[_], by simp [List.isEmpty_iff.1 hargs], rfl⟩
  · rename_i hargs
    refine (inferCall_spine func.span span callee args).next fun t ht => .bind fun _ => .pure ?_
    obtain ⟨as, hlen, hspine⟩ := ht
    refine ⟨as, ?_, hspine⟩
    have hpos : 0 < args.length := List.length_pos_iff.2 fun h => hargs (h ▸ rfl)
    omega

end Checker

/-- A name that has a chain of arrows takes arguments as its scheme says. -/
theorem TExpr.takes_of_accords {u : Unifier} {b : TExpr} {x : String} {s : Scheme}
    (hb : ∀ n ∈ b.sites x, u.Accords x s n) {ps : List Ty} {q : Ty} {e : Row}
    (hs : s.ty = .curried ps q e) {i : Info} {args : List TExpr} (hlen : args.length ≤ ps.length)
    {n : TExpr} (hn : n ∈ b.sites x) (hspine : n.spine = (.var i x, args)) :
    ∃ qs q' e', s.Instance (.curried qs q' e') ∧ qs.length = ps.length ∧ i.ty = .curried qs q' e' ∧
      n.ty = .curried (qs.drop args.length) q' e' ∧
      (n.settle u.substitution).Takes (args.map (settle u.substitution))
        (qs.map u.substitution.apply) (u.substitution.apply q') (u.substitution.findRow e') := by
  induction args using List.reverseRecOn generalizing n with
  | nil =>
    obtain rfl := eq_of_spine_nil hspine
    obtain ⟨hinst, heff⟩ := hb _ hn rfl
    obtain ⟨qs, q', e', hqs, hi⟩ := hinst.curried hs
    refine ⟨qs, q', e', hi ▸ hinst, hqs, hi, hi, takes_nil ?_ ?_⟩
    · exact (congrArg u.apply hi).trans (Substitution.apply_curried ..)
    · exact (congrArg u.findRow heff).trans (Substitution.findRow_closed rfl)
  | append_singleton as a ih =>
    obtain ⟨j, f, rfl, hf⟩ := eq_call_of_spine_concat hspine
    rw [List.length_append, List.length_singleton] at hlen
    obtain ⟨qs, q', e', hinst, hqs, hi, hft, htakes⟩ :=
      ih (Nat.le_of_succ_le hlen) (mem_sites_func hn) hf
    have hlt : as.length < qs.length := hqs ▸ hlen
    rw [List.drop_eq_getElem_cons hlt, Ty.curried_cons_eq_fn] at hft
    obtain ⟨hj, heff, hmatch⟩ := hb _ hn _ _ _ hft
    refine ⟨qs, q', e', hinst, hqs, hi, ?_, ?_⟩
    · rw [List.length_append]
      exact hj
    rw [List.map_append]
    refine htakes.call (by simpa using hlt) ?_ ?_ fun hlast => ?_
    · rw [List.length_map, ← List.map_drop, ← Substitution.apply_curried]
      exact congrArg u.apply hj
    · simp only [List.length_map, List.getElem_map, ty_settle]
      exact hmatch
    · have hrest : qs.drop (as.length + 1) ≠ [] := by
        rw [List.length_map, List.length_map] at hlast
        rw [Ne, List.drop_eq_nil_iff]
        omega
      rw [if_neg hrest] at heff
      have hown : u.findRow j.effects = .pure :=
        (congrArg u.findRow heff).trans (Substitution.findRow_closed rfl)
      show ((u.findRow j.effects).union _).union _ = _
      rw [hown, Row.pure_union]

/-! ## Declarations -/

theorem exists_getElem?_of_forall₂ {α β : Type} {R : α → β → Prop} {as : List α} {bs : List β}
    (h : List.Forall₂ R as bs) {i : Nat} {a : α} (ha : as[i]? = some a) :
    ∃ b, bs[i]? = some b ∧ R a b := by
  induction h generalizing i with
  | nil => simp at ha
  | cons hab _ ih =>
    cases i with
    | zero =>
      cases ha
      exact ⟨_, rfl, hab⟩
    | succ i => exact ih ha

/-- Whatever is in scope, a written row has the labels that are written. -/
theorem RowExpr.labels_resolve (row : RowExpr) (scope : TypeScope) (u : Unifier) :
    ((row.resolve.run scope).run u).1.1.labels = SortedSet.ofList (row.labels.map (·.text)) := by
  unfold resolve
  cases row.tail with
  | none => rfl
  | some tail =>
    cases hv : scope.rows.get? tail.text with
    | some v => simp [hv]; rfl
    | none =>
      by_cases hc : scope.closed = true
      · simp [hv, hc]; rfl
      · simp [hv, hc]; rfl

namespace Checker

variable {r : Registries}

theorem bindParams_answers (params : List Param) :
    Always (bindParams r params) fun bs => bs.length = params.length := by
  induction params with
  | nil => exact .pure rfl
  | cons p ps ih =>
    have hrest : ∀ t : Ty, Always (do
        bindMono p.name.text t
        return ⟨p.name.text, p.name.span, t, none⟩ :: (← bindParams r ps))
        fun bs : List Binder => bs.length = (p :: ps).length := fun t =>
      .bind fun _ => ih.next fun bs hbs => .pure (congrArg (· + 1) hbs)
    unfold bindParams
    refine .bind fun _ => ?_
    dsimp only
    split
    · exact .bind hrest
    · exact .bind hrest

/-- Whether a row has the labels that are written for it. -/
def HasWritten (declared : Option RowExpr) (effects : Row) : Prop :=
  ∀ row ∈ declared, ∀ l ∈ row.labels, l.text ∈ effects.labels

theorem exposedEffects_answers (performed : Row) (declared : Declared) (span : Span) :
    Always (exposedEffects performed declared span) (HasWritten (declared.map (·.1))) := by
  unfold exposedEffects
  split
  · exact .pure (by simp [HasWritten])
  · rename_i written function
    have hlabels : Always (resolving written.resolve) (HasWritten (some written)) := by
      rintro c row ⟨⟩ l hl
      show l.text ∈ ((written.resolve.run c.scope).run c.unifier).1.1.labels
      rw [RowExpr.labels_resolve]
      exact SortedSet.mem_ofList.2 (List.mem_map_of_mem hl)
    exact hlabels.next fun row hrow => .bind fun _ => .pure hrow

theorem ty_lambdaChain (span : Span) (body : TExpr) (effects : Row) (bs : List Binder) :
    (lambdaChain span body effects bs).ty = .curried (bs.map (·.ty)) body.ty effects := by
  induction bs with
  | nil => rfl
  | cons b bs ih =>
    cases bs with
    | nil => rfl
    | cons c bs => exact congrArg (Ty.arrow b.ty) ih

/-- Whether a function has a chain of `n` arrows, the last with its effects, and these have the
labels that are written. -/
def Chains (n : Nat) (declared : Option RowExpr) (q : TExpr × Row) : Prop :=
  (∃ ps t, ps.length = n ∧ q.1.ty = .curried ps t q.2) ∧ HasWritten declared q.2

theorem inferLambda_chains {params : List Param} (hparams : params ≠ []) (body : CheckM TExpr)
    (span : Span) (expected : Expected) (declared : Declared) :
    Always (inferLambda r params body span expected declared)
      (Chains params.length (declared.map (·.1))) := by
  unfold inferLambda
  refine .bind fun _ => (bindParams_answers params).next fun bs hbs => .bind fun p => ?_
  refine (exposedEffects_answers p.2 declared _).next fun effects heff => .bind fun _ => .pure ?_
  have hne : bs.isEmpty = false := by
    cases bs with
    | nil => exact absurd (List.length_eq_zero_iff.1 hbs.symm) hparams
    | cons b bs => rfl
  rw [hne]
  exact ⟨⟨_, _, (List.length_map _).trans hbs, ty_lambdaChain ..⟩, heff⟩

theorem inferFunction_chains {d : FnDecl} (hparams : d.params ≠ []) :
    Always (inferFunction r d) (Chains d.params.length d.effects) := by
  have heffects : (d.effects.map fun row => (row, d.name.text)).map (·.1) = d.effects := by
    cases d.effects <;> rfl
  have hlambda : ∀ expected, Always (inferLambda r d.params (infer r d.body) d.span expected
      (d.effects.map fun row => (row, d.name.text))) (Chains d.params.length d.effects) :=
    fun expected => by
      have h := inferLambda_chains (r := r) hparams (infer r d.body) d.span expected
        (d.effects.map fun row => (row, d.name.text))
      rwa [heffects] at h
  have hne : d.params.isEmpty = false := by simpa using hparams
  unfold inferFunction
  simp only [hne, Bool.false_eq_true, if_false]
  split
  · exact .bind fun _ => .bind fun _ => hlambda _
  · exact .bind fun _ => hlambda _

/-- Whether a checked function with parameters has a chain of arrows over them. -/
def Chained (k : Checked) : Prop :=
  ∀ d, k.decl = .fn d → d.params ≠ [] → Chains d.params.length d.effects (k.body, k.effects)

theorem inferDecls_chained (ps : List (ValueDecl × Ty)) :
    Always (inferDecls r ps) fun ks => ∀ k ∈ ks, Chained k := by
  induction ps with
  | nil => exact .pure (List.forall_mem_nil _)
  | cons p ps ih =>
    obtain ⟨d, placeholder⟩ := p
    have hrest : ∀ q : TExpr × Row, Chained ⟨d, q.1, q.2⟩ → Always (do
        Unifier.unify placeholder q.1.ty
          ((Provenance.of d.span .recursiveUse).relatedTo d.name.span)
        return ⟨d, q.1, q.2⟩ :: (← inferDecls r ps) : CheckM (List Checked))
        fun ks => ∀ k ∈ ks, Chained k := fun q hq =>
      .bind fun _ => ih.next fun ks hks => .pure (List.forall_mem_cons.2 ⟨hq, hks⟩)
    unfold inferDecls
    refine .bind fun _ => ?_
    cases d with
    | fn f =>
      by_cases hparams : f.params = []
      · refine .bind fun q => hrest q fun d hd hne => absurd hparams ?_
        cases hd
        exact hne
      · refine (inferFunction_chains hparams).next fun q hq => hrest q fun d hd _ => ?_
        cases hd
        exact hq
    | active a =>
      refine .bind fun q => hrest q fun d hd _ => ?_
      cases hd

theorem inferGroup_chained (ds : List ValueDecl) :
    Always (inferGroup r ds) fun ks => ∀ k ∈ ks, Chained k := by
  unfold inferGroup
  refine .bind fun _ => .bind fun ps => ?_
  exact (inferDecls_chained ps).next fun ks hks => .bind fun _ => .bind fun _ => .pure hks

end Checker

/-- Whether a function and its scheme have chains of arrows over `n` parameters, in the function the
last with the effects that it performs and all labels that are written for it. -/
structure TFunction.Curries (f : TFunction) (s : Scheme) (n : Nat) (declared : Option RowExpr) :
    Prop where
  type : ∃ ps t, ps.length = n ∧ f.ty = .curried ps t f.effects
  scheme : ∃ ps t e, ps.length = n ∧ s.ty = .curried ps t e
  declared : Checker.HasWritten declared f.effects

/-- The scheme of a chain of arrows has one, too. -/
theorem generalize_curried (u : Unifier) (env : TypeEnv) {t : Ty} {ps : List Ty} {q : Ty} {e : Row}
    (ht : t = .curried ps q e) : ∃ ps' q' e', ps'.length = ps.length ∧
      (generalize t env true u).1.canonical.ty = .curried ps' q' e' := by
  obtain ⟨u', hty⟩ : ∃ u' : Unifier, (generalize t env true u).1.ty = u'.apply t :=
    ⟨_, congrArg (fun p => p.1.ty) (Unifier.generalize_run u t env)⟩
  have hcurried := hty.trans ((congrArg u'.apply ht).trans (Substitution.apply_curried _ ps q e))
  obtain ⟨ps', q', e', hlen, hps⟩ := (Unifier.substitute_instance _ _ _).curried hcurried
  exact ⟨ps', q', e', hlen.trans (List.length_map _), hps⟩

/-- The declaration at some place of an accepted group is a function of the same name whose type and
scheme are chains of arrows over its parameters. -/
theorem checkGroup_curries {r : Registries} (hr : r.RowsClosed) {env : TypeEnv} (henv : env.Below 0)
    (tracing : Bool) {decls : List Decl} (h : (checkGroup r env tracing decls).diagnostics = [])
    {i : Nat} {d : FnDecl} (hd : (decls.filterMap Decl.value?)[i]? = some (.fn d))
    (hparams : d.params ≠ []) :
    ∃ f s, (checkGroup r env tracing decls).decls[i]? = some (.fn f) ∧ f.ShowsEffects (.fn d) ∧
      (checkGroup r env tracing decls).schemes[i]? = some (d.name.text, s) ∧
      f.Curries s d.params.length d.effects := by
  have hks := Checker.inferGroup_answers (r := r) (decls.filterMap Decl.value?) (.start env tracing)
  have hd' := hd
  rw [← hks, List.getElem?_map, Option.map_eq_some_iff] at hd'
  obtain ⟨k, hk, hkd⟩ := hd'
  obtain ⟨⟨ps, t, hlen, hty⟩, hwritten⟩ := Checker.inferGroup_chained _ _ k
    (List.mem_of_getElem? hk) d hkd hparams
  obtain ⟨hvalid, hbelow, hschemes, v, hv, hdecls⟩ := checkGroup_settles hr henv tracing h
  obtain ⟨u, e, he, hname, hs, -, -⟩ :=
    (Checker.closeSchemes_given hvalid.unifier hbelow).getElem? hk
  rw [← hschemes] at he
  have hshows := Checker.inferGroup_showsEffects hr (Checker.start_valid henv tracing) _ h hv
  generalize v.substitution = σ at hdecls hshows
  have hb : (checkGroup r env tracing decls).decls[i]? = some (k.settle r σ) := by
    rw [hdecls, List.getElem?_map, hk]
    rfl
  obtain ⟨_, hk', f, hf, hshows⟩ := exists_getElem?_of_forall₂ hshows hd
  obtain rfl := Option.some.inj (hk.symm.trans hk')
  obtain rfl := Option.some.inj ((Checker.Checked.function?_settle ..).symm.trans hf)
  have hfn : k.settle r σ = .fn ⟨k.decl.name.text, k.decl.span, (k.body.settle σ).ty,
      σ.findRow k.effects, k.body.settle σ⟩ := by
    unfold Checker.Checked.settle
    rw [hkd]
  have hcurried :
      (k.body.settle σ).ty = .curried (ps.map σ.apply) (σ.apply t) (σ.findRow k.effects) :=
    (TExpr.ty_settle _).trans ((congrArg σ.apply hty).trans (σ.apply_curried ..))
  obtain ⟨ps', t', e', hlen', hscheme⟩ := generalize_curried u _ hty
  refine ⟨_, e.2, hb.trans (congrArg some hfn), hshows, he.trans ?_, ⟨?_, ?_, ?_⟩⟩
  · exact congrArg (fun n => some (n, e.2)) (hname.trans (congrArg (·.name.text) hkd))
  · exact ⟨_, _, (List.length_map _).trans hlen, hcurried⟩
  · exact ⟨ps', t', e', hlen'.trans hlen, (congrArg Scheme.ty hs).trans hscheme⟩
  · exact fun row hrow l hl => Substitution.mem_labels_findRow (hwritten row hrow l hl)

/-- Whether, wherever a name from around is in scope, calls of it with at most `n` arguments take
them from an instance of its scheme. -/
def TExpr.TakesArguments (x : String) (s : Scheme) (n : Nat) (e : TExpr) : Prop :=
  ∀ m ∈ e.sites x, ∀ i args, m.spine = (.var i x, args) → args.length ≤ n →
    ∃ ps q row, ps.length = n ∧ s.Instance (.curried ps q row) ∧ i.ty = .curried ps q row ∧
      m.Takes args ps q row

theorem TExpr.Served.takesArguments {x : String} {s : Scheme} {e : TExpr} (h : e.Served x s)
    {ps : List Ty} {q : Ty} {row : Row} (hs : s.ty = .curried ps q row) :
    e.TakesArguments x s ps.length := by
  obtain ⟨u, b, rfl, hb⟩ := h
  intro m hm i args hspine hlen
  rw [sites_settle] at hm
  obtain ⟨n, hn, rfl⟩ := List.mem_map.1 hm
  rw [spine_settle] at hspine
  obtain ⟨hhead, rfl⟩ := Prod.mk.inj hspine
  rw [List.length_map] at hlen
  obtain ⟨j, hj, rfl⟩ : ∃ j, n.spine.1 = .var j x ∧ i = j.settle u.substitution [] := by
    cases hvar : n.spine.1 with
    | var j y =>
      rw [hvar] at hhead
      cases hhead
      exact ⟨j, rfl, rfl⟩
    | _ => simp [hvar, settle] at hhead
  obtain ⟨qs, q', e', hinst, hqs, hjt, -, htakes⟩ :=
    takes_of_accords hb hs hlen hn (Prod.ext hj rfl)
  refine ⟨_, _, _, (List.length_map _).trans hqs, ?_, ?_, htakes⟩
  · rw [← Substitution.apply_curried]
    exact Unifier.apply_instance hinst
  · exact (congrArg u.substitution.apply hjt).trans (Substitution.apply_curried ..)

/-- A function with parameters in an accepted group has a chain of arrows over them, without effects
but for the last. Wherever it is called in a later group that is accepted, it may be handed over any
number of its arguments: the call has the instance of its scheme without as many parameters, these
match the arguments, and before the last argument nothing is performed but what the arguments
perform. -/
theorem checkGroup_partial {r : Registries} (hr : r.RowsClosed) {env : TypeEnv} (henv : env.Below 0)
    (tracing : Bool) {decls : List Decl} (h : (checkGroup r env tracing decls).diagnostics = [])
    {i : Nat} {d : FnDecl} (hd : (decls.filterMap Decl.value?)[i]? = some (.fn d))
    (hparams : d.params ≠ []) :
    ∃ f s, (checkGroup r env tracing decls).decls[i]? = some (.fn f) ∧ f.ShowsEffects (.fn d) ∧
      (checkGroup r env tracing decls).schemes[i]? = some (d.name.text, s) ∧
      f.Curries s d.params.length d.effects ∧
      ∀ (r' : Registries) (env' : TypeEnv) (tracing' : Bool) (later : List Decl), r'.RowsClosed →
        env'.Below 0 → env'.lookup d.name.text = some s → d.name.text ∉ valueNames later →
        (checkGroup r' env' tracing' later).diagnostics = [] →
        ∀ t ∈ (checkGroup r' env' tracing' later).decls, ∀ g, t.function? = some g →
          g.body.TakesArguments d.name.text s d.params.length := by
  obtain ⟨f, s, hf, hshows, hs, hcurries⟩ := checkGroup_curries hr henv tracing h hd hparams
  obtain ⟨ps, q, row, hlen, hscheme⟩ := hcurries.scheme
  refine ⟨f, s, hf, hshows, hs, hcurries, ?_⟩
  intro r' env' tracing' later hr' henv' hx hn h' t ht g hg
  exact hlen ▸ (checkGroup_serves hr' henv' tracing' h' hx hn t ht g hg).takesArguments hscheme

/-- `fn tag(n: s32, text) { print(text) }` -/
def tag : Decl :=
  let name := Name.mk .synthetic
  .fn ⟨.synthetic, name "tag", [⟨name "n", some (.named .synthetic "s32" [])⟩, ⟨name "text", none⟩],
    none, none, .call .synthetic (.var .synthetic "print") [.var .synthetic "text"]⟩

/-- `fn tagger() { tag(1) }` -/
def tagger : Decl :=
  let name := Name.mk .synthetic
  .fn ⟨.synthetic, name "tagger", [], none, none,
    .call .synthetic (.var .synthetic "tag") [.lit .synthetic (.int 1)]⟩

/-- The type of `tag`. -/
def tagType : Ty := .curried [.s32, .string] .unit (.closed ["io"])

/-- An environment with the scheme of `tag`. -/
def tagging : TypeEnv := .ofGlobals (.ofList [("tag", .mono tagType)])

theorem tagging_below : tagging.Below 0 where
  globals name s hs := by
    have hmem := SortedMap.mem_of_get?_ofList hs
    simp only [List.mem_singleton, Prod.mk.injEq] at hmem
    obtain ⟨-, rfl⟩ := hmem
    exact Scheme.below_mono_iff.2 (Ty.rows_eq_nil_iff.1 rfl)
  scopes scope hscope := by cases hscope

theorem tag_partial :
    (∃ f, (checkGroup .empty printing false [tag]).decls[0]? = some (.fn f) ∧
      f.Curries (.mono tagType) 2 none) ∧
    (∀ t ∈ (checkGroup .empty tagging false [tagger]).decls, ∀ g, t.function? = some g →
      g.body.TakesArguments "tag" (.mono tagType) 2) ∧
    (checkGroup .empty tagging false [tagger]).schemes =
      [("tagger", .mono (.fn .string .unit (.closed ["io"])))] := by
  have haccepted : (checkGroup .empty printing false [tag]).diagnostics = [] :=
    List.isEmpty_iff.1 (by decide +kernel)
  have hcalled : (checkGroup .empty tagging false [tagger]).diagnostics = [] :=
    List.isEmpty_iff.1 (by decide +kernel)
  have hclosed := Registries.collected_empty.rowsClosed
  obtain ⟨f, s, hf, -, hs, hcurries, hcalls⟩ :=
    checkGroup_partial (i := 0) hclosed printing_below false haccepted rfl (List.cons_ne_nil _ _)
  have hscheme : (checkGroup .empty printing false [tag]).schemes[0]? =
      some ("tag", .mono tagType) := by decide +kernel
  obtain rfl : s = .mono tagType := (Prod.mk.inj (Option.some.inj (hs.symm.trans hscheme))).2
  refine ⟨⟨f, hf, hcurries⟩, ?_, by decide +kernel⟩
  exact hcalls .empty tagging false [tagger] hclosed tagging_below (by decide +kernel)
    (by decide +kernel) hcalled

/-- `fn same(u: Unit) { u }` -/
def same : Decl :=
  let name := Name.mk .synthetic
  .fn ⟨.synthetic, name "same", [⟨name "u", some (.named .synthetic "Unit" [])⟩], none, none,
    .var .synthetic "u"⟩

/-- `fn usual() { same() }` -/
def usual : Decl :=
  .fn ⟨.synthetic, .mk .synthetic "usual", [], none, none,
    .call .synthetic (.var .synthetic "same") []⟩

/-- `fn broken() { missing }` -/
def broken : Decl :=
  .fn ⟨.synthetic, .mk .synthetic "broken", [], none, none, .var .synthetic "missing"⟩

/-- `fn lenient() { tag(broken) }` -/
def lenient : Decl :=
  .fn ⟨.synthetic, .mk .synthetic "lenient", [], none, none,
    .call .synthetic (.var .synthetic "tag") [.var .synthetic "broken"]⟩

/-- Not all calls have the parameters of a scheme after as many as there are arguments, with
arguments of just the types before. A call without arguments takes one parameter, as it hands over
the unit value; and what failed to be checked may be handed over as anything. -/
theorem call_exceptions :
    let nothing := TypeEnv.ofGlobals ∅
    let globals := TypeEnv.ofGlobals (.ofList
      [("broken", Scheme.error), ("same", .mono (.arrow .unit .unit)), ("tag", .mono tagType)])
    let bodies := fun d : Decl =>
      (checkGroup .empty globals false [d]).decls.filterMap fun t => t.function?.map (·.body)
    (checkGroup .empty nothing false [same]).schemes = [("same", .mono (.arrow .unit .unit))] ∧
    (checkGroup .empty nothing false [broken]).schemes = [("broken", .error)] ∧
    (checkGroup .empty globals false [usual]).hasErrors = false ∧
    (bodies usual).map TExpr.ty = [.unit] ∧
    (checkGroup .empty globals false [lenient]).hasErrors = false ∧
    (bodies lenient).map (fun b => b.spine.2.map TExpr.ty) = [[.error]] := by decide +kernel

end RowCheck
