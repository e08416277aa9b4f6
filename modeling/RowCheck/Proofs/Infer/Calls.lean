import RowCheck.Proofs.Infer.Group
import RowCheck.Proofs.Infer.Scopes
import RowCheck.Proofs.Typing.Group
import RowCheck.Proofs.Unify.Outcome

/-!
What calls and mentions of a name take from types. Whatever is checked without a fault, a call of
what has the type of a function has its result and performs its row, and the argument has the type
of the parameter up to parts that were at fault before; and where a name from around is in scope,
each mention of it has an instance of its scheme.
-/
namespace RowCheck

namespace Unifier

variable {u u' : Unifier} {x : String} {s : Scheme}

/-- Whether a node takes its type from what it applies, or from the scheme of the name it mentions.
-/
def Accords (u : Unifier) (x : String) (s : Scheme) : TExpr → Prop
  | .call i f a => ∀ p q e, f.ty = .fn p q e →
      i.ty = q ∧ i.effects = e ∧ (u.apply p).Matches (u.apply a.ty)
  | .var i y => y = x → s.Instance i.ty ∧ i.effects = .pure
  | _ => True

theorem Accords.grows {n : TExpr} (h : u.Accords x s n) (hu : u.Valid) (hg : u.Grows u') :
    u'.Accords x s n := by
  cases n with
  | call i f a =>
    intro p q e hf
    obtain ⟨hq, he, hp⟩ := h p q e hf
    exact ⟨hq, he, hg.matches hu hp⟩
  | var i y => exact h
  | _ => trivial

end Unifier

namespace Checker

open Unifier

variable {r : Registries} {c c' : Checker} {x : String} {s : Scheme} {ns ns' : List TExpr}

/-! ## States -/

/-- A later state in the same environment. -/
structure Remains (c c' : Checker) : Prop extends c.Advances c' where
  env : c'.env = c.env

theorem Valid.remains (h : c.Valid) : c.Remains c := ⟨h.advances, rfl⟩

theorem Remains.trans {c'' : Checker} (h : c.Remains c') (h' : c'.Remains c'') : c.Remains c'' :=
  ⟨h.toAdvances.trans h'.toAdvances, h'.env.trans h.env⟩

theorem Advances.errors_nil (h : c.Advances c') (he : c'.unifier.errors = []) :
    c.unifier.errors = [] := List.prefix_nil.1 (he ▸ h.unifier.errors)

theorem Means.remains {o : Option Scheme} (h : c.Means x o) (hc : c.Remains c') : c'.Means x o :=
  fun he => by
    rw [hc.env]
    exact h (hc.errors_nil he)

section

variable {α β : Type} {m : CheckM α} {f : α → CheckM β} {Q Q' : α → Checker → Prop}
  {R : β → Checker → Prop}

theorem Does.and (h : c.Does m Q) (h' : c.Does m Q') : c.Does m (fun a c' => Q a c' ∧ Q' a c') :=
  ⟨h.1, h.2, h'.2⟩

/-- What leaves the environment as it is, and what is done after it. -/
theorem Does.next (h : c.Does m Q) (hq : ∀ env : TypeEnv, Quiet env.globals env m)
    (hf : ∀ a c', c.Remains c' → Q a c' → c'.Does (f a) R) : c.Does (m >>= f) R := by
  obtain ⟨hadv, hr⟩ := hf _ _ ⟨h.1, (hq c.env c rfl).2⟩ h.2
  exact ⟨h.1.trans hadv, hr⟩

/-- What binds other names than some name, and what is done after it. -/
theorem Does.adds {names : α → List String} (h : c.Does m Q) (hm : Adds [] m names)
    (hf : ∀ a c', c.Advances c' → Q a c' →
      (∀ {x o}, x ∉ names a → c.Means x o → c'.Means x o) → c'.Does (f a) R) :
    c.Does (m >>= f) R := by
  obtain ⟨hadv, hr⟩ := hf _ _ h.1 h.2 fun hx ho he =>
    (hm.lookup c he _ hx).2.trans (ho (h.1.errors_nil he))
  exact ⟨h.1.trans hadv, hr⟩

end

/-- In a new scope all names stand for what they did. -/
theorem pushScope_means (hc : c.Valid) : c.Does (modifyEnv .pushScope) (fun _ c' =>
    ∀ {x o}, c.Means x o → c'.Means x o) :=
  ⟨(pushScope_does hc).1, fun hx he => (TypeEnv.lookup_pushScope ..).trans (hx he)⟩

/-- Where another name is bound, a name stands for what it did. -/
theorem bindScheme_means (hc : c.Valid) (name : String) {s : Scheme}
    (hs : s.Below c.unifier.rowCount) : c.Does (modifyEnv (fun env => env.bind name s)) (fun _ c' =>
      ∀ {x o}, name ≠ x → c.Means x o → c'.Means x o) :=
  ⟨(modifyEnv_does hc (hc.env.bind name hs)).1, fun hne hx he =>
    (TypeEnv.lookup_bind ..).trans ((if_neg hne).trans (hx he))⟩

/-- Whether some nodes take their types as they should, as long as nothing is at fault. -/
def Serving (c : Checker) (x : String) (s : Scheme) (ns : List TExpr) : Prop :=
  c.unifier.errors = [] → ∀ n ∈ ns, c.unifier.Accords x s n

theorem Serving.advances (h : c.Serving x s ns) (hc : c.Valid) (h' : c.Advances c') :
    c'.Serving x s ns := fun he n hn =>
  (h (h'.errors_nil he) n hn).grows hc.unifier h'.unifier.toGrows

theorem serving_nil : c.Serving x s [] := fun _ => List.forall_mem_nil _

theorem Serving.cons {n : TExpr} (hn : c.unifier.errors = [] → c.unifier.Accords x s n)
    (h : c.Serving x s ns) : c.Serving x s (n :: ns) := fun he =>
  List.forall_mem_cons.2 ⟨hn he, h he⟩

theorem Serving.append (h : c.Serving x s ns) (h' : c.Serving x s ns') :
    c.Serving x s (ns ++ ns') := fun he => List.forall_mem_append.2 ⟨h he, h' he⟩

/-! ## Rules -/

/-- What is known to be a function is taken apart as it is. -/
theorem applyTo_fn {callee : TExpr} {p q : Ty} {e : Row} (h : callee.ty = .fn p q e) (arg : TExpr)
    (funcSpan span : Span) : applyTo callee arg funcSpan span = (do
      Unifier.unify p arg.ty ((Provenance.of arg.span .functionArg).relatedTo funcSpan)
      Unifier.includeRow e (← get).context (.of span .performedEffect)
      return .call (.of span q e) callee arg) := by
  rw [applyTo, h]
  rfl

theorem unify_matching (hc : c.Valid) {a b : Ty} (ha : a.Below c.unifier.rowCount)
    (hb : b.Below c.unifier.rowCount) (why : Provenance) :
    c.Does (liftM (Unifier.unify a b why)) (fun _ c' => c'.unifier.errors = [] →
      (c'.unifier.apply a).Matches (c'.unifier.apply b)) :=
  ⟨(unify_does hc ha hb why).1, unify_matches hc.unifier ha hb why⟩

theorem applyTo_serves (hc : c.Valid) {callee arg : TExpr} (hf : c.Keeps callee) (ha : c.Keeps arg)
    (funcSpan span : Span) : c.Does (applyTo callee arg funcSpan span) (fun t c' =>
      ∃ i, t = .call i callee arg ∧ (c'.unifier.errors = [] → c'.unifier.Accords x s t)) := by
  by_cases hfn : ∃ p q e, callee.ty = .fn p q e
  · obtain ⟨p, q, e, hfn⟩ := hfn
    obtain ⟨hp, -, he⟩ := Ty.below_fn.1 (hfn ▸ hf.ty)
    rw [applyTo_fn hfn]
    refine (unify_matching hc hp ha.ty _).bind fun _ c₁ h₁ hmatch => .get_bind ?_
    refine (includeRow_does h₁.valid (he.mono h₁.rows) _).bind fun _ c₂ h₂ _ => .pure h₂.valid ?_
    refine ⟨_, rfl, fun herr p' q' e' hfn' => ?_⟩
    obtain ⟨rfl, rfl, rfl⟩ := Ty.fn.inj (hfn.symm.trans hfn')
    exact ⟨rfl, rfl, h₂.unifier.matches h₁.valid.unifier (hmatch (h₂.errors_nil herr))⟩
  · obtain ⟨i, hi⟩ := applyTo_always callee arg funcSpan span c
    refine ⟨(applyTo_does hc hf ha funcSpan span).1, i, hi, fun _ => hi ▸ fun p q e h => ?_⟩
    exact absurd ⟨p, q, e, h⟩ hfn

/-- What is built of some parts, as a variant or, where that fails, as a tuple. -/
def Assembles (args : List TExpr) (e : TExpr) : Prop :=
  (∃ i, e = .tuple i args) ∨ ∃ i t v, e = .construct i t v args

theorem construct_assembles (name : Name) (args : List TExpr) (span : Span) :
    Always (construct r name args span) (Assembles args) := by
  have hfailed : Assembles args (.tuple (.quiet span .error) args) := .inl ⟨_, rfl⟩
  have hbuilt : ∀ i t v, Assembles args (.construct i t v args) := fun _ _ _ => .inr ⟨_, _, _, rfl⟩
  unfold construct
  dsimp only
  split
  · refine .get_bind fun _ => ?_
    split
    · split
      · exact .pure (hbuilt _ _ _)
      · exact .bind fun _ => .pure hfailed
    · exact .bind fun _ => .pure hfailed
  · split
    · exact .bind fun _ => .pure hfailed
    · split
      · exact .bind fun _ => .pure hfailed
      · exact .bind fun _ => .bind fun _ => .pure (hbuilt _ _ _)

theorem Assembles.serving {args : List TExpr} {e : TExpr} (h : Assembles args e)
    (ha : c.Serving x s (TExpr.sitesList x args)) : c.Serving x s (e.sites x) := by
  rcases h with ⟨i, rfl⟩ | ⟨i, t, v, rfl⟩
  · exact .cons (fun _ => trivial) ha
  · exact .cons (fun _ => trivial) ha

theorem inferVar_serves (hr : r.RowsClosed) (hc : c.Valid) (e : Expr) (name : String) :
    c.Does (inferVar r e name) (fun t c' => c.Means x (some s) → c'.Serving x s (t.sites x)) := by
  unfold inferVar
  refine .get_bind ?_
  split
  · rename_i s' hs'
    have hinstance : c.unifier.Does (s'.instantiate e.span) (fun t _ => s'.Instance t) :=
      ⟨(instantiate_does hc.unifier (hc.env.lookup hs') _).1, instantiate_instance ..⟩
    refine .lift_bind hc hinstance fun t c₁ h₁ ht => ?_
    refine (record_does h₁.valid _ _ _ _).bind fun _ c₂ h₂ _ => .pure h₂.valid fun hx => ?_
    refine .cons (fun herr hname => ⟨?_, rfl⟩) serving_nil
    subst hname
    obtain rfl := Option.some.inj (hs'.symm.trans (hx ((h₁.trans h₂).errors_nil herr)))
    exact ht
  · split
    · refine ⟨(construct_does hr hc _ (by simp) _).1, fun _ => ?_⟩
      exact (construct_assembles _ _ _ c).serving serving_nil
    · exact (fail_does hc _ _ _).bind fun _ _ h _ => .pure h.valid fun _ =>
        .cons (fun _ => trivial) serving_nil

/-! ## Functions -/

/-- Whether checking an expression gives all sites of a name in scope their types as it should. -/
def Serves (r : Registries) (x : String) (s : Scheme) (e : Expr) : Prop :=
  ∀ c : Checker, c.Valid → c.Does (infer r e) (fun t c' =>
    c'.Keeps t ∧ (c.Means x (some s) → c'.Serving x s (t.sites x)))

/-- That the parts of an expression are kept is known, and need not be shown again. -/
theorem serves_of (hr : r.RowsClosed) {e : Expr}
    (h : ∀ c : Checker, c.Valid → c.Does (infer r e) (fun t c' =>
      c.Means x (some s) → c'.Serving x s (t.sites x))) : Serves r x s e :=
  fun c hc => (infer_does hr e c hc).and (h c hc)

/-- An environment agrees with itself on whatever is read. -/
theorem Reading.self (env : TypeEnv) (names : List String) : Reading env.globals env [] names :=
  ⟨List.forall_mem_nil _, fun _ _ => rfl⟩

theorem inferring_quiet (r : Registries) (e : Expr) (env : TypeEnv) :
    Quiet env.globals env (infer r e) := infer_quiet e [] env (.self env _)

theorem inContext_serves {body : Expr} (hbody : Serves r x s body) (hc : c.Valid)
    {expected : Expected} (he : ∀ p ∈ expected, p.1.Below c.unifier.rowCount) :
    c.Does (inContext (infer r body) expected) (fun q c' =>
      c.Means x (some s) → c'.Serving x s (q.1.sites x)) := by
  unfold inContext
  refine .get_bind ((Does.lift hc (freshRow_does hc.unifier)).next (fun _ => lift_quiet _)
    fun row c₁ h₁ hrow => ?_)
  have hmeans : c.Means x (some s) → Means { c₁ with context := row } x (some s) := fun hx =>
    show c₁.Means x (some s) from hx.remains h₁
  cases expected with
  | none =>
    refine (Does.within h₁.valid hrow h₁.context fun h => hbody _ h).imp fun q c' _ hq hx => ?_
    exact hq.2.2 (hmeans hx)
  | some p =>
    have hrun : ∀ {c₂ : Checker}, c₂.Valid → c₁.unifier.rowCount ≤ c₂.unifier.rowCount →
        c₂.Does (do
          let e ← infer r body
          Unifier.unify p.1 e.ty p.2
          return e) (fun t c' => c₂.Means x (some s) → c'.Serving x s (t.sites x)) := by
      intro c₂ hc₂ hle
      refine (hbody c₂ hc₂).bind fun t c₃ h₃ ⟨hk, hserve⟩ => ?_
      have hp : p.1.Below c₃.unifier.rowCount :=
        (he p rfl).mono (h₁.rows.trans (hle.trans h₃.rows))
      refine (unify_does h₃.valid hp hk.ty _).bind fun _ c₄ h₄ _ => .pure h₄.valid fun hx => ?_
      exact (hserve hx).advances h₃.valid h₄
    refine (Does.within h₁.valid hrow h₁.context fun h => hrun h le_rfl).imp fun q c' _ hq hx => ?_
    exact hq.2 (hmeans hx)

/-- The functions of a chain are no calls, and the body is within their parameters. -/
theorem serving_lambdaChain (span : Span) {body : TExpr} (effects : Row) {bs : List Binder}
    (h : x ∉ bs.map (·.name) → c.Serving x s (body.sites x)) :
    c.Serving x s ((lambdaChain span body effects bs).sites x) := by
  intro he n hn
  rcases mem_sites_lambdaChain hn with ⟨i, b, e, rfl⟩ | ⟨hx, hn⟩
  · trivial
  · exact h hx he n hn

theorem inferLambda_serves (hr : r.RowsClosed) {body : Expr} (hbody : Serves r x s body)
    (hc : c.Valid) (params : List Param) (span : Span) {expected : Expected}
    (he : ∀ p ∈ expected, p.1.Below c.unifier.rowCount) (declared : Declared) :
    c.Does (inferLambda r params (infer r body) span expected declared) (fun q c' =>
      c.Means x (some s) → c'.Serving x s (q.1.sites x)) := by
  unfold inferLambda
  refine (pushScope_means hc).bind fun _ c₁ h₁ hpush => ?_
  refine (bindParams_does h₁.valid params).adds (bindParams_adds params) fun bs c₂ h₂ _ hadds => ?_
  have he₂ : ∀ p ∈ expected, p.1.Below c₂.unifier.rowCount := fun p hp =>
    (he p hp).mono (h₁.trans h₂).rows
  refine ((inContext_does h₂.valid (infer_does hr body) he₂).and
    (inContext_serves hbody h₂.valid he₂)).bind fun q c₃ h₃ ⟨hq, hserve⟩ => ?_
  refine (exposedEffects_does h₃.valid hq.1 declared _).bind fun effects c₄ h₄ _ => ?_
  refine (popScope_does h₄.valid).bind fun _ c₅ h₅ _ => .pure h₅.valid fun hx => ?_
  refine serving_lambdaChain span effects fun hn => ?_
  have hnames : x ∉ bs.map (·.name) := by
    cases bs with
    | nil => exact List.not_mem_nil
    | cons => exact hn
  exact (hserve (hadds hnames (hpush hx))).advances h₃.valid (h₄.trans h₅)

/-! ## Arms -/

/-- Whether checking an arm gives all sites of a name in scope their types as it should. -/
def ServesArm (r : Registries) (x : String) (s : Scheme) (a : Arm) : Prop :=
  ∀ (t : Ty) (first : Option TExpr) (own : Row) (c : Checker), c.Valid →
    t.Below c.unifier.rowCount → (∀ e ∈ first, c.Keeps e) → c.Performs own →
    c.Does (inferArm r t first own a) (fun q c' =>
      c.Means x (some s) → c'.Serving x s (TExpr.sitesArm x q.1))

/-- An arm begins with its pattern, in a scope of its own. -/
theorem armPattern_means (hr : r.RowsClosed) (hc : c.Valid) (pattern : Pattern) {t : Ty} {own : Row}
    (ht : t.Below c.unifier.rowCount) (ho : c.Performs own) {β : Type}
    {m : TPattern × Row → CheckM β} {Q : β → Checker → Prop} (hm : ∀ q c', c.Advances c' →
      (∀ {x o}, x ∉ q.1.names → c.Means x o → c'.Means x o) → c'.Does (m q) Q) :
    c.Does (do
      modifyEnv .pushScope
      let q ← inferPattern r pattern t own
      m q) Q := by
  refine (pushScope_means hc).bind fun _ c₁ h₁ hpush => ?_
  refine (inferPattern_does hr pattern t own c₁ h₁.valid (ht.mono h₁.rows) (ho.advances h₁)).adds
    (inferPattern_adds pattern t own []) fun q c₂ h₂ _ hadds => ?_
  exact hm q c₂ (h₁.trans h₂) fun hx ho => hadds hx (hpush ho)

/-- An arm ends with its body. -/
theorem armBody_serves {body : Expr} (hbody : Serves r x s body) (hc : c.Valid)
    {first : Option TExpr} (hf : ∀ e ∈ first, c.Keeps e) {β : Type} {f : TExpr → β}
    {Q : β → Checker → Prop} (hQ : ∀ b c', c.Advances c' →
      (c.Means x (some s) → c'.Serving x s (b.sites x)) → Q (f b) c') :
    c.Does (do
      let b ← infer r body
      modifyEnv .popScope
      unifyArm first b
      return f b) Q := by
  refine (hbody c hc).bind fun b c₁ h₁ ⟨hk, hserve⟩ => ?_
  refine (popScope_does h₁.valid).bind fun _ c₂ h₂ _ => ?_
  have hf₂ : ∀ e ∈ first, c₂.Keeps e := fun e he => (hf e he).advances (h₁.trans h₂)
  refine (unifyArm_does h₂.valid hf₂ (hk.advances h₂)).bind fun _ c₃ h₃ _ => .pure h₃.valid
    (hQ b c₃ (h₁.trans (h₂.trans h₃)) fun hx => ?_)
  exact (hserve hx).advances h₁.valid (h₂.trans h₃)

theorem serving_arm {p : TPattern} {b : TExpr} (h : x ∉ p.names → c.Serving x s (b.sites x)) :
    c.Serving x s (TExpr.sitesArm x (.mk p none b)) := by
  rw [TExpr.sitesArm]
  split
  · exact serving_nil
  · exact h ‹_›

theorem serving_guarded {p : TPattern} {g b : TExpr}
    (h : x ∉ p.names → c.Serving x s (g.sites x ++ b.sites x)) :
    c.Serving x s (TExpr.sitesArm x (.mk p (some g) b)) := by
  rw [TExpr.sitesArm]
  split
  · exact serving_nil
  · exact h ‹_›

theorem servesArm_mk (hr : r.RowsClosed) (pattern : Pattern) {guard : Option Expr} {body : Expr}
    (hg : ∀ g ∈ guard, Serves r x s g) (hb : Serves r x s body) :
    ServesArm r x s (.mk pattern guard body) := by
  intro t first own c hc ht hf ho
  cases guard with
  | none =>
    unfold inferArm
    refine armPattern_means hr hc pattern ht ho fun q c₁ h₁ hmeans => ?_
    refine armBody_serves hb h₁.valid (fun e he => (hf e he).advances h₁)
      fun b c₂ h₂ hserve hx => ?_
    exact serving_arm fun hn => hserve (hmeans hn hx)
  | some guard =>
    unfold inferArm
    refine armPattern_means hr hc pattern ht ho fun q c₁ h₁ hmeans => ?_
    refine (hg guard rfl c₁ h₁.valid).next (inferring_quiet r guard) fun g c₂ h₂ ⟨hk, hguard⟩ => ?_
    refine (requireBool_does h₂.valid hk.ty).next (fun _ => lift_quiet _) fun _ c₃ h₃ _ => ?_
    have h₁₃ := h₂.trans h₃
    refine armBody_serves hb h₃.valid (fun e he => (hf e he).advances (h₁.trans h₁₃.toAdvances))
      fun b c₄ h₄ hserve hx => serving_guarded fun hn => ?_
    have hx₁ := hmeans hn hx
    exact ((hguard hx₁).advances h₂.valid (h₃.toAdvances.trans h₄)).append
      (hserve (hx₁.remains h₁₃))

theorem inferringArm_quiet (r : Registries) (t : Ty) (a : Arm) (first : Option TExpr) (own : Row)
    (env : TypeEnv) : Quiet env.globals env (inferArm r t first own a) :=
  inferArm_quiet t a first own [] env (.self env _)

theorem inferArms_serves (hr : r.RowsClosed) {as : List Arm} (h : ∀ a ∈ as, ServesArm r x s a)
    {t : Ty} {first : Option TExpr} {own : Row} (hc : c.Valid) (ht : t.Below c.unifier.rowCount)
    (hf : ∀ e ∈ first, c.Keeps e) (ho : c.Performs own) :
    c.Does (inferArms r t first own as) (fun q c' =>
      c.Means x (some s) → c'.Serving x s (TExpr.sitesArms x q.1)) := by
  induction as generalizing c first own with
  | nil =>
    unfold inferArms
    exact .pure hc fun _ => serving_nil
  | cons a as ih =>
    simp only [List.mem_cons, forall_eq_or_imp] at h
    unfold inferArms
    refine ((inferArm_does hr t a first own c hc ht hf ho).and (h.1 t first own c hc ht hf ho)).next
      (inferringArm_quiet r t a first own) fun q c₁ h₁ hq => ?_
    obtain ⟨⟨hkeeps, hown⟩, hserve⟩ := hq
    have hfirst : ∀ e ∈ first.or (some q.1.body), c₁.Keeps e := by
      intro e he
      cases first with
      | none =>
        cases he
        exact hkeeps.body
      | some f => exact (hf e he).advances h₁.toAdvances
    refine (ih h.2 h₁.valid (ht.mono h₁.rows) hfirst hown).bind
      fun qs c₂ h₂ hserves => .pure h₂.valid fun hx => ?_
    exact ((hserve hx).advances h₁.valid h₂).append (hserves (hx.remains h₁))

/-! ## Forms -/

section

variable (hr : r.RowsClosed) {span : Span} {func value body : Expr} {es : List Expr}

include hr

theorem serves_lit (value : Literal) : Serves r x s (.lit span value) := by
  refine serves_of hr fun c hc => ?_
  rw [infer]
  refine (checkLiteral_does hc value span).bind fun _ c₁ h₁ _ => ?_
  refine (record_does h₁.valid _ _ _ _).bind fun _ c₂ h₂ _ => .pure h₂.valid fun _ => ?_
  exact .cons (fun _ => trivial) serving_nil

theorem serves_var (name : String) : Serves r x s (.var span name) := by
  refine serves_of hr fun c hc => ?_
  rw [infer]
  exact inferVar_serves hr hc _ name

theorem inferList_serves (h : ∀ e ∈ es, Serves r x s e) (hc : c.Valid) :
    c.Does (inferList r es) (fun ts c' => (∀ t ∈ ts, c'.Keeps t) ∧
      (c.Means x (some s) → c'.Serving x s (TExpr.sitesList x ts))) := by
  refine (inferList_does hr es c hc).and ?_
  induction es generalizing c with
  | nil =>
    unfold inferList
    exact .pure hc fun _ => serving_nil
  | cons e es ih =>
    simp only [List.mem_cons, forall_eq_or_imp] at h
    unfold inferList
    refine (h.1 c hc).next (inferring_quiet r e) fun t c₁ h₁ ht => ?_
    refine (ih h.2 h₁.valid).bind fun ts c₂ h₂ hts => .pure h₂.valid fun hx => ?_
    exact ((ht.2 hx).advances h₁.valid h₂).append (hts (hx.remains h₁))

omit hr in
theorem inferCall_serves (h : ∀ e ∈ es, Serves r x s e) (funcSpan span : Span) (hc : c.Valid)
    {callee : TExpr} (hf : c.Keeps callee) :
    c.Does (inferCall r funcSpan span callee es) (fun t c' => c.Means x (some s) →
      c.Serving x s (callee.sites x) → c'.Serving x s (t.sites x)) := by
  induction es generalizing c callee with
  | nil =>
    unfold inferCall
    exact .pure hc fun _ h => h
  | cons e es ih =>
    simp only [List.mem_cons, forall_eq_or_imp] at h
    unfold inferCall
    refine (h.1 c hc).next (inferring_quiet r e) fun arg c₁ h₁ harg => ?_
    obtain ⟨hk, harg⟩ := harg
    have hf₁ := hf.advances h₁.toAdvances
    have happly := applyTo_serves (x := x) (s := s) h₁.valid hf₁ hk funcSpan span
    refine ((applyTo_does h₁.valid hf₁ hk funcSpan span).and happly).next
      (fun _ => applyTo_quiet _ _ _ _) fun next c₂ h₂ hboth => ?_
    obtain ⟨hnext, i, hi, hserve⟩ := hboth
    have h₁₂ := h₁.trans h₂
    refine (ih h.2 h₂.valid hnext).imp fun t c' h' ht hx hcallee => ht (hx.remains h₁₂) ?_
    subst hi
    exact .cons hserve ((hcallee.advances hc h₁₂.toAdvances).append
      ((harg hx).advances h₁.valid h₂.toAdvances))

theorem serves_call (hf : Serves r x s func) (h : ∀ e ∈ es, Serves r x s e) :
    Serves r x s (.call span func es) := by
  refine serves_of hr fun c hc => ?_
  rw [infer]
  refine (hf c hc).next (inferring_quiet r func) fun callee c₁ h₁ ⟨hk, hcallee⟩ => ?_
  have hrec : ∀ {c' : Checker} {result : TExpr}, c'.Valid →
      (c.Means x (some s) → c'.Serving x s (result.sites x)) → c'.Does (do
        record .call (.call span func es) result.ty s!"{es.length} argument(s)"
        return result) (fun t c'' => c.Means x (some s) → c''.Serving x s (t.sites x)) :=
    fun hc' hserve => (record_does hc' _ _ _ _).bind fun _ _ h _ =>
      .pure h.valid fun hx => (hserve hx).advances hc' h
  dsimp only
  split
  · have hunit : c₁.Keeps (.lit (.quiet span .unit) .unit) :=
      keeps_quiet (by simp) (Ty.below_of_effects_eq_nil rfl) rfl (by simp [TExpr.parts])
    refine (applyTo_serves (x := x) (s := s) h₁.valid hk hunit _ _).bind
      fun t c₂ h₂ ⟨i, hi, hserve⟩ => hrec h₂.valid fun hx => ?_
    subst hi
    exact .cons hserve (((hcallee hx).advances h₁.valid h₂).append
      (.cons (fun _ => trivial) serving_nil))
  · exact (inferCall_serves h func.span span h₁.valid hk).bind fun t c₂ h₂ ht =>
      hrec h₂.valid fun hx => ht (hx.remains h₁) (hcallee hx)

theorem serves_lam (params : List Param) (hb : Serves r x s body) :
    Serves r x s (.lam span params body) := by
  refine serves_of hr fun c hc => ?_
  rw [infer]
  refine (inferLambda_serves hr hb hc params span (by simp) none).bind fun q c₁ h₁ hq => ?_
  exact (record_does h₁.valid _ _ _ _).bind fun _ _ h₂ _ => .pure h₂.valid fun hx =>
    (hq hx).advances h₁.valid h₂

theorem serves_seq (h : ∀ e ∈ es, Serves r x s e) : Serves r x s (.seq span es) := by
  refine serves_of hr fun c hc => ?_
  rw [infer]
  exact (inferList_serves hr h hc).bind fun ts c₁ h₁ hts => .pure h₁.valid fun hx =>
    .cons (fun _ => trivial) (hts.2 hx)

theorem serves_cond {condition onTrue onFalse : Expr} (hcond : Serves r x s condition)
    (htrue : Serves r x s onTrue) (hfalse : Serves r x s onFalse) :
    Serves r x s (.cond span condition onTrue onFalse) := by
  refine serves_of hr fun c hc => ?_
  rw [infer]
  refine (hcond c hc).next (inferring_quiet r _) fun b c₁ h₁ ⟨hbk, hb⟩ => ?_
  refine (requireBool_does h₁.valid hbk.ty).next (fun _ => lift_quiet _) fun _ c₂ h₂ _ => ?_
  have h₀₂ := h₁.trans h₂
  refine (htrue c₂ h₂.valid).next (inferring_quiet r _) fun t c₃ h₃ ⟨htk, ht⟩ => ?_
  have h₀₃ := h₀₂.trans h₃
  refine (hfalse c₃ h₃.valid).next (inferring_quiet r _) fun f c₄ h₄ ⟨hfk, hf⟩ => ?_
  refine (unify_does h₄.valid (htk.advances h₄.toAdvances).ty hfk.ty _).bind fun _ c₅ h₅ _ => ?_
  refine (record_does h₅.valid _ _ _ _).bind fun _ c₆ h₆ _ => .pure h₆.valid fun hx => ?_
  have h₄₆ := h₅.trans h₆
  have h₃₆ := h₄.toAdvances.trans h₄₆
  have h₁₆ := h₂.toAdvances.trans (h₃.toAdvances.trans h₃₆)
  refine .cons (fun _ => trivial) (.append ((hb hx).advances h₁.valid h₁₆) (.append ?_ ?_))
  · exact (ht (hx.remains h₀₂)).advances h₃.valid h₃₆
  · exact (hf (hx.remains h₀₃)).advances h₄.valid h₄₆

theorem serves_tuple (h : ∀ e ∈ es, Serves r x s e) : Serves r x s (.tuple span es) := by
  refine serves_of hr fun c hc => ?_
  rw [infer]
  refine (inferList_serves hr h hc).bind fun ts c₁ h₁ hts => ?_
  refine (record_does h₁.valid _ _ _ _).bind fun _ c₂ h₂ _ => .pure h₂.valid fun hx => ?_
  exact .cons (fun _ => trivial) ((hts.2 hx).advances h₁.valid h₂)

theorem serves_construct (name : Name) (h : ∀ e ∈ es, Serves r x s e) :
    Serves r x s (.construct span name es) := by
  refine serves_of hr fun c hc => ?_
  rw [infer]
  refine (inferList_serves hr h hc).bind fun ts c₁ h₁ ⟨hkeeps, hts⟩ => ?_
  have hbuild : c₁.Does (construct r name ts span) (fun t _ => Assembles ts t) :=
    ⟨(construct_does hr h₁.valid name hkeeps span).1, construct_assembles name ts span c₁⟩
  refine hbuild.bind fun t c₂ h₂ ht => ?_
  refine (record_does h₂.valid _ _ _ _).bind fun _ c₃ h₃ _ => .pure h₃.valid fun hx => ?_
  exact ht.serving ((hts hx).advances h₁.valid (h₂.trans h₃))

theorem serves_binary (op : BinOp) (opSpan : Span) {left right : Expr} (hleft : Serves r x s left)
    (hright : Serves r x s right) : Serves r x s (.binary span op opSpan left right) := by
  refine serves_of hr fun c hc => ?_
  rw [infer]
  refine (hleft c hc).next (inferring_quiet r _) fun a c₁ h₁ ⟨hak, ha⟩ => ?_
  refine (hright c₁ h₁.valid).next (inferring_quiet r _) fun b c₂ h₂ ⟨hbk, hb⟩ => ?_
  refine (binaryType_does h₂.valid op opSpan (hak.advances h₂.toAdvances).ty hbk.ty).bind
    fun t c₃ h₃ _ => ?_
  refine (record_does h₃.valid _ _ _ _).bind fun _ c₄ h₄ _ => .pure h₄.valid fun hx => ?_
  have h₂₄ := h₃.trans h₄
  exact .cons (fun _ => trivial) (((ha hx).advances h₁.valid (h₂.toAdvances.trans h₂₄)).append
    ((hb (hx.remains h₁)).advances h₂.valid h₂₄))

theorem serves_unary (op : UnOp) (opSpan : Span) (h : Serves r x s value) :
    Serves r x s (.unary span op opSpan value) := by
  refine serves_of hr fun c hc => ?_
  rw [infer]
  refine (h c hc).bind fun a c₁ h₁ ⟨hak, ha⟩ => ?_
  refine (unaryType_does h₁.valid op opSpan hak.ty).bind fun t c₂ h₂ _ =>
    .pure h₂.valid fun hx => ?_
  exact .cons (fun _ => trivial) ((ha hx).advances h₁.valid h₂)

theorem serves_borrow (unique : Bool) (h : Serves r x s value) :
    Serves r x s (.borrow span unique value) := by
  refine serves_of hr fun c hc => ?_
  rw [infer]
  refine (h c hc).bind fun a c₁ h₁ ⟨_, ha⟩ => ?_
  refine (record_does h₁.valid _ _ _ _).bind fun _ c₂ h₂ _ => .pure h₂.valid fun hx => ?_
  exact .cons (fun _ => trivial) ((ha hx).advances h₁.valid h₂)

theorem serves_deref (h : Serves r x s value) : Serves r x s (.deref span value) := by
  refine serves_of hr fun c hc => ?_
  rw [infer]
  refine (h c hc).bind fun a c₁ h₁ ⟨hak, ha⟩ => ?_
  refine (target_does h₁.valid hak.ty a.span).bind fun t c₂ h₂ _ => .pure h₂.valid fun hx => ?_
  exact .cons (fun _ => trivial) ((ha hx).advances h₁.valid h₂)

theorem serves_assign {place : Expr} (hplace : Serves r x s place) (hvalue : Serves r x s value) :
    Serves r x s (.assign span place value) := by
  refine serves_of hr fun c hc => ?_
  have hrest : ∀ {c₁ : Checker}, c.Remains c₁ → c₁.Does (do
      let a ← infer r place
      let b ← infer r value
      Unifier.unify a.ty b.ty ((Provenance.of b.span .assign).relatedTo a.span)
      let own := Row.closed [mutLabel]
      Unifier.includeRow own (← get).context (.of span .performedEffect)
      record .assign (.assign span place value) .unit ""
      return TExpr.assign (.of span .unit own) a b) (fun t c' =>
        c.Means x (some s) → c'.Serving x s (t.sites x)) := by
    intro c₁ h₁
    refine (hplace c₁ h₁.valid).next (inferring_quiet r _) fun a c₂ h₂ ⟨hak, ha⟩ => ?_
    have h₀₂ := h₁.trans h₂
    refine (hvalue c₂ h₂.valid).next (inferring_quiet r _) fun b c₃ h₃ ⟨hbk, hb⟩ => ?_
    refine (unify_does h₃.valid (hak.advances h₃.toAdvances).ty hbk.ty _).bind
      fun _ c₄ h₄ _ => .get_bind ?_
    refine (includeRow_does h₄.valid (Row.below_closed rfl) _).bind fun _ c₅ h₅ _ => ?_
    refine (record_does h₅.valid _ _ _ _).bind fun _ c₆ h₆ _ => .pure h₆.valid fun hx => ?_
    have h₃₆ := h₄.trans (h₅.trans h₆)
    exact .cons (fun _ => trivial)
      (((ha (hx.remains h₁)).advances h₂.valid (h₃.toAdvances.trans h₃₆)).append
        ((hb (hx.remains h₀₂)).advances h₃.valid h₃₆))
  rw [infer]
  dsimp only
  split
  · exact hrest hc.remains
  · exact (report_does hc _).next (fun _ => lift_quiet _) fun _ _ h _ => hrest h

theorem serves_matchOn {scrutinee : Expr} {arms : List Arm} (hs : Serves r x s scrutinee)
    (h : ∀ a ∈ arms, ServesArm r x s a) : Serves r x s (.matchOn span scrutinee arms) := by
  refine serves_of hr fun c hc => ?_
  rw [infer]
  refine (hs c hc).next (inferring_quiet r _) fun t c₁ h₁ ⟨hk, hserve⟩ => ?_
  refine (inferArms_serves hr h h₁.valid hk.ty (by simp) (promises_pure _ _)).bind
    fun q c₂ h₂ hq => ?_
  have hrec : ∀ {c' : Checker} {ty : Ty}, c₂.Advances c' → c'.Does (do
      record .matchOn (.matchOn span scrutinee arms) ty s!"{arms.length} arm(s)"
      return TExpr.matchOn (.of span ty q.2) t q.1 none) (fun e c'' =>
        c.Means x (some s) → c''.Serving x s (e.sites x)) := by
    intro c' ty h
    refine (record_does h.valid _ _ _ _).bind fun _ c₃ h₃ _ => .pure h₃.valid fun hx => ?_
    have h₂₃ := h.trans h₃
    exact .cons (fun _ => trivial) (((hserve hx).advances h₁.valid (h₂.trans h₂₃)).append
      ((hq (hx.remains h₁)).advances h₂.valid h₂₃))
  dsimp only
  split
  · exact hrec h₂.valid.advances
  · exact .lift_bind h₂.valid (freshType_does h₂.valid.unifier) fun t c₃ h₃ _ => hrec h₃

omit hr in
/-- The value of a `let` must have the written type, if there is one. -/
theorem letType_remains (hc : c.Valid) (written : Option TypeExpr) {t : Ty}
    (ht : t.Below c.unifier.rowCount) (why : TypeExpr → Provenance) {m : Unit → CheckM TExpr}
    {Q : TExpr → Checker → Prop} (hm : ∀ a c', c.Remains c' → c'.Does (m a) Q) :
    c.Does (match written with
      | some w => do
        let u ← resolving (w.resolve r.types)
        liftM (Unifier.unify u t (why w)) >>= m
      | none => pure () >>= m) Q := by
  split
  · rename_i w
    refine (resolving_does hc (TypeExpr.resolve_resolves r.types w _ _ hc.unifier hc.scope)).next
      (fun _ => resolving_quiet _) fun u c₁ h₁ hu => ?_
    exact (unify_does h₁.valid hu (ht.mono h₁.rows) _).next (fun _ => lift_quiet _)
      fun _ _ h₂ _ => hm _ _ (h₁.trans h₂)
  · exact hm _ _ hc.remains

theorem serves_letIn (name : Name) (written : Option TypeExpr) (hval : Serves r x s value)
    (hbody : Serves r x s body) : Serves r x s (.letIn span name written value body) := by
  refine serves_of hr fun c hc => ?_
  rw [infer]
  refine (checkName_does hc name).next (fun _ => checkName_quiet name) fun _ c₁ h₁ _ => ?_
  refine (hval c₁ h₁.valid).next (inferring_quiet r _) fun v c₂ h₂ ⟨hvk, hvalue⟩ => ?_
  refine letType_remains h₂.valid written hvk.ty _ fun _ c₃ h₃ => ?_
  refine (localScheme_does h₃.valid _ value name.text (hvk.ty.mono h₃.rows)).next
    (fun _ => localScheme_quiet _ _ _ _) fun s' c₄ h₄ hs' => ?_
  have h₂₄ := h₃.trans h₄
  refine (pushScope_means h₄.valid).bind fun _ c₅ h₅ hpush => ?_
  refine (bindScheme_means h₅.valid name.text (hs'.mono h₅.rows)).bind fun _ c₆ h₆ hbind => ?_
  refine (hbody c₆ h₆.valid).bind fun b c₇ h₇ ⟨_, hb⟩ => ?_
  refine (popScope_does h₇.valid).bind fun _ c₈ h₈ _ => ?_
  refine (record_does h₈.valid _ _ _ _).bind fun _ c₉ h₉ _ => .pure h₉.valid fun hx => ?_
  have h₇₉ := h₈.trans h₉
  have h₂₉ := h₂₄.toAdvances.trans (h₅.trans (h₆.trans (h₇.trans h₇₉)))
  refine .cons (fun _ => trivial) (((hvalue (hx.remains h₁)).advances h₂.valid h₂₉).append ?_)
  split
  · exact serving_nil
  · rename_i hne
    have hx₄ := hx.remains (h₁.trans (h₂.trans h₂₄))
    exact (hb (hbind hne (hpush hx₄))).advances h₇.valid h₇₉

end

mutual

/-- Checking an expression gives all sites of a name in scope their types as it should. -/
theorem serves (hr : r.RowsClosed) (x : String) (s : Scheme) : (e : Expr) → Serves r x s e
  | .lit _ value => serves_lit hr value
  | .var _ name => serves_var hr name
  | .call _ func args => serves_call hr (serves hr x s func) (servesList hr x s args)
  | .lam _ params body => serves_lam hr params (serves hr x s body)
  | .letIn _ name written value body =>
    serves_letIn hr name written (serves hr x s value) (serves hr x s body)
  | .seq _ items => serves_seq hr (servesList hr x s items)
  | .cond _ c t e => serves_cond hr (serves hr x s c) (serves hr x s t) (serves hr x s e)
  | .matchOn _ e arms => serves_matchOn hr (serves hr x s e) (servesArms hr x s arms)
  | .tuple _ items => serves_tuple hr (servesList hr x s items)
  | .construct _ name args => serves_construct hr name (servesList hr x s args)
  | .binary _ op opSpan a b => serves_binary hr op opSpan (serves hr x s a) (serves hr x s b)
  | .unary _ op opSpan a => serves_unary hr op opSpan (serves hr x s a)
  | .borrow _ unique a => serves_borrow hr unique (serves hr x s a)
  | .deref _ a => serves_deref hr (serves hr x s a)
  | .assign _ place value => serves_assign hr (serves hr x s place) (serves hr x s value)

theorem servesList (hr : r.RowsClosed) (x : String) (s : Scheme) : (es : List Expr) →
    ∀ e ∈ es, Serves r x s e
  | [] => List.forall_mem_nil _
  | e :: es => List.forall_mem_cons.2 ⟨serves hr x s e, servesList hr x s es⟩

theorem servesArm (hr : r.RowsClosed) (x : String) (s : Scheme) : (a : Arm) → ServesArm r x s a
  | .mk pattern none body => servesArm_mk hr pattern (by simp) (serves hr x s body)
  | .mk pattern (some guard) body =>
    servesArm_mk hr pattern (by simpa using serves hr x s guard) (serves hr x s body)

theorem servesArms (hr : r.RowsClosed) (x : String) (s : Scheme) : (as : List Arm) →
    ∀ a ∈ as, ServesArm r x s a
  | [] => List.forall_mem_nil _
  | a :: as => List.forall_mem_cons.2 ⟨servesArm hr x s a, servesArms hr x s as⟩

end

/-! ## Groups -/

/-- The body of a function must have the written result type, if there is one. -/
theorem resultType_remains (hc : c.Valid) (d : FnDecl) {m : Expected → CheckM (TExpr × Row)}
    {Q : TExpr × Row → Checker → Prop}
    (hm : ∀ e c', c.Remains c' → (∀ p ∈ e, p.1.Below c'.unifier.rowCount) → c'.Does (m e) Q) :
    c.Does (match d.result with
      | some written => do
        let t ← resolving (written.resolve r.types)
        pure (some (t, (Provenance.of d.body.span .resultType).relatedTo written.span)) >>= m
      | none => pure none >>= m) Q := by
  split
  · rename_i written _
    refine (resolving_does hc (TypeExpr.resolve_resolves r.types written _ _ hc.unifier
      hc.scope)).next (fun _ => resolving_quiet _) fun t c₁ h₁ ht => hm _ _ h₁ ?_
    rintro p ⟨⟩
    exact ht
  · exact hm _ _ hc.remains (by simp)

theorem inferFunction_serves (hr : r.RowsClosed) (hc : c.Valid) (d : FnDecl) :
    c.Does (inferFunction r d) (fun q c' =>
      c.Means x (some s) → c'.Serving x s (q.1.sites x)) := by
  have hbody := serves hr x s d.body
  unfold inferFunction
  refine resultType_remains hc d fun expected c₁ h₁ he => ?_
  dsimp only
  split
  · refine ((inContext_does h₁.valid (infer_does hr d.body) he).and
      (inContext_serves hbody h₁.valid he)).bind fun q c₂ h₂ ⟨hq, hserve⟩ => ?_
    refine (exposedEffects_does h₂.valid hq.1 _ _).bind fun effects c₃ h₃ _ => .pure h₃.valid ?_
    exact fun hx => (hserve (hx.remains h₁)).advances h₂.valid h₃
  · exact (inferLambda_serves hr hbody h₁.valid d.params d.span he _).imp
      fun q c₂ _ hserve hx => hserve (hx.remains h₁)

theorem inferActive_serves (hr : r.RowsClosed) (hc : c.Valid) (d : ActiveDecl) :
    c.Does (inferActive r d) (fun q c' =>
      c.Means x (some s) → c'.Serving x s (q.1.sites x)) := by
  have hset : ∀ (p : Option ActivePattern) (env : TypeEnv),
      Quiet env.globals env (modify fun c : Checker => { c with active := p }) :=
    fun _ _ => modify_quiet (fun _ => rfl) fun _ => rfl
  unfold inferActive
  refine (setActive_does hc _).next (hset _) fun _ c₁ h₁ _ => ?_
  refine (inferLambda_serves hr (serves hr x s d.body) h₁.valid [d.param] d.span ?_ none).bind
    fun q c₂ h₂ hserve => ?_
  · rintro p ⟨⟩
    exact Ty.below_of_effects_eq_nil rfl
  · exact (setActive_does h₂.valid none).bind fun _ _ h₃ _ => .pure h₃.valid fun hx =>
      (hserve (hx.remains h₁)).advances h₂.valid h₃

theorem inferDecls_serves (hr : r.RowsClosed) (hc : c.Valid) {ps : List (ValueDecl × Ty)}
    (hps : ∀ p ∈ ps, p.2.Below c.unifier.rowCount) :
    c.Does (inferDecls r ps) (fun ks c' =>
      c.Means x (some s) → c'.Serving x s (ks.flatMap (·.body.sites x))) := by
  induction ps generalizing c with
  | nil => exact .pure hc fun _ => serving_nil
  | cons p ps ih =>
    obtain ⟨d, placeholder⟩ := p
    simp only [List.mem_cons, forall_eq_or_imp] at hps
    have hrest : ∀ {c' : Checker} {q : TExpr × Row}, c.Remains c' →
        q.1.ty.Below c'.unifier.rowCount → (c.Means x (some s) → c'.Serving x s (q.1.sites x)) →
        c'.Does (do
          Unifier.unify placeholder q.1.ty
            ((Provenance.of d.span .recursiveUse).relatedTo d.name.span)
          return ⟨d, q.1, q.2⟩ :: (← inferDecls r ps)) (fun ks c'' =>
            c.Means x (some s) → c''.Serving x s (ks.flatMap (·.body.sites x))) := by
      intro c' q h hq hserve
      refine (unify_does h.valid (hps.1.mono h.rows) hq _).next (fun _ => lift_quiet _)
        fun _ c₁ h₁ _ => ?_
      have h₀₁ := h.trans h₁
      refine (ih h₁.valid fun p hp => (hps.2 p hp).mono h₀₁.rows).bind
        fun ks c₂ h₂ hks => .pure h₂.valid fun hx => ?_
      exact ((hserve hx).advances h.valid (h₁.toAdvances.trans h₂)).append (hks (hx.remains h₀₁))
    have hscope : ∀ env : TypeEnv, Quiet env.globals env
        (modify fun c : Checker => { c with scope := .opened }) :=
      fun _ => modify_quiet (fun _ => rfl) fun _ => rfl
    unfold inferDecls
    refine (setScope_does hc).next hscope fun _ c₁ h₁ _ => ?_
    dsimp only
    cases d with
    | fn f =>
      exact ((inferFunction_does hr h₁.valid f).and (inferFunction_serves hr h₁.valid f)).next
        (fun env => inferFunction_quiet f (.self env _))
        fun _ _ h hq => hrest (h₁.trans h) hq.1.ty fun hx => hq.2 (hx.remains h₁)
    | active a =>
      exact ((inferActive_does hr h₁.valid a).and (inferActive_serves hr h₁.valid a)).next
        (fun env => inferActive_quiet a (.self env _))
        fun _ _ h hq => hrest (h₁.trans h) hq.1.ty fun hx => hq.2 (hx.remains h₁)

/-- Wherever a name from outside a group is in scope, calls and mentions of it take their types as
they should. -/
theorem inferGroup_serves (hr : r.RowsClosed) (hc : c.Valid) {ds : List ValueDecl}
    (hx : c.Means x (some s)) (hn : x ∉ ds.map (·.name.text)) :
    (inferGroup r ds c).2.Serving x s ((inferGroup r ds c).1.flatMap (·.body.sites x)) := by
  have hdoes : c.Does (do
      modifyEnv .pushScope
      let placeholders ← bindPlaceholders ds
      let checked ← inferDecls r placeholders
      modifyEnv .popScope
      return checked) (fun ks c' => c'.Serving x s (ks.flatMap (·.body.sites x))) := by
    refine (pushScope_means hc).bind fun _ c₁ h₁ hpush => ?_
    refine (bindPlaceholders_does h₁.valid ds).adds (bindPlaceholders_adds ds)
      fun ps c₂ h₂ hps hadds => ?_
    refine (inferDecls_serves (x := x) (s := s) hr h₂.valid hps.2).bind fun ks c₃ h₃ hks => ?_
    refine (popScope_does h₃.valid).bind fun _ c₄ h₄ _ => .pure h₄.valid ?_
    have hnames : x ∉ ps.map (·.1.name.text) := by
      rw [← hps.1, List.map_map] at hn
      exact hn
    exact (hks (hadds hnames (hpush hx))).advances h₃.valid h₄
  obtain ⟨hadv, hks⟩ := hdoes
  obtain ⟨hg, -⟩ := Unifier.finish_grows hadv.valid.unifier
  intro he n hn
  exact (hks (List.prefix_nil.1 (he ▸ hg.errors)) n hn).grows hadv.valid.unifier hg

end Checker

/-- Whether an expression is one that takes its types from what it applies and mentions as it
should, with what its variables have come to stand for put in their place. -/
def TExpr.Served (x : String) (s : Scheme) (e : TExpr) : Prop :=
  ∃ (u : Unifier) (b : TExpr), e = b.settle u.substitution ∧ ∀ n ∈ b.sites x, u.Accords x s n

/-- In an accepted group, calls and mentions of a name from outside take their types as they should.
-/
theorem checkGroup_serves {r : Registries} (hr : r.RowsClosed) {env : TypeEnv} (henv : env.Below 0)
    (tracing : Bool) {decls : List Decl} (h : (checkGroup r env tracing decls).diagnostics = [])
    {x : String} {s : Scheme} (hx : env.lookup x = some s)
    (hn : x ∉ (decls.filterMap Decl.value?).map (·.name.text)) :
    ∀ t ∈ (checkGroup r env tracing decls).decls, ∀ f, t.function? = some f →
      f.body.Served x s := by
  have hstart := Checker.start_valid henv tracing
  have hserve := Checker.inferGroup_serves (x := x) (s := s) hr hstart (fun _ => hx) hn
  obtain ⟨hvalid, u, -, hrows, hks⟩ :=
    Checker.inferGroup_fulfils hr hstart (decls.filterMap Decl.value?) h
  have hclose := (Checker.closeSchemes_does hvalid
    ((checkGroup r env tracing decls).diagnostics.any (·.isError)) fun k hk =>
      (Checker.body_below hks k hk).mono hrows).1
  intro t ht f hf
  obtain ⟨k, hk, rfl⟩ := List.mem_map.1 ht
  rw [Checker.Checked.function?_settle] at hf
  cases hf
  refine ⟨_, k.body, rfl, fun n hsite => ?_⟩
  have haccords := hserve h n (List.mem_flatMap.2 ⟨k, hk, hsite⟩)
  exact haccords.grows hvalid.unifier hclose.unifier.toGrows

end RowCheck
