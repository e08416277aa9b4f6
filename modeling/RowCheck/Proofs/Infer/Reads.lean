import RowCheck.Infer.Group
import RowCheck.Source.Names

/-!
What checking reads from the global layer of its environment. A pattern binds its variables, but a
capitalized one only if it does not name a case, which is told from types; so under such a pattern
the name may be read from further out. Two environments with the same local scopes whose global
layers agree on all names that may be read give the same answers and the same faults, step by step.
-/
namespace RowCheck

mutual

/-- The names a pattern binds in any case. -/
def Pattern.variables : Pattern → List String
  | .wild _ | .lit _ _ => []
  | .var _ name => if Text.isCapitalized name then [] else [name]
  | .tuple _ items => Pattern.variablesList items
  | .ctor _ _ args => Pattern.variablesList args

def Pattern.variablesList : List Pattern → List String
  | [] => []
  | p :: ps => p.variables ++ Pattern.variablesList ps

end

/-- The names of the active patterns that a pattern may apply. -/
def Pattern.applied (active : ActiveRegistry) (p : Pattern) : List String :=
  (p.constructors.filterMap active.ofCase?).map (·.name)

mutual

/-- The names that checking an expression may read, given names that are bound around it. -/
def Expr.reads (active : ActiveRegistry) (bound : List String) : Expr → List String
  | .lit _ _ => []
  | .var _ name => if name ∈ bound then [] else [name]
  | .call _ func args => func.reads active bound ++ Expr.readsList active bound args
  | .lam _ params body => body.reads active (params.map (·.name.text) ++ bound)
  | .letIn _ name _ value body =>
    value.reads active bound ++ body.reads active (name.text :: bound)
  | .seq _ items | .tuple _ items => Expr.readsList active bound items
  | .construct _ _ args => Expr.readsList active bound args
  | .cond _ c t e => c.reads active bound ++ t.reads active bound ++ e.reads active bound
  | .matchOn _ scrutinee arms =>
    scrutinee.reads active bound ++ Expr.readsArms active bound arms
  | .binary _ _ _ l r => l.reads active bound ++ r.reads active bound
  | .unary _ _ _ e => e.reads active bound
  | .borrow _ _ e | .deref _ e => e.reads active bound
  | .assign _ target value => target.reads active bound ++ value.reads active bound

def Expr.readsList (active : ActiveRegistry) (bound : List String) : List Expr → List String
  | [] => []
  | e :: es => e.reads active bound ++ Expr.readsList active bound es

def Expr.readsArm (active : ActiveRegistry) (bound : List String) : Arm → List String
  | .mk p (some g) b =>
    (p.applied active).filter (· ∉ bound) ++ g.reads active (p.variables ++ bound) ++
      b.reads active (p.variables ++ bound)
  | .mk p none b =>
    (p.applied active).filter (· ∉ bound) ++ b.reads active (p.variables ++ bound)

def Expr.readsArms (active : ActiveRegistry) (bound : List String) : List Arm → List String
  | [] => []
  | a :: as => Expr.readsArm active bound a ++ Expr.readsArms active bound as

end

/-! ## Environments -/

namespace TypeEnv

/-- Whether a local scope binds a name. -/
def Bound (env : TypeEnv) (name : String) : Prop :=
  (env.scopes.findSome? (·.get? name)).isSome = true

/-- The environment with another global layer. -/
def withGlobals (globals : SortedMap String Scheme) (env : TypeEnv) : TypeEnv := { env with globals }

/-- Whether an environment is another one with more names bound in its innermost scope. -/
structure Grows (env env' : TypeEnv) : Prop where
  globals : env'.globals = env.globals
  outer : env'.scopes.tail = env.scopes.tail
  bound : ∀ name, env.Bound name → env'.Bound name

variable {env env' env'' : TypeEnv} {globals : SortedMap String Scheme} {name : String}

theorem lookup_withGlobals (h : env.Bound name ∨ env.globals.get? name = globals.get? name) :
    (env.withGlobals globals).lookup name = env.lookup name := by
  unfold lookup withGlobals Bound at *
  cases hs : env.scopes.findSome? (·.get? name) with
  | some s => rfl
  | none =>
    rw [hs] at h
    exact (h.resolve_left nofun).symm

theorem Grows.refl (env : TypeEnv) : env.Grows env := ⟨rfl, rfl, fun _ h => h⟩

theorem Grows.trans (h : env.Grows env') (h' : env'.Grows env'') : env.Grows env'' :=
  ⟨h'.globals.trans h.globals, h'.outer.trans h.outer, fun n hn => h'.bound n (h.bound n hn)⟩

theorem bind_withGlobals (env : TypeEnv) (name : String) (s : Scheme) :
    (env.withGlobals globals).bind name s = (env.bind name s).withGlobals globals := by
  unfold bind withGlobals
  cases env.scopes <;> rfl

theorem bound_bind (env : TypeEnv) (name : String) (s : Scheme) : (env.bind name s).Bound name := by
  unfold bind Bound
  cases env.scopes <;> simp

theorem grows_bind (env : TypeEnv) (name : String) (s : Scheme) : env.Grows (env.bind name s) := by
  refine ⟨?_, ?_, fun other h => ?_⟩
  · unfold bind
    split <;> rfl
  · unfold bind
    split <;> simp [*]
  · by_cases he : name = other
    · exact he ▸ bound_bind env name s
    · unfold Bound at *
      unfold bind
      cases hs : env.scopes with
      | nil => simp [hs] at h
      | cons scope rest =>
        rw [hs, List.findSome?_cons] at h
        simpa [List.findSome?_cons, SortedMap.get?_insert, he] using h

theorem bound_pushScope : env.pushScope.Bound name ↔ env.Bound name := by
  simp [Bound, pushScope, List.findSome?_cons]

/-- Leaving a scope brings back the environment in which it was entered. -/
theorem Grows.popScope (h : env.pushScope.Grows env') : env'.popScope = env := by
  have hg : env'.globals = env.globals := h.globals
  have ho : env'.scopes.tail = env.scopes := h.outer
  obtain ⟨globals, scopes⟩ := env
  rw [TypeEnv.popScope, ho, hg]

end TypeEnv

/-! ## Actions -/

namespace Checker

/-- The state with another global layer. -/
def withGlobals (globals : SortedMap String Scheme) (c : Checker) : Checker :=
  { c with env := c.env.withGlobals globals }

/-- Whether an action, in an environment, does the same under another global layer and leaves an
environment with some property. -/
def Same {α : Type} (globals : SortedMap String Scheme) (env : TypeEnv) (m : CheckM α)
    (Q : TypeEnv → Prop) : Prop :=
  ∀ c : Checker, c.env = env →
    m (c.withGlobals globals) = ((m c).1, (m c).2.withGlobals globals) ∧ Q (m c).2.env

/-- Whether it does so and leaves the environment as it is. -/
def Quiet {α : Type} (globals : SortedMap String Scheme) (env : TypeEnv) (m : CheckM α) : Prop :=
  Same globals env m (· = env)

/-- Whether it does so and binds some names more. -/
def Binding {α : Type} (globals : SortedMap String Scheme) (env : TypeEnv) (m : CheckM α)
    (names : List String) : Prop :=
  Same globals env m fun env' => env.Grows env' ∧ ∀ name ∈ names, env'.Bound name

variable {globals : SortedMap String Scheme} {env : TypeEnv} {r : Registries}

section

variable {α β : Type} {m : CheckM α} {f : α → CheckM β} {Q R : TypeEnv → Prop}
  {names names' : List String}

/-- An action whose answers have some property is followed by one that may depend on it. -/
theorem Same.next {P : α → Prop} (h : Same globals env m Q) (hp : ∀ c, P (m c).1)
    (hf : ∀ a env', P a → Q env' → Same globals env' (f a) R) : Same globals env (m >>= f) R := by
  intro c hc
  obtain ⟨hrun, hq⟩ := h c hc
  obtain ⟨hrun', hr⟩ := hf (m c).1 _ (hp c) hq (m c).2 rfl
  refine ⟨?_, hr⟩
  show f (m (c.withGlobals globals)).1 (m (c.withGlobals globals)).2 = _
  rw [hrun]
  exact hrun'

theorem Same.bind (h : Same globals env m Q) (hf : ∀ a env', Q env' → Same globals env' (f a) R) :
    Same globals env (m >>= f) R :=
  h.next (P := fun _ => True) (fun _ => trivial) fun a env' _ => hf a env'

theorem Same.pure {a : α} (hq : Q env) : Same globals env (pure a) Q := fun _ hc => ⟨rfl, hc ▸ hq⟩

theorem Same.imp (h : Same globals env m Q) (hq : ∀ env', Q env' → R env') :
    Same globals env m R := fun c hc => ⟨(h c hc).1, hq _ (h c hc).2⟩

theorem Same.get_bind {f : Checker → CheckM β}
    (he : ∀ c : Checker, c.env = env → f (c.withGlobals globals) = f c)
    (h : ∀ c : Checker, c.env = env → Same globals env (f c) R) :
    Same globals env (get >>= f) R := by
  intro c hc
  refine ⟨?_, (h c hc c hc).2⟩
  show f (c.withGlobals globals) (c.withGlobals globals) = _
  rw [he c hc]
  exact (h c hc c hc).1

theorem Quiet.then (h : Quiet globals env m) (hf : ∀ a, Same globals env (f a) R) :
    Same globals env (m >>= f) R :=
  Same.bind h fun a env' he => by
    subst he
    exact hf a

theorem Quiet.bind (h : Quiet globals env m) (hf : ∀ a, Quiet globals env (f a)) :
    Quiet globals env (m >>= f) := h.then hf

theorem Quiet.binds (h : Quiet globals env m) (hf : ∀ a, Binding globals env (f a) names) :
    Binding globals env (m >>= f) names := h.then hf

theorem Quiet.get_bind {f : Checker → CheckM β}
    (he : ∀ c : Checker, c.env = env → f (c.withGlobals globals) = f c)
    (h : ∀ c : Checker, c.env = env → Quiet globals env (f c)) :
    Quiet globals env (get >>= f) := Same.get_bind he h

theorem Quiet.pure (a : α) : Quiet globals env (pure a : CheckM α) := Same.pure rfl

/-- What is done to the state of unification takes no notice of the environment. -/
theorem lift_quiet (x : UnifyM α) : Quiet globals env (liftM x : CheckM α) := fun _ hc => ⟨rfl, hc⟩

theorem resolving_quiet (x : ResolveM α) : Quiet globals env (resolving x) := fun _ hc => ⟨rfl, hc⟩

theorem modify_quiet {f : Checker → Checker}
    (hf : ∀ c, f (c.withGlobals globals) = (f c).withGlobals globals) (he : ∀ c, (f c).env = c.env) : Quiet globals env (modify f) := fun c hc =>
  ⟨congrArg (PUnit.unit, ·) (hf c), (he c).trans hc⟩

theorem Quiet.binding (h : Quiet globals env m) : Binding globals env m [] :=
  h.imp fun _ hc => ⟨hc ▸ .refl _, by simp⟩

theorem Binding.pure (a : α) : Binding globals env (pure a) [] := Quiet.binding (.pure a)

theorem Binding.bind (h : Binding globals env m names)
    (hf : ∀ a env', env.Grows env' → Binding globals env' (f a) names') :
    Binding globals env (m >>= f) (names ++ names') := by
  refine Same.bind h fun a env' ⟨hg, hn⟩ => (hf a env' hg).imp fun env'' ⟨hg', hn'⟩ => ?_
  refine ⟨hg.trans hg', fun name hname => ?_⟩
  rcases List.mem_append.1 hname with hname | hname
  · exact hg'.bound name (hn name hname)
  · exact hn' name hname

theorem Binding.map (h : Binding globals env m names) (f : α → β) :
    Binding globals env (m >>= fun a => Pure.pure (f a)) names := by
  have hbind := h.bind fun a _ _ => Binding.pure (f a)
  rwa [List.append_nil] at hbind

theorem Binding.mono (h : Binding globals env m names) (hn : ∀ n ∈ names', n ∈ names) :
    Binding globals env m names' :=
  h.imp fun _ hq => ⟨hq.1, fun n hmem => hq.2 n (hn n hmem)⟩

end

theorem modifyEnv_same {f : TypeEnv → TypeEnv}
    (h : f (env.withGlobals globals) = (f env).withGlobals globals) :
    Same globals env (modifyEnv f) (· = f env) := by
  intro c hc
  subst hc
  refine ⟨?_, rfl⟩
  show (_, { c.withGlobals globals with env := f (c.env.withGlobals globals) }) = _
  rw [h]
  rfl

theorem pushScope_same : Same globals env (modifyEnv .pushScope) (· = env.pushScope) :=
  modifyEnv_same rfl

theorem popScope_same : Same globals env (modifyEnv .popScope) (· = env.popScope) :=
  modifyEnv_same rfl

theorem bindMono_binding (name : String) (t : Ty) :
    Binding globals env (bindMono name t) [name] := by
  refine (modifyEnv_same (env.bind_withGlobals ..)).imp fun env' he => ?_
  rw [he]
  exact ⟨env.grows_bind .., by simpa using env.bound_bind ..⟩

theorem fail_quiet (category : Category) (message : String) (span : Span) :
    Quiet globals env (fail category message span) := lift_quiet _

theorem record_quiet (rule : InferRule) (e : Expr) (t : Ty) (detail : String) :
    Quiet globals env (record rule e t detail) := by
  apply modify_quiet
  · intro c
    by_cases h : c.unifier.tracing = true <;> simp [withGlobals, h]
  · intro c
    split <;> rfl

theorem recordScheme_quiet (name : Name) (s : Scheme) :
    Quiet globals env (recordScheme name s) := by
  apply modify_quiet
  · intro c
    by_cases h : c.unifier.tracing = true <;> simp [withGlobals, h]
  · intro c
    split <;> rfl

theorem checkName_quiet (name : Name) : Quiet globals env (checkName name) := by
  unfold checkName
  split
  · exact .pure _
  · split
    · exact .pure _
    · exact fail_quiet _ _ _

theorem checkLiteral_quiet (value : Literal) (span : Span) :
    Quiet globals env (checkLiteral value span) := by
  unfold checkLiteral
  split
  · split
    · exact .pure _
    · exact lift_quiet _
  · exact .pure _

/-! ## Rules -/

theorem functionParts_quiet (t : Ty) (why : Provenance) :
    Quiet globals env (functionParts t why) := by
  unfold functionParts
  refine (lift_quiet _).bind fun t => ?_
  split
  · exact .pure _
  · exact .pure _
  · exact (lift_quiet _).bind fun _ => (lift_quiet _).bind fun _ => .pure _
  · exact (lift_quiet _).bind fun _ => (lift_quiet _).bind fun _ => .pure _

theorem applyTo_quiet (callee arg : TExpr) (funcSpan span : Span) :
    Quiet globals env (applyTo callee arg funcSpan span) := by
  unfold applyTo
  refine (functionParts_quiet _ _).bind fun parts => ?_
  split
  · exact .pure _
  · refine (lift_quiet _).bind fun _ => .get_bind (fun _ _ => rfl) fun _ _ => ?_
    exact (lift_quiet _).bind fun _ => .pure _

theorem construct_quiet (name : Name) (args : List TExpr) (span : Span) :
    Quiet globals env (construct r name args span) := by
  unfold construct
  dsimp only
  split
  · refine .get_bind (fun _ _ => rfl) fun c _ => ?_
    split
    · split
      · exact .pure _
      · exact (fail_quiet _ _ _).bind fun _ => .pure _
    · exact (fail_quiet _ _ _).bind fun _ => .pure _
  · split
    · exact (fail_quiet _ _ _).bind fun _ => .pure _
    · split
      · exact (fail_quiet _ _ _).bind fun _ => .pure _
      · exact (lift_quiet _).bind fun _ => (lift_quiet _).bind fun _ => .pure _

/-- Whether some names are bound in an environment or its global layer agrees with another one on
them. -/
def Agrees (globals : SortedMap String Scheme) (env : TypeEnv) (names : List String) : Prop :=
  ∀ name ∈ names, env.Bound name ∨ env.globals.get? name = globals.get? name

theorem agrees_append {names names' : List String} : Agrees globals env (names ++ names') ↔
    Agrees globals env names ∧ Agrees globals env names' := List.forall_mem_append

theorem Agrees.grows {names : List String} (h : Agrees globals env names) {env' : TypeEnv}
    (hg : env.Grows env') : Agrees globals env' names := fun n hn =>
  (h n hn).imp (hg.bound n) fun he => hg.globals ▸ he

theorem Agrees.lookup_withGlobals {name : String} (h : Agrees globals env [name]) :
    ∀ c : Checker, c.env = env → (c.withGlobals globals).env.lookup name = c.env.lookup name := by
  rintro c rfl
  exact TypeEnv.lookup_withGlobals (h name (by simp))

theorem inferVar_quiet (e : Expr) {name : String} (h : Agrees globals env [name]) :
    Quiet globals env (inferVar r e name) := by
  unfold inferVar
  refine .get_bind (fun c hc => by rw [h.lookup_withGlobals c hc]) fun c _ => ?_
  split
  · exact (lift_quiet _).bind fun _ => (record_quiet _ _ _ _).bind fun _ => .pure _
  · split
    · exact construct_quiet _ _ _
    · exact (fail_quiet _ _ _).bind fun _ => .pure _

theorem target_quiet (t : Ty) (span : Span) : Quiet globals env (target t span) := by
  unfold target
  refine (lift_quiet _).bind fun head => ?_
  split
  · exact .pure _
  · exact .pure _
  · exact (lift_quiet _).bind fun _ => (lift_quiet _).bind fun _ => .pure _

theorem binaryType_quiet (op : BinOp) (opSpan : Span) (left right : TExpr) :
    Quiet globals env (binaryType op opSpan left right) := by
  have htwo : ∀ (x y : UnifyM Unit) (t : Ty), Quiet globals env (do
      x
      y
      return t : CheckM Ty) :=
    fun _ _ _ => (lift_quiet _).bind fun _ => (lift_quiet _).bind fun _ => .pure _
  cases op with
  | and | or | add | sub | mul | div | lt | le | gt | ge => exact htwo _ _ _
  | eq | ne => exact (lift_quiet _).bind fun _ => .pure _

theorem unaryType_quiet (op : UnOp) (opSpan : Span) (operand : TExpr) :
    Quiet globals env (unaryType op opSpan operand) := by
  unfold unaryType
  split
  · exact (lift_quiet _).bind fun _ => .pure _
  · exact (lift_quiet _).bind fun _ => .pure _

/-! ## Patterns -/

theorem applyActive_quiet {p : ActivePattern} (h : Agrees globals env [p.name]) (name : String)
    (t : Ty) (span : Span) : Quiet globals env (applyActive r p name t span) := by
  unfold applyActive
  refine .get_bind (fun c hc => by rw [h.lookup_withGlobals c hc]) fun c _ => ?_
  cases c.env.lookup p.name
  -- whether the name is bound or not, the steps after its type is known are the same
  all_goals refine Quiet.bind ?_ fun function => ?_
  case none.refine_1 => exact .pure _
  case some.refine_1 s => exact lift_quiet _
  all_goals
    refine (lift_quiet _).bind fun parts => (lift_quiet _).bind fun _ => ?_
    refine (lift_quiet _).bind fun _ => (lift_quiet _).bind fun _ => ?_
    refine .get_bind (fun _ _ => rfl) fun _ _ => ?_
    exact (lift_quiet _).bind fun _ => .pure _

theorem resolveCase_quiet {name : String} {t : Ty} {span : Span}
    (h : Agrees globals env ((r.active.ofCase? name).toList.map (·.name))) :
    Quiet globals env (resolveCase r name t span) := by
  unfold resolveCase
  refine .get_bind (fun _ _ => rfl) fun _ _ => ?_
  split
  · exact .pure _
  · cases hp : r.active.ofCase? name with
    | some p =>
      rw [hp] at h
      exact (applyActive_quiet h _ _ _).bind fun _ => .pure _
    | none =>
      dsimp only
      split
      · exact .pure _
      · exact (lift_quiet _).bind fun _ => (lift_quiet _).bind fun _ => .pure _

theorem bindPatternName_binding (name : String) (t : Ty) (span : Span) :
    Binding globals env (bindPatternName name t span) [name] := by
  unfold bindPatternName
  exact (checkName_quiet _).binds fun _ => (bindMono_binding name t).map _

theorem length_freshItems (ps : List Pattern) (u : Unifier) :
    (freshItems ps u).1.length = ps.length := by
  induction ps generalizing u with
  | nil => rfl
  | cons p ps ih =>
    show ((freshItems ps (Unifier.freshType u).2).1).length + 1 = _
    rw [ih, List.length_cons]

end Checker

/-- The names of the active patterns that some patterns may apply. -/
def Pattern.appliedList (active : ActiveRegistry) (ps : List Pattern) : List String :=
  ((Pattern.constructorsList ps).filterMap active.ofCase?).map (·.name)

theorem Pattern.applied_var {active : ActiveRegistry} {span : Span} {name : String}
    (h : Text.isCapitalized name = true) : (Pattern.var span name).applied active =
      (active.ofCase? name).toList.map (·.name) := by
  simp only [Pattern.applied, Pattern.constructors, h, if_true, List.filterMap_cons,
    List.filterMap_nil]
  cases active.ofCase? name <;> rfl

theorem Pattern.applied_ctor {active : ActiveRegistry} {span : Span} {name : String}
    {args : List Pattern} : (Pattern.ctor span name args).applied active =
      (active.ofCase? name).toList.map (·.name) ++ Pattern.appliedList active args := by
  unfold Pattern.applied Pattern.constructors
  rw [List.filterMap_cons]
  cases active.ofCase? name <;> rfl

theorem Pattern.appliedList_cons {active : ActiveRegistry} {p : Pattern} {ps : List Pattern} :
    Pattern.appliedList active (p :: ps) = p.applied active ++ Pattern.appliedList active ps := by
  rw [Pattern.appliedList, Pattern.constructorsList, List.filterMap_append, List.map_append]
  rfl

namespace Checker

variable {globals : SortedMap String Scheme} {r : Registries}

mutual

/-- A pattern reads the active patterns it may apply, and binds its variables. -/
theorem inferPattern_binding : (p : Pattern) → (t : Ty) → (own : Row) → (env : TypeEnv) →
    Agrees globals env (p.applied r.active) →
    Binding globals env (inferPattern r p t own) p.variables
  | .wild span, t, own, env, _ => by
    unfold inferPattern
    exact .pure _
  | .var span name, t, own, env, h => by
    have hbind : Binding globals env (do
        return (← bindPatternName name t span, own)) [name] :=
      (bindPatternName_binding name t span).map _
    unfold inferPattern Pattern.variables
    by_cases hcap : Text.isCapitalized name = true
    · rw [if_pos hcap, if_pos hcap]
      refine (resolveCase_quiet (Pattern.applied_var hcap ▸ h)).binds fun found => ?_
      dsimp only
      split
      · exact hbind.mono (by simp)
      · split
        · exact .pure _
        · exact ((fail_quiet _ _ _).bind fun _ => Quiet.pure _).binding
    · rw [if_neg hcap, if_neg hcap]
      exact hbind
  | .lit span value, t, own, env, _ => by
    unfold inferPattern
    exact ((checkLiteral_quiet _ _).bind fun _ => (lift_quiet _).bind fun _ => Quiet.pure _).binding
  | .tuple span items, t, own, env, h => by
    unfold inferPattern
    refine (lift_quiet (freshItems items)).next (P := fun ts => items.length ≤ ts.length)
      (fun c => Nat.le_of_eq (length_freshItems items c.unifier).symm) fun ts env' hlen he => ?_
    subst he
    exact (lift_quiet _).binds fun _ => (inferPatterns_binding items ts own env' hlen h).map _
  | .ctor span name args, t, own, env, h => by
    rw [Pattern.applied_ctor, agrees_append] at h
    unfold inferPattern
    refine (resolveCase_quiet h.1).binds fun found => ?_
    split
    · exact (fail_quiet _ _ _).binds fun _ => (bindOnly_binding args own env h.2).map _
    · split
      · rename_i hlen
        exact (inferPatterns_binding args _ _ env (Nat.le_of_eq hlen.symm) h.2).map _
      · exact (fail_quiet _ _ _).binds fun _ => (bindOnly_binding args _ env h.2).map _

theorem inferPatterns_binding : (ps : List Pattern) → (ts : List Ty) → (own : Row) →
    (env : TypeEnv) → ps.length ≤ ts.length → Agrees globals env (Pattern.appliedList r.active ps) →
    Binding globals env (inferPatterns r ps ts own) (Pattern.variablesList ps)
  | [], ts, own, env, _, _ => by
    unfold inferPatterns
    exact .pure _
  | _ :: _, [], own, env, hlen, _ => by
    simp at hlen
  | p :: ps, t :: ts, own, env, hlen, h => by
    rw [Pattern.appliedList_cons, agrees_append] at h
    unfold inferPatterns
    refine (inferPattern_binding p t own env h.1).bind fun q env' hg => ?_
    exact (inferPatterns_binding ps ts q.2 env' (Nat.le_of_succ_le_succ hlen) (h.2.grows hg)).map _

theorem bindOnly_binding : (ps : List Pattern) → (own : Row) → (env : TypeEnv) →
    Agrees globals env (Pattern.appliedList r.active ps) →
    Binding globals env (bindOnly r ps own) (Pattern.variablesList ps)
  | [], own, env, _ => by
    unfold bindOnly
    exact .pure _
  | p :: ps, own, env, h => by
    rw [Pattern.appliedList_cons, agrees_append] at h
    unfold bindOnly
    refine (lift_quiet _).binds fun t => (inferPattern_binding p t own env h.1).bind fun q env' hg => ?_
    exact bindOnly_binding ps q.2 env' (h.2.grows hg)

end

end Checker
end RowCheck
