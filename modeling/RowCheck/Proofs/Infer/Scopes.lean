import RowCheck.Proofs.Infer.Coincidence
import RowCheck.Proofs.Infer.Targets

/-!
Where a name from around an expression is in scope. Binders are told from the checked form; and
unless something is at fault, checking a parameter or a pattern binds no other names than those that
its checked form tells, so everything else is looked up as before.
-/
namespace RowCheck

namespace TExpr

mutual

/-- The nodes of an expression at which a name from around it is in scope. -/
def sites (x : String) : TExpr → List TExpr
  | lit i v => [lit i v]
  | var i y => [var i y]
  | failed i => [failed i]
  | call i f a => call i f a :: (f.sites x ++ a.sites x)
  | lam i b e => lam i b e :: if b.name = x then [] else e.sites x
  | letIn i b v e => letIn i b v e :: (v.sites x ++ if b.name = x then [] else e.sites x)
  | seq i items => seq i items :: sitesList x items
  | tuple i items => tuple i items :: sitesList x items
  | construct i t v args => construct i t v args :: sitesList x args
  | cond i c t e => cond i c t e :: (c.sites x ++ (t.sites x ++ e.sites x))
  | matchOn i s arms tree => matchOn i s arms tree :: (s.sites x ++ sitesArms x arms)
  | binary i op a b => binary i op a b :: (a.sites x ++ b.sites x)
  | unary i op a => unary i op a :: a.sites x
  | borrow i k a => borrow i k a :: a.sites x
  | deref i a => deref i a :: a.sites x
  | assign i a b => assign i a b :: (a.sites x ++ b.sites x)

def sitesList (x : String) : List TExpr → List TExpr
  | [] => []
  | e :: es => e.sites x ++ sitesList x es

def sitesArm (x : String) : TArm → List TExpr
  | .mk p (some g) b => if x ∈ p.names then [] else g.sites x ++ b.sites x
  | .mk p none b => if x ∈ p.names then [] else b.sites x

def sitesArms (x : String) : List TArm → List TExpr
  | [] => []
  | a :: as => sitesArm x a ++ sitesArms x as

end

variable {x : String}

theorem self_mem_sites (e : TExpr) : e ∈ e.sites x := by
  cases e <;> exact List.mem_cons_self

mutual

/-- What is in scope within a site is so around it. -/
theorem sites_trans {n m : TExpr} (hm : m ∈ n.sites x) : (e : TExpr) → n ∈ e.sites x →
    m ∈ e.sites x
  | lit .., h | var .., h | failed _, h => by
    obtain rfl := List.mem_singleton.1 h
    exact hm
  | call _ f a, h => by
    rcases List.mem_cons.1 h with rfl | h
    · exact hm
    · refine List.mem_cons_of_mem _ (List.mem_append.2 ?_)
      exact (List.mem_append.1 h).imp (sites_trans hm f) (sites_trans hm a)
  | lam _ b e, h => by
    rcases List.mem_cons.1 h with rfl | h
    · exact hm
    · refine List.mem_cons_of_mem _ ?_
      split at h
      · cases h
      · rw [if_neg ‹_›]
        exact sites_trans hm e h
  | letIn _ b v e, h => by
    rcases List.mem_cons.1 h with rfl | h
    · exact hm
    · refine List.mem_cons_of_mem _ (List.mem_append.2 ?_)
      refine (List.mem_append.1 h).imp (sites_trans hm v) fun h => ?_
      split at h
      · cases h
      · rw [if_neg ‹_›]
        exact sites_trans hm e h
  | seq _ items, h => by
    rcases List.mem_cons.1 h with rfl | h
    · exact hm
    · exact List.mem_cons_of_mem _ (sitesList_trans hm items h)
  | tuple _ items, h => by
    rcases List.mem_cons.1 h with rfl | h
    · exact hm
    · exact List.mem_cons_of_mem _ (sitesList_trans hm items h)
  | construct _ _ _ args, h => by
    rcases List.mem_cons.1 h with rfl | h
    · exact hm
    · exact List.mem_cons_of_mem _ (sitesList_trans hm args h)
  | cond _ c t e, h => by
    rcases List.mem_cons.1 h with rfl | h
    · exact hm
    · refine List.mem_cons_of_mem _ (List.mem_append.2 ?_)
      refine (List.mem_append.1 h).imp (sites_trans hm c) fun h => List.mem_append.2 ?_
      exact (List.mem_append.1 h).imp (sites_trans hm t) (sites_trans hm e)
  | matchOn _ s arms _, h => by
    rcases List.mem_cons.1 h with rfl | h
    · exact hm
    · refine List.mem_cons_of_mem _ (List.mem_append.2 ?_)
      exact (List.mem_append.1 h).imp (sites_trans hm s) (sitesArms_trans hm arms)
  | binary _ _ a b, h => by
    rcases List.mem_cons.1 h with rfl | h
    · exact hm
    · refine List.mem_cons_of_mem _ (List.mem_append.2 ?_)
      exact (List.mem_append.1 h).imp (sites_trans hm a) (sites_trans hm b)
  | unary _ _ a, h => by
    rcases List.mem_cons.1 h with rfl | h
    · exact hm
    · exact List.mem_cons_of_mem _ (sites_trans hm a h)
  | borrow _ _ a, h => by
    rcases List.mem_cons.1 h with rfl | h
    · exact hm
    · exact List.mem_cons_of_mem _ (sites_trans hm a h)
  | deref _ a, h => by
    rcases List.mem_cons.1 h with rfl | h
    · exact hm
    · exact List.mem_cons_of_mem _ (sites_trans hm a h)
  | assign _ a b, h => by
    rcases List.mem_cons.1 h with rfl | h
    · exact hm
    · refine List.mem_cons_of_mem _ (List.mem_append.2 ?_)
      exact (List.mem_append.1 h).imp (sites_trans hm a) (sites_trans hm b)

theorem sitesList_trans {n m : TExpr} (hm : m ∈ n.sites x) : (es : List TExpr) →
    n ∈ sitesList x es → m ∈ sitesList x es
  | [], h => absurd h List.not_mem_nil
  | e :: es, h => by
    refine List.mem_append.2 ?_
    exact (List.mem_append.1 h).imp (sites_trans hm e) (sitesList_trans hm es)

theorem sitesArm_trans {n m : TExpr} (hm : m ∈ n.sites x) : (a : TArm) → n ∈ sitesArm x a →
    m ∈ sitesArm x a
  | .mk p (some g) b, h => by
    rw [sitesArm] at h ⊢
    split at h
    · cases h
    · rw [if_neg ‹_›]
      refine List.mem_append.2 ?_
      exact (List.mem_append.1 h).imp (sites_trans hm g) (sites_trans hm b)
  | .mk p none b, h => by
    rw [sitesArm] at h ⊢
    split at h
    · cases h
    · rw [if_neg ‹_›]
      exact sites_trans hm b h

theorem sitesArms_trans {n m : TExpr} (hm : m ∈ n.sites x) : (as : List TArm) →
    n ∈ sitesArms x as → m ∈ sitesArms x as
  | [], h => absurd h List.not_mem_nil
  | a :: as, h => by
    refine List.mem_append.2 ?_
    exact (List.mem_append.1 h).imp (sitesArm_trans hm a) (sitesArms_trans hm as)

end

/-- What a call applies is in scope where the call is. -/
theorem mem_sites_func {i : Info} {f a e : TExpr} (h : call i f a ∈ e.sites x) : f ∈ e.sites x :=
  sites_trans (List.mem_cons_of_mem _ (List.mem_append_left _ f.self_mem_sites)) e h

mutual

/-- Settling leaves all sites in their places. -/
theorem sites_settle (s : Substitution) : (e : TExpr) →
    (e.settle s).sites x = (e.sites x).map (settle s)
  | lit .. | var .. | failed _ => rfl
  | call _ f a => by simp [settle, sites, sites_settle s f, sites_settle s a]
  | lam _ b e => by
    by_cases hb : b.name = x <;> simp [settle, sites, sites_settle s e, Binder.settle, hb]
  | letIn _ b v e => by
    by_cases hb : b.name = x <;>
      simp [settle, sites, sites_settle s v, sites_settle s e, Binder.settle, hb]
  | seq _ items => by simp [settle, sites, sitesList_settle s items]
  | tuple _ items => by simp [settle, sites, sitesList_settle s items]
  | construct _ _ _ args => by simp [settle, sites, sitesList_settle s args]
  | cond _ c t e => by
    simp [settle, sites, sites_settle s c, sites_settle s t, sites_settle s e]
  | matchOn _ e arms _ => by simp [settle, sites, sites_settle s e, sitesArms_settle s arms]
  | binary _ _ a b => by simp [settle, sites, sites_settle s a, sites_settle s b]
  | unary _ _ a => by simp [settle, sites, sites_settle s a]
  | borrow _ _ a => by simp [settle, sites, sites_settle s a]
  | deref _ a => by simp [settle, sites, sites_settle s a]
  | assign _ a b => by simp [settle, sites, sites_settle s a, sites_settle s b]

theorem sitesList_settle (s : Substitution) : (es : List TExpr) →
    sitesList x (settleList s es) = (sitesList x es).map (settle s)
  | [] => rfl
  | e :: es => by simp [settleList, sitesList, sites_settle s e, sitesList_settle s es]

theorem sitesArm_settle (s : Substitution) : (a : TArm) →
    sitesArm x (settleArm s a) = (sitesArm x a).map (settle s)
  | .mk p (some g) b => by
    by_cases hp : x ∈ p.names <;>
      simp [settleArm, sitesArm, sites_settle s g, sites_settle s b, TPattern.names_settle, hp]
  | .mk p none b => by
    by_cases hp : x ∈ p.names <;>
      simp [settleArm, sitesArm, sites_settle s b, TPattern.names_settle, hp]

theorem sitesArms_settle (s : Substitution) : (as : List TArm) →
    sitesArms x (settleArms s as) = (sitesArms x as).map (settle s)
  | [] => rfl
  | a :: as => by simp [settleArms, sitesArms, sitesArm_settle s a, sitesArms_settle s as]

end

end TExpr

namespace Checker

/-- A site of a chain of functions is one of them, or a site of its body where none of them binds
the name. -/
theorem mem_sites_lambdaChain {x : String} {span : Span} {body : TExpr} {effects : Row}
    {bs : List Binder} {n : TExpr} (h : n ∈ (lambdaChain span body effects bs).sites x) :
    (∃ i b e, n = .lam i b e) ∨ (x ∉ bs.map (·.name) ∧ n ∈ body.sites x) := by
  induction bs with
  | nil => exact .inr ⟨List.not_mem_nil, h⟩
  | cons b bs ih =>
    have hrest : n ∈ (if b.name = x then [] else (lambdaChain span body effects bs).sites x) →
        (∃ i b e, n = .lam i b e) ∨ (x ∉ (b :: bs).map (·.name) ∧ n ∈ body.sites x) := by
      intro h
      split at h
      · cases h
      · rename_i hb
        refine (ih h).imp_right (And.imp_left fun hbs hx => ?_)
        exact (List.mem_cons.1 hx).elim (fun he => hb he.symm) hbs
    cases bs with
    | nil =>
      rcases List.mem_cons.1 h with rfl | h
      · exact .inl ⟨_, _, _, rfl⟩
      · exact hrest h
    | cons c bs =>
      rcases List.mem_cons.1 h with rfl | h
      · exact .inl ⟨_, _, _, rfl⟩
      · exact hrest h

/-! ## What actions bind -/

/-- Whether an action, unless something is at fault, binds names only that are told with its answer.
The names that were bound before are told with them. -/
structure Adds {α : Type} (before : List String) (m : CheckM α) (names : α → List String) :
    Prop where
  errors : ∀ c, c.unifier.errors <+: (m c).2.unifier.errors
  lookup : ∀ c, (m c).2.unifier.errors = [] → ∀ x ∉ names (m c).1,
    x ∉ before ∧ (m c).2.env.lookup x = c.env.lookup x

section

variable {α β : Type} {m : CheckM α} {f : α → CheckM β} {bs : List String} {ns : α → List String}
  {ns' : β → List String} {P : α → Prop}

theorem Adds.bind (h : Adds bs m ns) (hf : ∀ a, Adds (ns a) (f a) ns') : Adds bs (m >>= f) ns' where
  errors c := (h.errors c).trans ((hf (m c).1).errors (m c).2)
  lookup c he x hx := by
    have he' : (m c).2.unifier.errors = [] :=
      List.prefix_nil.1 (he ▸ (hf (m c).1).errors (m c).2)
    obtain ⟨hn, hlast⟩ := (hf (m c).1).lookup (m c).2 he x hx
    obtain ⟨hb, hfirst⟩ := h.lookup c he' x hn
    exact ⟨hb, hlast.trans hfirst⟩

theorem Adds.pure {a : α} (h : ∀ x ∈ bs, x ∈ ns a) : Adds bs (pure a) ns :=
  ⟨fun _ => List.prefix_refl _, fun _ _ x hx => ⟨fun hb => hx (h x hb), rfl⟩⟩

/-- An action that only adds to the errors and leaves the environment as it is. -/
theorem Adds.of_quiet (hm : Vouches m P) (hq : ∀ env : TypeEnv, Quiet env.globals env m) :
    Adds bs m fun _ => bs :=
  ⟨hm.errors, fun c _ x hx => ⟨hx, congrArg (TypeEnv.lookup · x) (hq c.env c rfl).2⟩⟩

/-- What follows an error may bind anything. -/
theorem Adds.of_fail {category : Category} {message : String} {span : Span} {f : Unit → CheckM β}
    (hf : ∀ c, c.unifier.errors <+: (f () c).2.unifier.errors) :
    Adds bs (fail category message span >>= f) ns' where
  errors c := ((fail_vouches category message span).errors c).trans (hf _)
  lookup c he := by
    have hreported : (fail category message span c).2.unifier.errors ≠ [] := by
      show c.unifier.errors ++ [Diagnostic.error category message span] ≠ []
      exact List.append_ne_nil_of_right_ne_nil _ (List.cons_ne_nil _ _)
    exact absurd (List.prefix_nil.1 (he ▸ hf _)) hreported

end

variable {r : Registries} {bs : List String}

theorem bindMono_adds (name : String) (t : Ty) :
    Adds bs (bindMono name t) fun _ => bs ++ [name] := by
  refine ⟨(modifyEnv_vouches _).errors, fun c _ x hx => ?_⟩
  rw [List.mem_append, not_or] at hx
  refine ⟨hx.1, (TypeEnv.lookup_bind ..).trans (if_neg fun he => hx.2 ?_)⟩
  exact List.mem_singleton.2 he.symm

theorem checkName_adds (name : Name) : Adds bs (checkName name) fun _ => bs :=
  .of_quiet (checkName_vouches name) fun _ => checkName_quiet name

theorem lift_adds {α : Type} {x : UnifyM α} (h : Unifier.AddsErrors x) :
    Adds bs (liftM x) fun _ => bs := .of_quiet (.lift h) fun _ => lift_quiet x

theorem bindParams_adds (ps : List Param) :
    Adds bs (bindParams r ps) fun ds => bs ++ ds.map (·.name) := by
  induction ps generalizing bs with
  | nil => exact .pure fun _ => List.mem_append_left _
  | cons p ps ih =>
    have hrest : ∀ t : Ty, Adds bs (do
        bindMono p.name.text t
        return ⟨p.name.text, p.name.span, t, none⟩ :: (← bindParams r ps))
        fun ds : List Binder => bs ++ ds.map (·.name) := by
      refine fun t => (bindMono_adds p.name.text t).bind fun _ => ih.bind fun ds => ?_
      exact .pure fun x hx => by simpa using hx
    unfold bindParams
    refine (checkName_adds p.name).bind fun _ => ?_
    dsimp only
    split
    · exact (Adds.of_quiet (resolving_vouches (TypeExpr.resolve_addsErrors ..))
        fun _ => resolving_quiet _).bind hrest
    · exact (lift_adds freshType_addsErrors).bind hrest

theorem bindPlaceholders_adds (ds : List ValueDecl) :
    Adds bs (bindPlaceholders ds) fun ps => bs ++ ps.map (·.1.name.text) := by
  induction ds generalizing bs with
  | nil => exact .pure fun _ => List.mem_append_left _
  | cons d ds ih =>
    unfold bindPlaceholders
    refine (lift_adds freshType_addsErrors).bind fun t => ?_
    refine (bindMono_adds d.name.text t).bind fun _ => ih.bind fun ps => ?_
    exact .pure fun x hx => by simpa using hx

/-! ## Patterns -/

theorem resolveCase_adds (name : String) (expected : Ty) (span : Span) :
    Adds bs (resolveCase r name expected span) fun _ => bs :=
  .of_quiet (resolveCase_vouches ..) fun _ => resolveCase_quiet fun _ _ => .inr rfl

theorem bindPatternName_adds (name : String) (expected : Ty) (span : Span) :
    Adds bs (bindPatternName name expected span) fun p => bs ++ p.names := by
  unfold bindPatternName
  refine (checkName_adds _).bind fun _ => (bindMono_adds name expected).bind fun _ => ?_
  exact .pure fun _ => id

mutual

/-- Unless something is at fault, a pattern binds the names of its checked form. -/
theorem inferPattern_adds : (p : Pattern) → (expected : Ty) → (own : Row) → (bs : List String) →
    Adds bs (inferPattern r p expected own) fun q => bs ++ q.1.names
  | .wild span, expected, own, bs => by
    unfold inferPattern
    exact .pure fun _ => List.mem_append_left _
  | .var span name, expected, own, bs => by
    have hfound : ∀ {m : Option (CaseTarget × Row) → CheckM (TPattern × Row)}
        {ns : TPattern × Row → List String}, (∀ found, Adds bs (m found) ns) →
        Adds bs (if Text.isCapitalized name then resolveCase r name expected span >>= m
          else pure none >>= m) ns := by
      intro m ns hm
      split
      · exact (resolveCase_adds name expected span).bind hm
      · exact hm none
    unfold inferPattern
    refine hfound fun found => ?_
    dsimp only
    split
    · exact (bindPatternName_adds name expected span).bind fun _ => .pure fun _ => id
    · split
      · exact .pure fun _ => List.mem_append_left _
      · exact .of_fail fun _ => List.prefix_refl _
  | .lit span value, expected, own, bs => by
    unfold inferPattern
    have hlit : Adds bs (checkLiteral value span) fun _ => bs :=
      .of_quiet (checkLiteral_vouches ..) fun _ => checkLiteral_quiet _ _
    refine hlit.bind fun _ => (lift_adds (unify_addsErrors ..)).bind fun _ => ?_
    exact .pure fun _ => List.mem_append_left _
  | .tuple span items, expected, own, bs => by
    unfold inferPattern
    refine (lift_adds (freshItems_addsErrors _)).bind fun types => ?_
    refine (lift_adds (unify_addsErrors ..)).bind fun _ => ?_
    exact (inferPatterns_adds items types own bs).bind fun _ => .pure fun _ => id
  | .ctor span name args, expected, own, bs => by
    unfold inferPattern
    refine (resolveCase_adds name expected span).bind fun found => ?_
    dsimp only
    split
    · exact .of_fail fun c => (bindOnly_vouches r args _).errors c
    · split
      · refine (inferPatterns_adds args _ _ bs).bind fun q => .pure fun x hx => ?_
        rwa [names_toPattern]
      · exact .of_fail fun c => (bindOnly_vouches r args _).errors c

theorem inferPatterns_adds : (ps : List Pattern) → (ts : List Ty) → (own : Row) →
    (bs : List String) → Adds bs (inferPatterns r ps ts own) fun q =>
      bs ++ (TPattern.bindingsList q.1).map (·.1)
  | [], ts, own, bs => by
    unfold inferPatterns
    exact .pure fun _ => List.mem_append_left _
  | _ :: _, [], own, bs => by
    unfold inferPatterns
    exact .pure fun _ => List.mem_append_left _
  | p :: ps, t :: ts, own, bs => by
    unfold inferPatterns
    refine (inferPattern_adds p t own bs).bind fun q => ?_
    refine (inferPatterns_adds ps ts q.2 _).bind fun s => .pure fun x hx => ?_
    simpa [TPattern.bindingsList, TPattern.names] using hx

end

end Checker

end RowCheck
