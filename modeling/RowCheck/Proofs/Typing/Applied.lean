import RowCheck.Proofs.Typing.Uses

/-!
The active patterns that a pattern applies, and the row that is gathered from them. Each application
adds the row of the function of the pattern, which is a variable then; and of two open rows only the
first keeps its tail. So what is gathered is the row of the first active pattern.
-/
namespace RowCheck

namespace TPattern

mutual

/-- The active patterns that a pattern applies, in the order of their applications. -/
def applied : TPattern → List String
  | wild .. | bind .. | lit .. => []
  | tuple _ _ items => appliedList items
  | variant _ _ _ _ args => appliedList args
  | active _ _ pattern _ args => pattern :: appliedList args

def appliedList : List TPattern → List String
  | [] => []
  | p :: ps => p.applied ++ appliedList ps

end

mutual

/-- Settling leaves the applications as they are. -/
theorem applied_settle (s : Substitution) : (p : TPattern) → (p.settle s).applied = p.applied
  | .wild .. | .bind .. | .lit .. => rfl
  | .tuple _ _ items => appliedList_settle s items
  | .variant _ _ _ _ args => appliedList_settle s args
  | .active _ _ pattern _ args => congrArg (pattern :: ·) (appliedList_settle s args)

theorem appliedList_settle (s : Substitution) : (ps : List TPattern) →
    appliedList (settleList s ps) = appliedList ps
  | [] => rfl
  | p :: ps => congrArg₂ (· ++ ·) (applied_settle s p) (appliedList_settle s ps)

end

/-- The names that a pattern binds. -/
def names (p : TPattern) : List String := p.bindings.map (·.1)

end TPattern

/-- The active pattern whose case it is, if any. -/
def CaseTarget.applied : CaseTarget → List String
  | variant .. => []
  | active pattern _ => [pattern]

namespace Row

theorem pure_union (e : Row) : pure.union e = e := by
  refine congrArg₂ Row.mk (SortedSet.ext_mem fun x => ?_) (Option.none_or ..)
  rw [SortedSet.mem_union]
  exact or_iff_right (SortedSet.not_mem_empty x)

/-- A row that is just a variable takes no other tail. -/
theorem ofVar_union (w : RowVar) {e : Row} (he : e.labels = ∅) : (ofVar w).union e = ofVar w := by
  refine congrArg₂ Row.mk (SortedSet.ext_mem fun x => ?_) rfl
  rw [SortedSet.mem_union, he]
  exact or_self_iff

end Row

namespace Unifier

variable {u u' : Unifier} {x : String} {o : Option Scheme} {xs ys : List String} {own e : Row}

/-- Whether a row is that of an arrow which a scheme, if there is one, gives to a use. -/
def Applies (u : Unifier) (o : Option Scheme) (e : Row) : Prop :=
  ∀ s ∈ o, u.Forces fun v => ∃ p q, (s.isMono = true → v.apply s.ty = .fn p q (v.findRow e)) ∧
    s.Instance (.fn p q (v.findRow e))

theorem Applies.leads (h : u.Applies o e) (hu : u.Leads u') : u'.Applies o e :=
  fun s hs => (h s hs).leads hu

/-- What is known of the row that is gathered from some active patterns, if a name has some scheme:
it is empty if there are none, and else a variable; and if the first has that name, it is the row of
a use. -/
def Heads (u : Unifier) (x : String) (o : Option Scheme) (xs : List String) (own : Row) : Prop :=
  match xs with
  | [] => own = .pure
  | y :: _ => (∃ w, own = .ofVar w) ∧ (y = x → u.Applies o own)

theorem Heads.leads (h : u.Heads x o xs own) (hu : u.Leads u') : u'.Heads x o xs own := by
  cases xs with
  | nil => exact h
  | cons y ys => exact ⟨h.1, fun hy => (h.2 hy).leads hu⟩

theorem Heads.labels_eq (h : u.Heads x o xs own) : own.labels = ∅ := by
  cases xs with
  | nil => exact congrArg Row.labels h
  | cons y ys =>
    obtain ⟨⟨w, rfl⟩, -⟩ := h
    rfl

/-- What is gathered later does not count. -/
theorem Heads.union (h : u.Heads x o xs own) (he : u.Heads x o ys e) :
    u.Heads x o (xs ++ ys) (own.union e) := by
  cases xs with
  | nil =>
    obtain rfl : own = .pure := h
    rw [Row.pure_union]
    exact he
  | cons y ys =>
    obtain ⟨⟨w, rfl⟩, happly⟩ := h
    rw [Row.ofVar_union w he.labels_eq]
    exact ⟨⟨w, rfl⟩, happly⟩

end Unifier

theorem TypeEnv.lookup_bindNames {env : TypeEnv} {x : String} {names : List (String × Ty × Span)}
    (hx : x ∉ names.map (·.1)) : (env.bindNames names).lookup x = env.lookup x := by
  induction names generalizing env with
  | nil => rfl
  | cons n names ih =>
    rw [List.map_cons, List.mem_cons, not_or] at hx
    refine (ih hx.2).trans ?_
    rw [TypeEnv.lookup_bind, if_neg (Ne.symm hx.1)]

namespace Checker

open Unifier

variable {r : Registries} {c c' : Checker} {x : String} {o : Option Scheme} {xs : List String}
  {own : Row}

/-- Whether a name has a scheme or has none, as long as nothing is at fault. -/
def Means (c : Checker) (x : String) (o : Option Scheme) : Prop :=
  c.unifier.errors = [] → c.env.lookup x = o

theorem Means.follows (h : c.Means x o) (hc : c.Follows c') : c'.Means x o := fun he => by
  rw [hc.env he]
  exact h (hc.errors_nil he)

/-- Other names do not matter. -/
theorem Means.bindNames (h : c.Means x o) (hc : c.Leads c') {names : List (String × Ty × Span)}
    (hx : x ∉ names.map (·.1)) (henv : c'.unifier.errors = [] → c'.env = c.env.bindNames names) :
    c'.Means x o := fun he => by
  rw [henv he, TypeEnv.lookup_bindNames hx]
  exact h (hc.errors_nil he)

/-- What is known of the row that is gathered, as long as nothing is at fault. -/
def Gathered (c : Checker) (x : String) (o : Option Scheme) (xs : List String) (own : Row) : Prop :=
  c.unifier.errors = [] → c.unifier.Heads x o xs own

theorem Gathered.leads (h : c.Gathered x o xs own) (hc : c.Leads c') : c'.Gathered x o xs own :=
  fun he => (h (hc.errors_nil he)).leads hc.unifier

/-! ## Applications -/

/-- The function of an active pattern is used at the type of its scheme. -/
theorem activeType_uses (hc : c.Sound) (hp : c.Proper) (p : ActivePattern) (span : Span)
    {m : Ty → CheckM (CaseTarget × Row)} {Q : CaseTarget × Row → Checker → Prop}
    (hm : ∀ t c', c.Follows c' → c'.unifier.Knows t ∧ (∃ s, c.env.lookup p.name = some s ∧
      (s.isMono = true → t = s.ty) ∧ ∀ v : Unifier, s.Instance (v.apply t)) ∨
      t = .error ∧ c.env.lookup p.name = none → c'.Stays (m t) Q) :
    c.Stays (match c.env.lookup p.name with
      | some s => liftM (s.instantiate span) >>= m
      | none => pure Ty.error >>= m) Q := by
  split
  · rename_i s hs
    refine .lift_bind hc (instantiate_gives hc.sound ⟨hc.env.lookup hs, fun he => ?_⟩ span)
      fun t c₁ h₁ ht => hm t c₁ h₁ (.inl ⟨ht.1, s, hs, ht.2⟩)
    exact hp he p.name s hs
  · rename_i hnone
    exact (Stays.pure hc (Q := fun t _ => t = .error) rfl).bind fun t c₁ h₁ ht =>
      hm t c₁ h₁ (.inr ⟨ht, hnone⟩)

theorem applyActive_gathers (hc : c.Sound) (hp : c.Proper) (p : ActivePattern) (name : String)
    {expected : Ty} (ht : c.unifier.Knows expected) (span : Span) :
    c.Stays (applyActive r p name expected span) (fun found c' =>
      found.1.applied = [p.name] ∧ ∀ x o, c.Means x o → c'.Gathered x o [p.name] found.2) := by
  unfold applyActive
  refine .get_bind (activeType_uses hc hp p span fun function c₁ h₁ hf => ?_)
  have hfresh := freshFunction_gives h₁.sound.sound
  refine .lift_bind h₁.sound (Q := fun parts u => (u.Knows parts.1 ∧ u.Knows parts.2.1 ∧
    parts.2.2.Below u.rowCount) ∧ ∃ w, parts.2.2 = .ofVar w) ⟨hfresh.1, hfresh.2, _, rfl⟩
    fun parts c₂ h₂ hparts => ?_
  obtain ⟨hparts, w, hw⟩ := hparts
  have hfn := knows_fn.2 hparts
  obtain ⟨hparam, hresult, heffects⟩ := hparts
  have happly : c₂.Stays (liftM (unify (.fn parts.1 parts.2.1 parts.2.2) function
      (.of span .application))) (fun _ c₃ => ∀ o, c.Means p.name o →
        c₃.unifier.errors = [] → c₃.unifier.Applies o parts.2.2) := by
    rcases hf with ⟨hf, s, hs, hmono, hinst⟩ | ⟨rfl, hnone⟩
    · refine (unify_stays h₂.sound hfn (hf.leads h₂.unifier) _).imp
        fun _ c₃ h₃ heq o ho he s' hs' => heq.imp fun v hv => ?_
      have hsome := ho (((h₁.trans h₂).trans h₃).errors_nil he)
      rw [hs, hs'] at hsome
      cases hsome
      have hinst := hinst v
      rw [← hv] at hinst
      exact ⟨_, _, fun hm => hmono hm ▸ hv.symm, hinst⟩
    · refine (Stays.lift (Q := fun _ _ => True) h₂.sound ((unify_error_leavesTypes ..).gives
        h₂.sound.sound ((Unifier.unify_does h₂.sound.sound.toValid hfn.below
          (Ty.below_of_effects_eq_nil rfl) _).imp fun _ _ _ _ => trivial))).imp
        fun _ c₃ h₃ _ o ho he s' hs' => ?_
      have hsome := ho (((h₁.trans h₂).trans h₃).errors_nil he)
      rw [hnone, hs'] at hsome
      cases hsome
  refine happly.bind fun _ c₃ h₃ hap => ?_
  refine (unify_stays h₃.sound (hparam.leads h₃.unifier)
    (ht.leads (h₁.trans (h₂.trans h₃)).unifier) _).bind fun _ c₄ h₄ _ => ?_
  refine (unify_stays h₄.sound (knows_named.2 (by simp))
    (hresult.leads (h₃.trans h₄).unifier) _).bind fun _ c₅ h₅ _ => .get_bind ?_
  refine (includeRow_stays h₅.sound (heffects.mono (h₃.trans (h₄.trans h₅)).unifier.rows) _).bind
    fun _ c₆ h₆ _ => .pure h₆.sound ⟨rfl, fun x o ho he => ⟨⟨w, hw⟩, ?_⟩⟩
  rintro rfl
  have h₃₆ := h₄.trans (h₅.trans h₆)
  exact (hap o ho (h₃₆.errors_nil he)).leads h₃₆.unifier

section

variable {α : Type} {m : CheckM α} {Q Q' : α → Checker → Prop}

theorem Stays.and (h : c.Stays m Q) (h' : c.Stays m Q') :
    c.Stays m (fun a c' => Q a c' ∧ Q' a c') := ⟨h.1, h.2, h'.2⟩

theorem Gives.and (h : c.Gives m Q) (h' : c.Gives m Q') :
    c.Gives m (fun a c' => Q a c' ∧ Q' a c') := ⟨h.1, h.2, h'.2⟩

end

theorem gathered_of_errors (h : c.unifier.errors ≠ []) : c.Gathered x o xs own :=
  fun he => absurd he h

/-- Finding out what a name of a constructor stands for applies at most the pattern whose case it
is. -/
theorem resolveCase_gathers (hc : c.Sound) (hp : c.Proper) (name : String) {expected : Ty}
    (ht : c.unifier.Knows expected) (span : Span) :
    c.Stays (resolveCase r name expected span) (fun found c' => ∀ f, found = some f →
      ∀ x o, c.Means x o → c'.Gathered x o f.1.applied f.2) := by
  unfold resolveCase
  refine .get_bind ?_
  split
  · rename_i target htarget
    refine .pure hc fun f hf x o _ _ => ?_
    cases hf
    obtain ⟨typeName, fields, rfl⟩ : ∃ typeName fields, target = .variant typeName fields := by
      unfold ownVariant? at htarget
      split at htarget
      · simp only [Option.bind_eq_bind, Option.bind_eq_some_iff, Option.pure_def,
          Option.some.injEq] at htarget
        obtain ⟨d, -, v, -, rfl⟩ := htarget
        exact ⟨_, _, rfl⟩
      · cases htarget
    rfl
  · split
    · rename_i p _
      refine (applyActive_gathers hc hp p name ht span).bind fun found c₁ h₁ hfound =>
        .pure h₁.sound fun f hf => ?_
      cases hf
      rw [hfound.1]
      exact hfound.2
    · split
      · exact .pure hc (by simp)
      · refine .lift_bind hc (freshTypes_gives hc.sound _) fun ts c₁ h₁ hts => ?_
        refine (unify_stays h₁.sound (ht.leads h₁.unifier)
          (knows_named.2 fun t ht => hts.2 t ht _) _).bind fun _ c₂ h₂ _ =>
            .pure h₂.sound fun f hf x o _ _ => ?_
        cases hf
        rfl

/-! ## Patterns -/

/-- Whether checking a pattern gathers what the pattern applies, whatever was gathered before. The
pattern must not bind the name in question. -/
def GathersPattern (r : Registries) (p : Pattern) : Prop :=
  ∀ (expected : Ty) (own : Row) ⦃c : Checker⦄, c.Sound → c.Proper → c.unifier.Knows expected →
    c.Gives (inferPattern r p expected own) (fun q c' => ∀ x o xs, c.Means x o →
      c.Gathered x o xs own → x ∉ q.1.names → c'.Gathered x o (xs ++ q.1.applied) q.2)

section

variable {span : Span} {ps : List Pattern}

theorem applied_toPattern (target : CaseTarget) (span : Span) (t : Ty) (name : String)
    (args : List TPattern) : (target.toPattern span t name args).applied =
      target.applied ++ TPattern.appliedList args := by
  cases target <;> rfl

theorem names_toPattern (target : CaseTarget) (span : Span) (t : Ty) (name : String)
    (args : List TPattern) : (target.toPattern span t name args).names =
      (TPattern.bindingsList args).map (·.1) := by
  cases target <;> rfl

theorem gathersPattern_wild (span : Span) : GathersPattern r (.wild span) := by
  intro expected own c hc hp ht
  rw [inferPattern]
  exact .pure hc fun x o xs _ hown _ => (List.append_nil xs).symm ▸ hown

theorem gathersPattern_lit (span : Span) (value : Literal) :
    GathersPattern r (.lit span value) := by
  intro expected own c hc hp ht
  rw [inferPattern]
  refine (checkLiteral_stays hc value span).gives.bind fun _ c₁ _ h₁ => ?_
  refine (unify_stays h₁.1.sound (ht.leads h₁.1.unifier) (knows_literal value) _).gives.bind
    fun _ c₂ _ h₂ => .pure h₂.1.sound fun x o xs _ hown _ => ?_
  exact (List.append_nil xs).symm ▸ hown.leads (h₁.1.trans h₂.1).toLeads

theorem gathersPattern_var (span : Span) (name : String) : GathersPattern r (.var span name) := by
  intro expected own c hc hp ht
  have hfound : ∀ {m : Option (CaseTarget × Row) → CheckM (TPattern × Row)}
      {Q : TPattern × Row → Checker → Prop},
      (∀ found c', c.Follows c' → (∀ f, found = some f → ∀ x o, c.Means x o →
        c'.Gathered x o f.1.applied f.2) → c'.Gives (m found) Q) →
      c.Gives (if Text.isCapitalized name then
        resolveCase r name expected span >>= m else pure none >>= m) Q := by
    intro m Q hm
    split
    · exact (resolveCase_gathers hc hp name ht span).gives.bind fun found c₁ _ h =>
        hm found c₁ h.1 h.2
    · exact hm none c hc.follows (by simp)
  rw [inferPattern]
  refine hfound fun found c₁ h₁ hf => ?_
  dsimp only
  split
  · have hbind := bindPatternName_gives (r := r) h₁.sound name (ht.leads h₁.unifier) span
    refine Gives.bind (Q := fun p _ => p.applied = []) ⟨hbind.1, rfl⟩ fun p c₂ h₂ happlied =>
      .pure h₂.sound fun x o xs _ hown _ => ?_
    rw [happlied, List.append_nil]
    exact hown.leads (h₁.toLeads.trans h₂)
  · rename_i target effects
    split
    · refine .pure h₁.sound fun x o xs hx hown _ he => ?_
      rw [applied_toPattern, TPattern.appliedList, List.append_nil]
      exact (hown.leads h₁.toLeads he).union (hf _ rfl x o hx he)
    · exact (fail_stays h₁.sound _ _ _).gives.bind fun _ _ h he =>
        .pure h.sound fun _ _ _ _ _ _ => gathered_of_errors he.2

theorem inferPatterns_gathers (hr : r.Defined) (hfree : r.ErrorFree)
    (h : ∀ p ∈ ps, GathersPattern r p) {ts : List Ty} (own : Row) (hc : c.Sound) (hp : c.Proper)
    (hlen : ps.length = ts.length) (ht : ∀ t ∈ ts, c.unifier.Knows t) :
    c.Gives (inferPatterns r ps ts own) (fun q c' => ∀ x o xs, c.Means x o →
      c.Gathered x o xs own → x ∉ (TPattern.bindingsList q.1).map (·.1) →
      c'.Gathered x o (xs ++ TPattern.appliedList q.1) q.2) := by
  induction ps generalizing c ts own with
  | nil =>
    unfold inferPatterns
    exact .pure hc fun x o xs _ hown _ => (List.append_nil xs).symm ▸ hown
  | cons p ps ih =>
    obtain ⟨t, ts, rfl⟩ := List.exists_cons_of_length_eq_add_one hlen.symm
    simp only [List.mem_cons, forall_eq_or_imp] at h ht
    unfold inferPatterns
    refine ((infersPattern hr hfree p t own hc hp ht.1).and (h.1 t own hc hp ht.1)).bind
      fun q c₁ h₁ hboth => ?_
    obtain ⟨hq, hgather⟩ := hboth
    refine (ih h.2 q.2 h₁.sound (hq.2.proper hp h₁) (Nat.succ.inj hlen)
      fun t h => (ht.2 t h).leads h₁.unifier).bind fun s c₂ h₂ hs =>
        .pure h₂.sound fun x o xs hx hown hn => ?_
    rw [TPattern.bindingsList, List.map_append, List.mem_append, not_or] at hn
    rw [TPattern.appliedList, ← List.append_assoc]
    refine hs x o _ (hx.bindNames h₁ ?_ hq.2.env) (hgather x o xs hx hown hn.1) hn.2
    rw [TPattern.bindingsList, TPattern.bindingsList, List.append_nil]
    exact hn.1

theorem gathersPattern_tuple (hr : r.Defined) (hfree : r.ErrorFree)
    (h : ∀ p ∈ ps, GathersPattern r p) : GathersPattern r (.tuple span ps) := by
  intro expected own c hc hp ht
  rw [inferPattern]
  refine (Stays.lift hc (freshItems_gives hc.sound ps)).gives.bind fun ts c₁ _ h₁ => ?_
  obtain ⟨h₁, hlen, hts⟩ := h₁
  refine (unify_stays h₁.sound (ht.leads h₁.unifier) (knows_tuple.2 fun t ht => hts t ht _)
    _).gives.bind fun _ c₂ _ h₂ => ?_
  have h₁₂ := h₁.trans h₂.1
  refine (inferPatterns_gathers hr hfree h own h₂.1.sound (hp.follows h₁₂) hlen.symm
    (fun t ht => hts t ht _)).bind fun q c₃ h₃ hq => .pure h₃.sound fun x o xs hx hown hn => ?_
  exact hq x o xs (hx.follows h₁₂) (hown.leads h₁₂.toLeads) hn

theorem gathersPattern_ctor (hr : r.Defined) (hfree : r.ErrorFree) (name : String)
    (h : ∀ p ∈ ps, GathersPattern r p) : GathersPattern r (.ctor span name ps) := by
  intro expected own c hc hp ht
  have hknown : ∀ p ∈ ps, InfersPattern r p := infersPatterns hr hfree ps
  rw [inferPattern]
  refine ((resolveCase_stays hr hfree hc hp name ht span).and
    (resolveCase_gathers hc hp name ht span)).gives.bind fun found c₁ _ h₁ => ?_
  obtain ⟨h₁, hfound, hgather⟩ := h₁
  split
  · refine (fail_stays h₁.sound _ _ _).gives.bind fun _ c₂ h₂ he => ?_
    refine (bindOnly_gives hknown own h₂.sound he.2).bind fun _ c₃ h₃ _ =>
      .pure h₃.sound fun _ _ _ _ _ _ => gathered_of_errors fun he' => he.2 (h₃.errors_nil he')
  · rename_i target effects
    split
    · rename_i hlen
      refine (inferPatterns_gathers hr hfree h _ h₁.sound (hp.follows h₁) hlen.symm
        (hfound _ rfl).fields).bind fun q c₂ h₂ hq => .pure h₂.sound fun x o xs hx hown hn => ?_
      rw [names_toPattern] at hn
      rw [applied_toPattern, ← List.append_assoc]
      refine hq x o _ (hx.follows h₁) (fun he => ?_) hn
      exact (hown.leads h₁.toLeads he).union (hgather _ rfl x o hx he)
    · refine (fail_stays h₁.sound _ _ _).gives.bind fun _ c₂ h₂ he => ?_
      refine (bindOnly_gives hknown _ h₂.sound he.2).bind fun _ c₃ h₃ _ =>
        .pure h₃.sound fun _ _ _ _ _ _ => gathered_of_errors fun he' => he.2 (h₃.errors_nil he')

end

mutual

/-- Checking a pattern gathers what it applies. -/
theorem gathersPattern (hr : r.Defined) (hfree : r.ErrorFree) : (p : Pattern) → GathersPattern r p
  | .wild span => gathersPattern_wild span
  | .var span name => gathersPattern_var span name
  | .lit span value => gathersPattern_lit span value
  | .tuple _ items => gathersPattern_tuple hr hfree (gathersPatterns hr hfree items)
  | .ctor _ name args => gathersPattern_ctor hr hfree name (gathersPatterns hr hfree args)

theorem gathersPatterns (hr : r.Defined) (hfree : r.ErrorFree) : (ps : List Pattern) →
    ∀ p ∈ ps, GathersPattern r p
  | [] => List.forall_mem_nil _
  | p :: ps => List.forall_mem_cons.2 ⟨gathersPattern hr hfree p, gathersPatterns hr hfree ps⟩

end

end Checker

end RowCheck
