import RowCheck.Proofs.Principal.Schemes
import RowCheck.Proofs.Typing.Context

/-!
Environments of the functional core against assumptions. A local name that was generalized has the
types that a general assumption of it has: whoever renames the quantified variables apart may assume
its scheme, and whatever general type may be assumed of a value is one of those that were found.
-/
namespace RowCheck

namespace TypeEnv

variable {D : TyVar → Prop} {u u' : Unifier} {env : TypeEnv} {name : String} {s : Scheme}

theorem mem_of_lookup (h : env.lookup name = some s) :
    s ∈ env.locals ∨ env.globals.get? name = some s := by
  unfold lookup at h
  split at h
  · rename_i s' hs
    cases h
    obtain ⟨scope, hscope, hget⟩ := List.exists_of_findSome?_eq_some hs
    refine .inl (List.mem_flatMap.2 ⟨scope, hscope, ?_⟩)
    obtain ⟨e, he, rfl⟩ := Option.map_eq_some_iff.1 hget
    exact List.mem_map_of_mem (List.mem_of_find?_eq_some he)
  · exact .inr h

theorem mem_locals_bind {s' : Scheme} (h : s' ∈ (env.bind name s).locals) :
    s' = s ∨ s' ∈ env.locals := by
  have hinsert : ∀ {scope : SortedMap String Scheme}, s' ∈ (scope.insert name s).values →
      s' = s ∨ s' ∈ scope.values := by
    intro scope h
    obtain ⟨e, he, rfl⟩ := List.mem_map.1 h
    rcases SortedMap.key_of_mem_insertList he with rfl | he
    · exact .inl rfl
    · exact .inr (List.mem_map_of_mem he)
  unfold bind at h
  split at h
  · simp only [locals, List.flatMap_cons, List.flatMap_nil, List.append_nil] at h
    exact (hinsert h).imp_right fun h => absurd h List.not_mem_nil
  · rename_i scope rest hscopes
    simp only [locals, List.flatMap_cons, List.mem_append] at h
    rcases h with h | h
    · refine (hinsert h).imp_right fun h => ?_
      simp only [locals, hscopes, List.flatMap_cons, List.mem_append]
      exact .inl h
    · refine .inr ?_
      simp only [locals, hscopes, List.flatMap_cons, List.mem_append]
      exact .inr h

@[simp] theorem locals_pushScope (env : TypeEnv) : env.pushScope.locals = env.locals := rfl

/-- Whether an environment is one of the functional core: the schemes of global names are closed, the
free variables of those of local names are live and the quantified ones dead and unbound. -/
structure Sits (D : TyVar → Prop) (u : Unifier) (env : TypeEnv) : Prop where
  locals : ∀ s ∈ env.locals, s.Sits D u
  quantified : ∀ s ∈ env.locals, ∀ v ∈ s.typeVars, D v ∧ u.substitution.type? v = none
  globals : ∀ x s, env.globals.get? x = some s → s.PlainClosed

theorem Sits.pursues (h : env.Sits D u) (hu : Unifier.Pursues D u u') : env.Sits D u' where
  locals s hs := (h.locals s hs).pursues hu
  quantified s hs v hv := ⟨(h.quantified s hs v hv).1,
    (hu.dead v (h.quantified s hs v hv).1).trans (h.quantified s hs v hv).2⟩
  globals := h.globals

theorem Sits.of_lookup (h : env.Sits D u) (hs : env.lookup name = some s) : s.Sits D u := by
  rcases mem_of_lookup hs with hs | hs
  · exact h.locals s hs
  · exact (h.globals name s hs).sits D u

theorem Sits.pushScope (h : env.Sits D u) : env.pushScope.Sits D u :=
  ⟨h.locals, h.quantified, h.globals⟩

theorem Sits.bind (h : env.Sits D u) (name : String) (hs : s.Sits D u)
    (hq : ∀ v ∈ s.typeVars, D v ∧ u.substitution.type? v = none) : (env.bind name s).Sits D u where
  locals s' hs' := by
    rcases mem_locals_bind hs' with rfl | hs'
    · exact hs
    · exact h.locals s' hs'
  quantified s' hs' := by
    rcases mem_locals_bind hs' with rfl | hs'
    · exact hq
    · exact h.quantified s' hs'
  globals x s' hs' := h.globals x s' (by
    unfold TypeEnv.bind at hs'
    split at hs' <;> exact hs')

/-- Whether an environment has all types of what is assumed under an assignment, and fixes no
variable that the assumptions leave free. -/
structure Covers (f : TyVar → Ty) (env : TypeEnv) (Γ : Assumptions) : Prop where
  uses : ∀ x a, Γ.lookup x = some a →
    ∃ s, env.lookup x = some s ∧ ∀ t, a.Admits t → s.AdmitsAt f t
  fixed : ∀ s ∈ env.locals, ∀ v ∈ s.ty.vars, v ∉ s.typeVars → ∀ w ∈ (f v).vars, Γ.Fixes w

end TypeEnv

namespace Assumptions

variable {D : TyVar → Prop} {u : Unifier} {env : TypeEnv} {Γ : Assumptions} {f g : TyVar → Ty}
  {name : String} {s a : Scheme}

theorem lookup_cons (name x : String) (a : Scheme) (Γ : Assumptions) :
    List.lookup x ((name, a) :: Γ) = if name = x then some a else Γ.lookup x := by
  rw [List.lookup_cons]
  by_cases hx : name = x
  · simp [hx]
  · rw [if_neg hx, beq_eq_false_iff_ne.2 (Ne.symm hx)]

theorem Fixes.cons {v : TyVar} (h : Γ.Fixes v) (e : String × Scheme) :
    Fixes (e :: Γ) v := by
  obtain ⟨b, hb, hv⟩ := h
  exact ⟨b, List.mem_cons_of_mem _ hb, hv⟩

/-- Whether what is assumed has all types of an environment under an assignment. -/
def Covers (f : TyVar → Ty) (Γ : Assumptions) (env : TypeEnv) : Prop :=
  ∀ x s, env.lookup x = some s → ∃ a, Γ.lookup x = some a ∧ ∀ t, s.AdmitsAt f t → a.Admits t

theorem Covers.pushScope (h : Γ.Covers f env) : Γ.Covers f env.pushScope := by
  simpa only [Covers, TypeEnv.lookup_pushScope] using h

theorem Covers.bind (h : Γ.Covers f env) (name : String)
    (hs : ∀ t, s.AdmitsAt f t → a.Admits t) : Covers f ((name, a) :: Γ) (env.bind name s) := by
  intro x s' hs'
  rw [TypeEnv.lookup_bind] at hs'
  rw [lookup_cons]
  split at hs'
  · cases hs'
    exact ⟨a, if_pos ‹_›, hs⟩
  · rw [if_neg ‹_›]
    exact h x s' hs'

/-- Only what the free variables of local names stand for matters. -/
theorem Covers.congr (h : Γ.Covers f env) (henv : env.Sits D u)
    (hfg : ∀ s ∈ env.locals, ∀ v ∈ s.ty.vars, v ∉ s.typeVars → g v = f v) : Γ.Covers g env := by
  intro x s hs
  obtain ⟨a, ha, hadmits⟩ := h x s hs
  refine ⟨a, ha, fun t ht => hadmits t (ht.congr fun v hv hfree => ?_)⟩
  rcases TypeEnv.mem_of_lookup hs with hs | hs
  · exact hfg s hs v hv hfree
  · exact absurd ((henv.globals x s hs).types v hv) hfree

end Assumptions

namespace TypeEnv.Covers

variable {env : TypeEnv} {Γ : Assumptions} {f g : TyVar → Ty} {name : String} {s a : Scheme}

theorem pushScope (h : env.Covers f Γ) : env.pushScope.Covers f Γ := by
  refine ⟨?_, h.fixed⟩
  simpa only [TypeEnv.lookup_pushScope] using h.uses

theorem bind (h : env.Covers f Γ) (name : String) (hs : ∀ t, a.Admits t → s.AdmitsAt f t)
    (hfixed : ∀ v ∈ s.ty.vars, v ∉ s.typeVars → ∀ w ∈ (f v).vars,
      Assumptions.Fixes ((name, a) :: Γ) w) :
    (env.bind name s).Covers f ((name, a) :: Γ) where
  uses x b hb := by
    rw [Assumptions.lookup_cons] at hb
    rw [TypeEnv.lookup_bind]
    split at hb
    · cases hb
      exact ⟨s, if_pos ‹_›, hs⟩
    · rw [if_neg ‹_›]
      exact h.uses x b hb
  fixed s' hs' v hv hfree w hw := by
    rcases TypeEnv.mem_locals_bind hs' with rfl | hs'
    · exact hfixed v hv hfree w hw
    · exact (h.fixed s' hs' v hv hfree w hw).cons _

/-- Only what is assigned to the variables that were made matters. -/
theorem congr {D : TyVar → Prop} {u : Unifier} (h : env.Covers f Γ) (henv : env.Sits D u)
    (hfg : ∀ v < u.typeCount, g v = f v) : env.Covers g Γ where
  uses x a ha := by
    obtain ⟨s, hs, hadmits⟩ := h.uses x a ha
    refine ⟨s, hs, fun t ht => (hadmits t ht).congr fun v hv hfree => ?_⟩
    exact (hfg v ((henv.of_lookup hs).free v hv hfree).1).symm
  fixed s hs v hv hfree := by
    rw [hfg v ((henv.locals s hs).free v hv hfree).1]
    exact h.fixed s hs v hv hfree

end TypeEnv.Covers

namespace Unifier

variable {D : TyVar → Prop} {u : Unifier} {env : TypeEnv} {t : Ty} {f : TyVar → Ty} {Γ : Assumptions}

/-! ## Generalizing a local name -/

/-- The scheme of a local name of a type. -/
def general (u : Unifier) (env : TypeEnv) (t : Ty) : Scheme :=
  ⟨((u.apply t).freeVars.diff (env.freeVars u.substitution)).toList, [], ∅, u.apply t⟩

/-- No variable has a bound. -/
theorem Tidy.filter_numeric (hu : u.Tidy D) (vs : SortedSet TyVar) :
    vs.filter (fun v => u.numeric.contains v) = ∅ := by
  refine SortedSet.ext_mem fun v => ?_
  rw [hu.numeric]
  simp [SortedMap.contains]

/-- Generalizing within a body changes nothing. -/
theorem generalize_local (hu : u.Tidy D) (t : Ty) (env : TypeEnv) :
    generalize t env false u = (u.general env t, u) := by
  show ((⟨_, [], _, _⟩ : Scheme), u) = _
  rw [hu.filter_numeric]
  rfl

theorem mem_general {v : TyVar} : v ∈ (u.general env t).typeVars ↔
    v ∈ (u.apply t).vars ∧ v ∉ env.freeVars u.substitution := by
  show v ∈ ((u.apply t).freeVars.diff (env.freeVars u.substitution)).toList ↔ _
  rw [← SortedSet.mem_def, SortedSet.mem_diff, Ty.freeVars, SortedSet.mem_ofList]

/-- What the free variables of local names stand for is fixed, and nothing else is. -/
theorem mem_freeVars_iff (hu : u.Tidy D) (henv : env.Sits D u) {w : TyVar} :
    w ∈ env.freeVars u.substitution ↔ ∃ s ∈ env.locals, ∃ v ∈ s.ty.vars, v ∉ s.typeVars ∧
      w ∈ (u.apply (.var v)).vars := by
  rw [TypeEnv.mem_freeVars]
  constructor
  · rintro ⟨s, hs, hw, hfree⟩
    rw [Substitution.apply_eq_mapVars, Ty.mem_vars_mapVars] at hw
    obtain ⟨v, hv, hw⟩ := hw
    refine ⟨s, hs, v, hv, fun hq => hfree ?_, hw⟩
    rw [Substitution.apply_unbound (henv.quantified s hs v hq).2] at hw
    exact List.mem_singleton.1 hw ▸ hq
  · rintro ⟨s, hs, v, hv, hfree, hw⟩
    refine ⟨s, hs, ?_, fun hq => ?_⟩
    · rw [Substitution.apply_eq_mapVars, Ty.mem_vars_mapVars]
      exact ⟨v, hv, hw⟩
    · have hlive := hu.live_apply (Ty.live_var.2 ((henv.locals s hs).free v hv hfree))
      exact (hlive.vars w hw).2 (henv.quantified s hs w hq).1

/-- The variables that are dead once some variables are quantified: those that stand for a type that
mentions one. -/
def Dead (D : TyVar → Prop) (u : Unifier) (vs : List TyVar) (v : TyVar) : Prop :=
  D v ∨ v < u.typeCount ∧ ∃ w ∈ (u.apply (.var v)).vars, w ∈ vs

theorem Tidy.dead_general (hu : u.Tidy D) (vs : List TyVar) : u.Tidy (Dead D u vs) where
  toValid := hu.toValid
  numeric := hu.numeric
  rows := hu.rows
  bound v t hv ht := by
    obtain ⟨hlt, hlive⟩ := Ty.live_var.1 hv
    have h := hu.bound v t (Ty.live_var.2 ⟨hlt, fun hd => hlive (.inl hd)⟩) ht
    refine ⟨fun w hw => ⟨(h.vars w hw).1, ?_⟩, h.effects, h.proper⟩
    rintro (hd | ⟨-, x, hx, hq⟩)
    · exact (h.vars w hw).2 hd
    · refine hlive (.inr ⟨hlt, x, ?_, hq⟩)
      rw [apply, hu.acyclic.apply_var ht, Substitution.apply_eq_mapVars, Ty.mem_vars_mapVars]
      exact ⟨w, hw, hx⟩
  dead v hv := hv.elim (hu.dead v) fun h => h.1
  made := hu.made
  waiting := hu.waiting

/-- The surroundings stay live when the variables that they do not fix are quantified. -/
theorem sits_dead_general (hu : u.Tidy D) (henv : env.Sits D u) (t : Ty) :
    env.Sits (Dead D u (u.general env t).typeVars) u where
  locals s hs := by
    refine ⟨(henv.locals s hs).toPlain, fun v hv hfree => ?_, (henv.locals s hs).below⟩
    obtain ⟨hlt, hlive⟩ := (henv.locals s hs).free v hv hfree
    refine ⟨hlt, ?_⟩
    rintro (hd | ⟨-, w, hw, hq⟩)
    · exact hlive hd
    · exact (mem_general.1 hq).2 ((mem_freeVars_iff hu henv).2 ⟨s, hs, v, hv, hfree, hw⟩)
  quantified s hs v hv := ⟨.inl (henv.quantified s hs v hv).1, (henv.quantified s hs v hv).2⟩
  globals := henv.globals

/-- A variable that a type stands for by itself is unbound. -/
theorem Tidy.apply_of_mem (hu : u.Tidy D) {w : TyVar} (hw : w ∈ (u.apply t).vars) :
    u.apply (.var w) = .var w ∧ u.substitution.type? w = none :=
  ⟨Substitution.apply_unbound (hu.acyclic.type?_of_mem_vars_apply hw),
    hu.acyclic.type?_of_mem_vars_apply hw⟩

theorem general_sits (hu : u.Tidy D) (ht : u.Owns D t) (env : TypeEnv) :
    (u.general env t).Sits (Dead D u (u.general env t).typeVars) u ∧
      ∀ v ∈ (u.general env t).typeVars, Dead D u (u.general env t).typeVars v ∧
        u.substitution.type? v = none := by
  have hlive := hu.live_apply ht.live
  refine ⟨⟨⟨rfl, hlive.effects, hlive.proper⟩, fun v hv hfree => ⟨(hlive.vars v hv).1, ?_⟩, fun e he v hv =>
    .inr (hu.substitution.apply_below ht.below e he v hv)⟩, fun v hv => ?_⟩
  · rintro (hd | ⟨-, w, hw, hq⟩)
    · exact (hlive.vars v hv).2 hd
    · rw [(hu.apply_of_mem hv).1] at hw
      exact hfree (List.mem_singleton.1 hw ▸ hq)
  · have hmem := (mem_general.1 hv).1
    refine ⟨.inr ⟨(hlive.vars v hmem).1, v, ?_, hv⟩, (hu.apply_of_mem hmem).2⟩
    rw [(hu.apply_of_mem hmem).1]
    exact List.mem_singleton_self v

/-- The scheme of a value may be assumed: with names for the quantified variables that are new to the
assumptions, the value has a type of which all types of the scheme are instances. -/
theorem exists_general_of_covers (hu : u.Tidy D) (henv : env.Sits D u) (t : Ty) (hf : u.Allows f)
    (hΓ : Γ.Covers f env) :
    ∃ (g : TyVar → Ty) (vs : List TyVar), u.Allows g ∧ Γ.Covers g env ∧ (∀ v ∈ vs, ¬ Γ.Fixes v) ∧
      ∀ τ, (u.general env t).AdmitsAt f τ → Scheme.Admits ⟨vs, [], ∅, t.under g⟩ τ := by
  -- all that is free in the assumptions, or that a variable of the type stands for, is below `n`
  obtain ⟨n, hn⟩ : ∃ n, ∀ v ∈ Γ.flatMap (·.2.ty.vars) ++ (u.apply t).vars.flatMap (fun w => (f w).vars),
      v < n := by
    generalize Γ.flatMap (·.2.ty.vars) ++ (u.apply t).vars.flatMap (fun w => (f w).vars) = l
    induction l with
    | nil => exact ⟨0, nofun⟩
    | cons v l ih =>
      obtain ⟨n, hn⟩ := ih
      refine ⟨max n (v + 1), ?_⟩
      rw [List.forall_mem_cons]
      exact ⟨(Nat.lt_succ_self v).trans_le (Nat.le_max_right ..),
        fun w hw => (hn w hw).trans_le (Nat.le_max_left ..)⟩
  have hassumed : ∀ v, Γ.Fixes v → v < n := fun v ⟨a, ha, hv⟩ =>
    hn v (List.mem_append_left _ (List.mem_flatMap.2 ⟨a, ha, hv.1⟩))
  have hassigned : ∀ w ∈ (u.apply t).vars, ∀ v ∈ (f w).vars, v < n := fun w hw v hv =>
    hn v (List.mem_append_right _ (List.mem_flatMap.2 ⟨w, hw, hv⟩))
  let apart (w : TyVar) : Ty := if w ∈ (u.general env t).typeVars then .var (n + w) else f w
  refine ⟨fun v => (u.apply (.var v)).under apart, (u.general env t).typeVars.map (n + ·),
    hu.toValid.allows apart, hΓ.congr henv fun s hs v hv hfree => ?_, fun v hv hfix => ?_, ?_⟩
  · rw [← Ty.under_var (f := f) v, ← hf.under_apply hu.toValid]
    refine Ty.under_congr fun w hw => if_neg fun hq => (mem_general.1 hq).2 ?_
    exact (mem_freeVars_iff hu henv).2 ⟨s, hs, v, hv, hfree, hw⟩
  · obtain ⟨q, -, rfl⟩ := List.mem_map.1 hv
    exact absurd (hassumed _ hfix) (Nat.not_lt.2 (Nat.le_add_right n q))
  · rintro τ ⟨k, hk, rfl⟩
    refine ⟨fun v => if v ∈ (u.general env t).typeVars.map (n + ·) then k (v - n) else .var v,
      fun v hv => if_neg hv, ?_⟩
    show (u.apply t).under k = Ty.mapVars _ id (t.under _)
    rw [under_apply_var, Ty.mapVars_under]
    refine Ty.under_congr fun w hw => ?_
    dsimp only [apart]
    by_cases hq : w ∈ (u.general env t).typeVars
    · have hmem : n + w ∈ (u.general env t).typeVars.map (n + ·) := List.mem_map_of_mem hq
      rw [if_pos hq, Ty.mapVars, if_pos hmem, Nat.add_sub_cancel_left]
    · rw [if_neg hq, hk w hw hq]
      refine (Ty.mapVars_eq_self (fun v hv => if_neg fun hmem => ?_) fun _ _ => rfl).symm
      obtain ⟨q, -, rfl⟩ := List.mem_map.1 hmem
      exact absurd (hassigned w hw _ hv) (Nat.not_lt.2 (Nat.le_add_right n q))

/-- What is not quantified stands for what the assumptions fix. -/
theorem fixes_of_covers (hu : u.Tidy D) (henv : env.Sits D u) (hf : u.Allows f)
    (hΓ : env.Covers f Γ) {w : TyVar} (hw : w ∈ (u.general env t).ty.vars)
    (hq : w ∉ (u.general env t).typeVars) {x : TyVar} (hx : x ∈ (f w).vars) : Γ.Fixes x := by
  have hfixed : w ∈ env.freeVars u.substitution := by
    by_contra hfree
    exact hq (mem_general.2 ⟨hw, hfree⟩)
  obtain ⟨s, hs, v, hv, hfree, hmem⟩ := (mem_freeVars_iff hu henv).1 hfixed
  refine hΓ.fixed s hs v hv hfree x ?_
  rw [← Ty.under_var (f := f) v, ← hf.under_apply hu.toValid]
  exact Ty.mem_vars_under.2 ⟨w, hmem, hx⟩

/-- Every general type that may be assumed of a value is one of those that its scheme has. -/
theorem admitsAt_general (hu : u.Tidy D) (henv : env.Sits D u) (hf : u.Allows f)
    (hΓ : env.Covers f Γ) {vs : List TyVar} (hvs : ∀ v ∈ vs, ¬ Γ.Fixes v) {τ : Ty}
    (hτ : Scheme.Admits ⟨vs, [], ∅, t.under f⟩ τ) : (u.general env t).AdmitsAt f τ := by
  obtain ⟨σ, hσ, rfl⟩ := hτ
  refine ⟨fun w => (f w).mapVars σ id, fun w hw hq => ?_, ?_⟩
  · refine Ty.mapVars_eq_self (fun x hx => hσ x fun hmem => hvs x hmem ?_) fun _ _ => rfl
    exact fixes_of_covers hu henv hf hΓ hw hq hx
  · show Ty.mapVars σ id (t.under f) = _
    rw [← hf.under_apply hu.toValid, Ty.mapVars_under]
    rfl

end Unifier

end RowCheck
