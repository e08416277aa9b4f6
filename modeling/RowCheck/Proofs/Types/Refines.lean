import RowCheck.Proofs.Types.Apply

/-!
How substitutions grow. One refines another if it keeps all equations that the other one has made;
so does every binding of an unbound variable and every shortcut along a chain.
-/
namespace RowCheck

open Relation

namespace Substitution

variable {s s' s'' : Substitution}

/-! ## Bindings -/

theorem getElem?_reach_join {α : Type} (a : Array (Option α)) (i j : Nat) :
    ((reach a i)[j]?).join = (a[j]?).join := by
  simp only [reach, Array.getElem?_append, Array.getElem?_replicate]
  by_cases hj : j < a.size
  · simp [hj]
  · rw [if_neg hj, Array.getElem?_eq_none (Nat.le_of_not_lt hj)]
    split <;> rfl

@[simp] theorem type?_bindType (s : Substitution) (v w : TyVar) (t : Ty) :
    (s.bindType v t).type? w = if v = w then some t else s.type? w := by
  simp only [type?, bindType, Array.getElem?_set]
  split
  · rfl
  · exact getElem?_reach_join s.types v w

@[simp] theorem row?_bindType (s : Substitution) (v : TyVar) (w : RowVar) (t : Ty) :
    (s.bindType v t).row? w = s.row? w := rfl

@[simp] theorem row?_bindRow (s : Substitution) (v w : RowVar) (r : Row) :
    (s.bindRow v r).row? w = if v = w then some r else s.row? w := by
  simp only [row?, bindRow, Array.getElem?_set]
  split
  · rfl
  · exact getElem?_reach_join s.rows v w

@[simp] theorem type?_bindRow (s : Substitution) (v : RowVar) (w : TyVar) (r : Row) :
    (s.bindRow v r).type? w = s.type? w := rfl

theorem size_rows_bindRow {v : RowVar} (h : v < s.rows.size) (r : Row) :
    (s.bindRow v r).rows.size = s.rows.size := by
  simp only [bindRow, reach, Array.size_set, Array.size_append, Array.size_replicate]
  rw [Nat.sub_eq_zero_of_le h, Nat.add_zero]

@[simp] theorem type?_freshType (s : Substitution) (w : TyVar) :
    s.freshType.2.type? w = s.type? w := by
  simp only [type?, freshType, Array.getElem?_push]
  split
  · rename_i h
    rw [h, Array.getElem?_eq_none (Nat.le_refl _)]
    rfl
  · rfl

@[simp] theorem row?_freshRow (s : Substitution) (w : RowVar) :
    s.freshRow.2.row? w = s.row? w := by
  simp only [row?, freshRow, Array.getElem?_push]
  split
  · rename_i h
    rw [h, Array.getElem?_eq_none (Nat.le_refl _)]
    rfl
  · rfl

/-! ## Refinement -/

/-- A substitution solves all equations that another one has made. -/
structure Refines (s s' : Substitution) : Prop where
  type : ∀ v t, s.type? v = some t → s'.apply (.var v) = s'.apply t
  row : ∀ v b, s.row? v = some b → s'.findRow (.ofVar v) = s'.findRow b

theorem Acyclic.refines_self (h : s.Acyclic) : s.Refines s :=
  ⟨fun _ _ => h.apply_var, fun _ _ => h.findRow_ofVar⟩

theorem Refines.findRow (h : s.Refines s') (hac : s.Acyclic) (r : Row) :
    s'.findRow (s.findRow r) = s'.findRow r := by
  have hvar : ∀ v, s'.findRow (s.findRow (.ofVar v)) = s'.findRow (.ofVar v) := by
    intro v
    induction v using hac.rowInduction with
    | _ v ih =>
      cases hv : s.row? v with
      | none => rw [findRow_unbound rfl hv]
      | some b =>
        rw [hac.findRow_ofVar hv, h.row v b hv]
        cases ht : b.tail with
        | none => rw [findRow_closed ht]
        | some w => rw [findRow_eq_extend ht, findRow_extend, ih b w hv ht, ← findRow_eq_extend ht]
  cases ht : r.tail with
  | none => rw [findRow_closed ht]
  | some v => rw [findRow_eq_extend ht, findRow_extend, hvar v, ← findRow_eq_extend ht]

theorem Refines.apply (h : s.Refines s') (hac : s.Acyclic) (t : Ty) :
    s'.apply (s.apply t) = s'.apply t := by
  have hvar : ∀ v, s'.apply (s.apply (.var v)) = s'.apply (.var v) := by
    intro v
    induction v using hac.typeInduction with
    | _ v ih =>
      cases hv : s.type? v with
      | none => rw [apply_unbound hv]
      | some t =>
        rw [hac.apply_var hv, h.type v t hv, s.apply_eq_mapVars, s'.apply_eq_mapVars,
          Ty.mapVars_mapVars, s'.apply_eq_mapVars t]
        exact Ty.mapVars_congr (ih t hv) (fun e _ => h.findRow hac e)
  rw [s.apply_eq_mapVars, s'.apply_eq_mapVars, Ty.mapVars_mapVars, s'.apply_eq_mapVars t]
  exact Ty.mapVars_congr (fun v _ => hvar v) (fun e _ => h.findRow hac e)

theorem Refines.trans (h : s.Refines s') (hac : s'.Acyclic) (h' : s'.Refines s'') :
    s.Refines s'' where
  type v t hv := by rw [← h'.apply hac, h.type v t hv, h'.apply hac]
  row v b hv := by rw [← h'.findRow hac, h.row v b hv, h'.findRow hac]

/-- Types that stand for the same go on to do so. -/
theorem Refines.apply_eq (h : s.Refines s') (hac : s.Acyclic) {a b : Ty}
    (hab : s.apply a = s.apply b) : s'.apply a = s'.apply b := by
  rw [← h.apply hac a, hab, h.apply hac]

/-- Bindings kept as they are keep all equations. -/
theorem Acyclic.refines_of_bound (hac : s'.Acyclic)
    (ht : ∀ v t, s.type? v = some t → s'.type? v = some t)
    (hr : ∀ v b, s.row? v = some b → s'.row? v = some b) : s.Refines s' :=
  ⟨fun v t h => hac.apply_var (ht v t h), fun v b h => hac.findRow_ofVar (hr v b h)⟩

theorem Acyclic.bindType (h : s.Acyclic) {v : TyVar} {t : Ty} (hv : s.type? v = none)
    (ht : v ∉ (s.apply t).vars) : (s.bindType v t).Acyclic := by
  refine ⟨h.types.link (v := v) ?_ ?_, h.rows⟩
  · rintro x y ⟨u, hu, hy⟩ hne
    rw [type?_bindType, if_neg (Ne.symm hne)] at hu
    exact ⟨u, hu, hy⟩
  · rintro w ⟨u, hu, hw⟩ hwv
    rw [type?_bindType, if_pos rfl] at hu
    cases hu
    refine ht ?_
    rw [apply_eq_mapVars, Ty.mem_vars_mapVars]
    exact ⟨w, hw, h.mem_vars_apply_of_reaches hwv hv⟩

theorem Acyclic.bindRow (h : s.Acyclic) {v : RowVar} {b : Row}
    (hb : ∀ w, b.tail = some w → s.row? w = none ∧ w ≠ v) : (s.bindRow v b).Acyclic := by
  refine ⟨h.types, h.rows.link (v := v) ?_ ?_⟩
  · rintro x y ⟨u, hu, hy⟩ hne
    rw [row?_bindRow, if_neg (Ne.symm hne)] at hu
    exact ⟨u, hu, hy⟩
  · rintro w ⟨u, hu, hw⟩ hwv
    rw [row?_bindRow, if_pos rfl] at hu
    cases hu
    obtain ⟨hnone, hne⟩ := hb w hw
    rcases ReflTransGen.cases_head hwv with e | ⟨x, ⟨u', hu', -⟩, -⟩
    · exact hne e
    · rw [hnone] at hu'
      cases hu'

theorem refines_bindType {v : TyVar} {t : Ty} (hv : s.type? v = none)
    (hac : (s.bindType v t).Acyclic) : s.Refines (s.bindType v t) := by
  refine hac.refines_of_bound (fun w u hw => ?_) (fun w b hw => hw)
  rw [type?_bindType, if_neg (fun e => by rw [e, hw] at hv; cases hv)]
  exact hw

theorem refines_bindRow {v : RowVar} {r : Row} (hv : s.row? v = none)
    (hac : (s.bindRow v r).Acyclic) : s.Refines (s.bindRow v r) := by
  refine hac.refines_of_bound (fun w u hw => hw) (fun w b hw => ?_)
  rw [row?_bindRow, if_neg (fun e => by rw [e, hw] at hv; cases hv)]
  exact hw

theorem Acyclic.congr (h : s.Acyclic) (ht : ∀ v, s'.type? v = s.type? v)
    (hr : ∀ v, s'.row? v = s.row? v) : s'.Acyclic := by
  have het : s'.TypeEdge = s.TypeEdge := by
    funext v w
    simp only [TypeEdge, ht]
  have her : s'.RowEdge = s.RowEdge := by
    funext v w
    simp only [RowEdge, hr]
  exact ⟨het ▸ h.types, her ▸ h.rows⟩

/-! ## Chains -/

/-- A chain of variables, each bound to the next, up to an unbound variable or a type that is no
variable. -/
inductive Chain (s : Substitution) : TyVar → List TyVar → Ty → Prop
  | unbound {v : TyVar} : s.type? v = none → Chain s v [] (.var v)
  | stop {v : TyVar} {t : Ty} : s.type? v = some t → (∀ w, t ≠ .var w) → Chain s v [v] t
  | next {v w : TyVar} {vs : List TyVar} {t : Ty} : s.type? v = some (.var w) → Chain s w vs t →
      Chain s v (v :: vs) t

theorem chain_of_rank {rank : TyVar → Nat} (hrank : ∀ v w, s.TypeEdge v w → rank w < rank v)
    {n : Nat} {v : TyVar} (hn : rank v < n) : s.Chain v (s.chain n v).1 (s.chain n v).2 := by
  induction n generalizing v with
  | zero => exact absurd hn (Nat.not_lt_zero _)
  | succ n ih =>
    unfold chain
    split
    · exact .unbound ‹_›
    · rename_i w hw
      refine .next hw (ih ?_)
      have := hrank v w ⟨_, hw, by simp [Ty.vars]⟩
      omega
    · rename_i t hne ht
      exact .stop ht fun w e => hne w e

theorem Chain.bound {v : TyVar} {vs : List TyVar} {t : Ty} (h : s.Chain v vs t) {w : TyVar}
    (hw : w ∈ vs) : ∃ u, s.type? w = some u ∧ (u = t ∨ ∃ x ∈ vs, u = .var x) := by
  induction h with
  | unbound _ => cases hw
  | @stop v t hv _ =>
    obtain rfl := List.mem_singleton.1 hw
    exact ⟨t, hv, .inl rfl⟩
  | @next v x vs t hv hc ih =>
    rcases List.mem_cons.1 hw with rfl | hw
    · refine ⟨_, hv, ?_⟩
      cases hc with
      | unbound _ => exact .inl rfl
      | stop _ _ | next _ _ => exact .inr ⟨x, by simp, rfl⟩
    · obtain ⟨u, hu, h⟩ := ih hw
      refine ⟨u, hu, h.imp_right ?_⟩
      exact fun ⟨y, hy, e⟩ => ⟨y, List.mem_cons_of_mem _ hy, e⟩

theorem Chain.start {v : TyVar} {vs : List TyVar} {t : Ty} (h : s.Chain v vs t) :
    t = .var v ∨ v ∈ vs := by
  cases h with
  | unbound _ => exact .inl rfl
  | stop _ _ | next _ _ => exact .inr List.mem_cons_self

theorem Chain.unbound_head {v w : TyVar} {vs : List TyVar} (h : s.Chain v vs (.var w)) :
    s.type? w = none := by
  generalize ht : Ty.var w = t at h
  induction h with
  | unbound hv => cases ht; exact hv
  | stop _ hne => exact absurd ht.symm (hne w)
  | next _ _ ih => exact ih ht

/-- The end of a chain is what one of its variables is bound to. -/
theorem Chain.head_bound {v : TyVar} {vs : List TyVar} {t : Ty} (h : s.Chain v vs t)
    (hne : vs ≠ []) : ∃ w, s.type? w = some t := by
  induction h with
  | unbound _ => exact absurd rfl hne
  | @stop v t hv _ => exact ⟨v, hv⟩
  | @next v w vs t hv hc ih =>
    cases hc with
    | unbound _ => exact ⟨v, hv⟩
    | stop _ _ | next _ _ => exact ih (by simp)

/-- From each variable of a chain one comes to what its end mentions. -/
theorem Chain.reaches {v : TyVar} {vs : List TyVar} {t : Ty} (h : s.Chain v vs t) {w x : TyVar}
    (hw : w ∈ vs) (hx : x ∈ t.vars) : TransGen s.TypeEdge w x := by
  induction h generalizing w with
  | unbound _ => cases hw
  | @stop v t hv _ =>
    obtain rfl := List.mem_singleton.1 hw
    exact .single ⟨t, hv, hx⟩
  | @next v y vs t hv hc ih =>
    rcases List.mem_cons.1 hw with rfl | hw
    · have hstep : s.TypeEdge w y := ⟨_, hv, by simp [Ty.vars]⟩
      cases hc with
      | unbound _ =>
        obtain rfl : x = y := by simpa [Ty.vars] using hx
        exact .single hstep
      | stop _ _ | next _ _ => exact .head hstep (ih List.mem_cons_self hx)
    · exact ih hw hx

/-- The substitution with all variables of a chain bound to its end. -/
def compress (s : Substitution) (vs : List TyVar) (t : Ty) : Substitution :=
  vs.foldl (fun s v => s.bindType v t) s

theorem type?_compress (s : Substitution) (vs : List TyVar) (t : Ty) (w : TyVar) :
    (s.compress vs t).type? w = if w ∈ vs then some t else s.type? w := by
  induction vs generalizing s with
  | nil => simp [compress]
  | cons v vs ih =>
    show ((s.bindType v t).compress vs t).type? w = _
    rw [ih]
    by_cases hw : w ∈ vs
    · simp [hw]
    · by_cases hv : v = w
      · simp [hv]
      · simp [hw, hv, Ne.symm hv]

@[simp] theorem rows_compress (s : Substitution) (vs : List TyVar) (t : Ty) :
    (s.compress vs t).rows = s.rows := by
  induction vs generalizing s with
  | nil => rfl
  | cons v vs ih => exact ih (s.bindType v t)

theorem row?_compress (s : Substitution) (vs : List TyVar) (t : Ty) (w : RowVar) :
    (s.compress vs t).row? w = s.row? w := by
  simp [row?]

theorem Chain.type?_compress_of_unbound {v : TyVar} {vs : List TyVar} {t : Ty}
    (hc : s.Chain v vs t) {w : TyVar} (hw : s.type? w = none) :
    (s.compress vs t).type? w = none := by
  rw [type?_compress, if_neg, hw]
  intro hmem
  obtain ⟨u, hu, -⟩ := hc.bound hmem
  rw [hw] at hu
  cases hu

theorem Chain.acyclic_compress {v : TyVar} {vs : List TyVar} {t : Ty} (hc : s.Chain v vs t)
    (h : s.Acyclic) : (s.compress vs t).Acyclic where
  types := by
    refine h.types.of_shortcuts ?_
    rintro x y ⟨u, hu, hy⟩
    rw [type?_compress] at hu
    split at hu
    · cases hu
      exact hc.reaches ‹_› hy
    · exact .single ⟨u, hu, hy⟩
  rows := by
    refine h.rows.of_shortcuts ?_
    rintro x y ⟨b, hb, hy⟩
    exact .single ⟨b, by rwa [row?_compress] at hb, hy⟩

theorem Chain.apply_compress {v : TyVar} {vs : List TyVar} {t : Ty} (hc : s.Chain v vs t)
    (h : s.Acyclic) {w : TyVar} (hw : w ∈ vs) :
    (s.compress vs t).apply (.var w) = (s.compress vs t).apply t :=
  (hc.acyclic_compress h).apply_var (by rw [type?_compress, if_pos hw])

theorem Chain.refines_compress {v : TyVar} {vs : List TyVar} {t : Ty} (hc : s.Chain v vs t)
    (h : s.Acyclic) : s.Refines (s.compress vs t) where
  type w u hu := by
    by_cases hw : w ∈ vs
    · rw [hc.apply_compress h hw]
      obtain ⟨u', hu', he⟩ := hc.bound hw
      obtain rfl : u = u' := Option.some.inj (hu.symm.trans hu')
      rcases he with rfl | ⟨x, hx, rfl⟩
      · rfl
      · exact (hc.apply_compress h hx).symm
    · exact (hc.acyclic_compress h).apply_var (by rwa [type?_compress, if_neg hw])
  row w b hb := (hc.acyclic_compress h).findRow_ofVar (by rwa [row?_compress])

/-- Looking up the head of a type is compressing the chain that it starts, if it is a variable. -/
theorem find_eq (h : s.Acyclic) (t : Ty) :
    (∃ v vs, t = .var v ∧ s.Chain v vs (s.find t).1 ∧ (s.find t).2 = s.compress vs (s.find t).1) ∨
    ((∀ v, t ≠ .var v) ∧ s.find t = (t, s)) := by
  cases t with
  | var v =>
    obtain ⟨rank, hrank, hle⟩ := h.exists_typeRank
    exact .inl ⟨v, _, rfl, chain_of_rank hrank (Nat.lt_succ_of_le (hle v)), rfl⟩
  | _ => exact .inr ⟨by simp, rfl⟩

/-- Substitutions with the same unbound variables stand for the same if one refines the other. -/
theorem Refines.apply_eq_apply (h : s.Refines s') (hac : s.Acyclic)
    (ht : ∀ v, s.type? v = none → s'.type? v = none)
    (hr : ∀ v, s.row? v = none → s'.row? v = none) (t : Ty) : s'.apply t = s.apply t := by
  rw [← h.apply hac]
  exact apply_eq_self (fun v hv => ht v (hac.type?_of_mem_vars_apply hv))
    (fun e he v hv => hr v (hac.row?_of_mem_effects_apply he hv))

theorem Acyclic.type?_eq_none_iff (h : s.Acyclic) {v : TyVar} :
    s.type? v = none ↔ s.apply (.var v) = .var v := by
  refine ⟨apply_unbound, fun hv => ?_⟩
  exact h.type?_of_mem_vars_apply (t := .var v) (by simp [hv, Ty.vars])

end Substitution

end RowCheck
