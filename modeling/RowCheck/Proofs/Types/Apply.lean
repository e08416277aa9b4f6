import RowCheck.Proofs.Types.Loopless
import RowCheck.Proofs.Types.Ty
import RowCheck.Types.Substitution

/-!
What a substitution without cycles stands for. Its fuel is always enough, so applying it is given by
equations: a bound variable stands for what it is bound to, and what is left has unbound variables
only.
-/
namespace RowCheck

open Relation

theorem SortedSet.isEmpty_diff {s t : SortedSet String} :
    (s.diff t).isEmpty = true ↔ ∀ x ∈ s, x ∈ t := by
  simp only [isEmpty, List.isEmpty_iff, List.eq_nil_iff_forall_not_mem, ← mem_def, mem_diff,
    not_and, not_not]

namespace Row

/-- A row with further labels. -/
def extend (r : Row) (l : SortedSet String) : Row := ⟨l.union r.labels, r.tail⟩

@[simp] theorem extend_tail (r : Row) (l : SortedSet String) : (r.extend l).tail = r.tail := rfl

@[simp] theorem mem_extend {r : Row} {l : SortedSet String} {x : String} :
    x ∈ (r.extend l).labels ↔ x ∈ l ∨ x ∈ r.labels := SortedSet.mem_union

theorem ext_mem {r s : Row} (hl : ∀ x, x ∈ r.labels ↔ x ∈ s.labels) (ht : r.tail = s.tail) :
    r = s := by
  obtain ⟨l, t⟩ := r
  obtain ⟨m, u⟩ := s
  obtain rfl : l = m := SortedSet.ext_mem hl
  obtain rfl : t = u := ht
  rfl

theorem eq_extend_ofVar {r : Row} {v : RowVar} (h : r.tail = some v) :
    r = (ofVar v).extend r.labels :=
  ext_mem (by simp [ofVar]) h

end Row

namespace Substitution

/-- A type variable is bound to a type that mentions another one. -/
def TypeEdge (s : Substitution) (v w : TyVar) : Prop := ∃ t, s.type? v = some t ∧ w ∈ t.vars

/-- A row variable is bound to a row whose tail is another one. -/
def RowEdge (s : Substitution) (v w : RowVar) : Prop := ∃ r, s.row? v = some r ∧ r.tail = some w

/-- Whether no variable lies within itself, neither a type variable nor a row variable. -/
structure Acyclic (s : Substitution) : Prop where
  types : Loopless s.TypeEdge
  rows : Loopless s.RowEdge

variable {s : Substitution}

theorem lt_size_of_type? {v : TyVar} {t : Ty} (h : s.type? v = some t) : v < s.types.size := by
  by_contra hv
  simp [type?, Array.getElem?_eq_none (Nat.le_of_not_lt hv)] at h

theorem lt_size_of_row? {v : RowVar} {r : Row} (h : s.row? v = some r) : v < s.rows.size := by
  by_contra hv
  simp [row?, Array.getElem?_eq_none (Nat.le_of_not_lt hv)] at h

theorem TypeEdge.lt_size {v w : TyVar} (h : s.TypeEdge v w) : v < s.types.size :=
  lt_size_of_type? h.choose_spec.1

theorem RowEdge.lt_size {v w : RowVar} (h : s.RowEdge v w) : v < s.rows.size :=
  lt_size_of_row? h.choose_spec.1

theorem Acyclic.exists_typeRank (h : s.Acyclic) : ∃ rank : TyVar → Nat,
    (∀ v w, s.TypeEdge v w → rank w < rank v) ∧ ∀ v, rank v ≤ s.types.size :=
  h.types.exists_rank fun _ _ => TypeEdge.lt_size

theorem Acyclic.exists_rowRank (h : s.Acyclic) : ∃ rank : RowVar → Nat,
    (∀ v w, s.RowEdge v w → rank w < rank v) ∧ ∀ v, rank v ≤ s.rows.size :=
  h.rows.exists_rank fun _ _ => RowEdge.lt_size

/-! ## Rows -/

theorem gather_extend (n : Nat) (r : Row) (l : SortedSet String) :
    s.gather n (r.extend l) = (s.gather n r).extend l := by
  induction n generalizing r with
  | zero => rfl
  | succ n ih =>
    simp only [gather, Row.extend_tail]
    split
    · rfl
    · split
      · rfl
      · rw [← ih]
        congr 1
        exact Row.ext_mem (by simp [or_assoc]) rfl

@[simp] theorem findRow_extend (s : Substitution) (r : Row) (l : SortedSet String) :
    s.findRow (r.extend l) = (s.findRow r).extend l :=
  gather_extend _ r l

theorem gather_eq {rank : RowVar → Nat} (hrank : ∀ v w, s.RowEdge v w → rank w < rank v)
    {n m : Nat} {r : Row} (hn : ∀ v, r.tail = some v → rank v < n)
    (hm : ∀ v, r.tail = some v → rank v < m) : s.gather n r = s.gather m r := by
  induction n generalizing m r with
  | zero =>
    cases ht : r.tail with
    | some v => exact absurd (hn v ht) (Nat.not_lt_zero _)
    | none => cases m <;> simp [gather, ht]
  | succ n ih =>
    cases ht : r.tail with
    | none => cases m <;> simp [gather, ht]
    | some v =>
      cases m with
      | zero => exact absurd (hm v ht) (Nat.not_lt_zero _)
      | succ m =>
        simp only [gather, ht]
        cases hb : s.row? v with
        | none => rfl
        | some b =>
          have hlt : ∀ w, b.tail = some w → rank w < rank v := fun w hw => hrank v w ⟨b, hb, hw⟩
          refine ih (fun w hw => ?_) (fun w hw => ?_)
          · exact Nat.lt_of_lt_of_le (hlt w hw) (Nat.le_of_lt_succ (hn v ht))
          · exact Nat.lt_of_lt_of_le (hlt w hw) (Nat.le_of_lt_succ (hm v ht))

theorem findRow_closed {r : Row} (h : r.tail = none) : s.findRow r = r := by
  simp [findRow, gather, h]

theorem findRow_unbound {r : Row} {v : RowVar} (h : r.tail = some v) (hv : s.row? v = none) :
    s.findRow r = r := by
  simp [findRow, gather, h, hv]

/-- A bound row variable stands for what it is bound to. -/
theorem Acyclic.findRow_ofVar (h : s.Acyclic) {v : RowVar} {b : Row} (hv : s.row? v = some b) :
    s.findRow (.ofVar v) = s.findRow b := by
  obtain ⟨rank, hrank, hle⟩ := h.exists_rowRank
  have hb : ∀ w, b.tail = some w → rank w < s.rows.size := fun w hw =>
    Nat.lt_of_lt_of_le (hrank v w ⟨b, hv, hw⟩) (hle v)
  have hrow : (⟨(Row.ofVar v).labels.union b.labels, b.tail⟩ : Row) = b :=
    Row.ext_mem (by simp [Row.ofVar]) rfl
  rw [findRow, gather]
  simp only [Row.ofVar, hv]
  rw [show (⟨SortedSet.union ∅ b.labels, b.tail⟩ : Row) = b from hrow]
  exact gather_eq hrank hb fun w hw => Nat.lt_succ_of_lt (hb w hw)

theorem findRow_eq_extend {r : Row} {v : RowVar} (h : r.tail = some v) :
    s.findRow r = (s.findRow (.ofVar v)).extend r.labels := by
  rw [← findRow_extend, ← Row.eq_extend_ofVar h]

/-- Facts about row variables may be proved from those that they are bound to. -/
theorem Acyclic.rowInduction (h : s.Acyclic) {P : RowVar → Prop}
    (step : ∀ v, (∀ b w, s.row? v = some b → b.tail = some w → P w) → P v) (v : RowVar) : P v :=
  h.rows.induction (fun _ _ => RowEdge.lt_size)
    (fun v ih => step v fun b w hb hw => ih w ⟨b, hb, hw⟩) v

/-- The tail of what a row stands for is unbound. -/
theorem Acyclic.row?_tail_findRow (h : s.Acyclic) {r : Row} {w : RowVar}
    (hw : (s.findRow r).tail = some w) : s.row? w = none := by
  have hvar : ∀ v w, (s.findRow (.ofVar v)).tail = some w → s.row? w = none := by
    intro v
    induction v using h.rowInduction with
    | _ v ih =>
      intro w hw
      cases hv : s.row? v with
      | none =>
        rw [findRow_unbound rfl hv] at hw
        cases hw
        exact hv
      | some b =>
        rw [h.findRow_ofVar hv] at hw
        cases ht : b.tail with
        | none =>
          rw [findRow_closed ht, ht] at hw
          cases hw
        | some x =>
          rw [findRow_eq_extend ht] at hw
          exact ih b x hv ht w hw
  cases ht : r.tail with
  | none =>
    rw [findRow_closed ht, ht] at hw
    cases hw
  | some v =>
    rw [findRow_eq_extend ht] at hw
    exact hvar v w hw

theorem mem_labels_findRow {r : Row} {x : String} (h : x ∈ r.labels) :
    x ∈ (s.findRow r).labels := by
  cases ht : r.tail with
  | none => rwa [findRow_closed ht]
  | some v =>
    rw [findRow_eq_extend ht]
    exact Row.mem_extend.2 (.inl h)

/-- What a row stands for depends on nothing but what row variables are bound to. -/
theorem findRow_congr {s' : Substitution} (h : s'.rows = s.rows) (r : Row) :
    s'.findRow r = s.findRow r := by
  have hgather : ∀ n r, s'.gather n r = s.gather n r := by
    intro n
    induction n with
    | zero => exact fun _ => rfl
    | succ n ih =>
      intro r
      simp only [gather, row?, h, ih]
  rw [findRow, findRow, hgather, h]

/-! ## Types -/

theorem apply_eq_mapVars (s : Substitution) (t : Ty) :
    s.apply t = t.mapVars (fun v => s.apply (.var v)) s.findRow := rfl

@[simp] theorem apply_prim (s : Substitution) (p : Primitive) : s.apply (.prim p) = .prim p := rfl

@[simp] theorem apply_string (s : Substitution) : s.apply .string = .string := rfl

@[simp] theorem apply_unit (s : Substitution) : s.apply .unit = .unit := rfl

@[simp] theorem apply_error (s : Substitution) : s.apply .error = .error := rfl

@[simp] theorem apply_fn (s : Substitution) (p r : Ty) (e : Row) :
    s.apply (.fn p r e) = .fn (s.apply p) (s.apply r) (s.findRow e) := rfl

@[simp] theorem apply_ref (s : Substitution) (k : BorrowKind) (t : Ty) :
    s.apply (.ref k t) = .ref k (s.apply t) := rfl

@[simp] theorem apply_tuple (s : Substitution) (items : List Ty) :
    s.apply (.tuple items) = .tuple (items.map s.apply) := by
  simp only [apply, Ty.mapVars, Ty.mapVarsList_eq_map]
  rfl

@[simp] theorem apply_named (s : Substitution) (name : String) (args : List Ty) :
    s.apply (.named name args) = .named name (args.map s.apply) := by
  simp only [apply, Ty.mapVars, Ty.mapVarsList_eq_map]
  rfl

theorem resolve_eq {rank : TyVar → Nat} (hrank : ∀ v w, s.TypeEdge v w → rank w < rank v)
    {n m : Nat} {v : TyVar} (hn : rank v < n) (hm : rank v < m) :
    s.resolve n v = s.resolve m v := by
  induction n generalizing m v with
  | zero => exact absurd hn (Nat.not_lt_zero _)
  | succ n ih =>
    cases m with
    | zero => exact absurd hm (Nat.not_lt_zero _)
    | succ m =>
      simp only [resolve]
      cases hv : s.type? v with
      | none => rfl
      | some t =>
        refine Ty.mapVars_congr (fun w hw => ih ?_ ?_) (fun _ _ => rfl)
        · exact Nat.lt_of_lt_of_le (hrank v w ⟨t, hv, hw⟩) (Nat.le_of_lt_succ hn)
        · exact Nat.lt_of_lt_of_le (hrank v w ⟨t, hv, hw⟩) (Nat.le_of_lt_succ hm)

theorem apply_unbound {v : TyVar} (h : s.type? v = none) : s.apply (.var v) = .var v := by
  simp [apply, Ty.mapVars, resolve, h]

/-- A bound type variable stands for what it is bound to. -/
theorem Acyclic.apply_var (h : s.Acyclic) {v : TyVar} {t : Ty} (hv : s.type? v = some t) :
    s.apply (.var v) = s.apply t := by
  obtain ⟨rank, hrank, hle⟩ := h.exists_typeRank
  have hlt : ∀ w ∈ t.vars, rank w < s.types.size := fun w hw =>
    Nat.lt_of_lt_of_le (hrank v w ⟨t, hv, hw⟩) (hle v)
  simp only [apply, Ty.mapVars]
  rw [resolve]
  simp only [hv]
  exact Ty.mapVars_congr
    (fun w hw => resolve_eq hrank (hlt w hw) (Nat.lt_succ_of_lt (hlt w hw))) (fun _ _ => rfl)

/-- Facts about type variables may be proved from those that they are bound to. -/
theorem Acyclic.typeInduction (h : s.Acyclic) {P : TyVar → Prop}
    (step : ∀ v, (∀ t, s.type? v = some t → ∀ w ∈ t.vars, P w) → P v) (v : TyVar) : P v :=
  h.types.induction (fun _ _ => TypeEdge.lt_size)
    (fun v ih => step v fun t ht w hw => ih w ⟨t, ht, hw⟩) v

theorem apply_eq_self {t : Ty} (hv : ∀ v ∈ t.vars, s.type? v = none)
    (he : ∀ e ∈ t.effects, ∀ v, e.tail = some v → s.row? v = none) : s.apply t = t := by
  rw [apply_eq_mapVars]
  refine Ty.mapVars_eq_self (fun v hvt => apply_unbound (hv v hvt)) (fun e het => ?_)
  cases ht : e.tail with
  | none => exact findRow_closed ht
  | some v => exact findRow_unbound ht (he e het v ht)

/-- What a type stands for has unbound type variables. -/
theorem Acyclic.type?_of_mem_vars_apply (h : s.Acyclic) {t : Ty} {w : TyVar}
    (hw : w ∈ (s.apply t).vars) : s.type? w = none := by
  rw [apply_eq_mapVars, Ty.mem_vars_mapVars] at hw
  obtain ⟨v, -, hw⟩ := hw
  induction v using h.typeInduction with
  | _ v ih =>
    cases hv : s.type? v with
    | none =>
      rw [apply_unbound hv] at hw
      obtain rfl : w = v := by simpa [Ty.vars] using hw
      exact hv
    | some u =>
      rw [h.apply_var hv, apply_eq_mapVars, Ty.mem_vars_mapVars] at hw
      obtain ⟨x, hx, hw⟩ := hw
      exact ih u hv x hx hw

/-- What a type stands for has unbound row variables. -/
theorem Acyclic.row?_of_mem_effects_apply (h : s.Acyclic) {t : Ty} {e : Row}
    (he : e ∈ (s.apply t).effects) {w : RowVar} (hw : e.tail = some w) : s.row? w = none := by
  have hvar : ∀ v, e ∈ (s.apply (.var v)).effects → s.row? w = none := by
    intro v he
    induction v using h.typeInduction with
    | _ v ih =>
      cases hv : s.type? v with
      | none =>
        rw [apply_unbound hv] at he
        simp [Ty.effects] at he
      | some u =>
        rw [h.apply_var hv, apply_eq_mapVars, Ty.mem_effects_mapVars] at he
        rcases he with ⟨x, hx, he⟩ | ⟨d, -, rfl⟩
        · exact ih u hv x hx he
        · exact h.row?_tail_findRow hw
  rw [apply_eq_mapVars, Ty.mem_effects_mapVars] at he
  rcases he with ⟨v, -, he⟩ | ⟨d, -, rfl⟩
  · exact hvar v he
  · exact h.row?_tail_findRow hw

theorem Acyclic.apply_apply (h : s.Acyclic) (t : Ty) : s.apply (s.apply t) = s.apply t :=
  apply_eq_self (fun _ hv => h.type?_of_mem_vars_apply hv)
    (fun _ he _ hv => h.row?_of_mem_effects_apply he hv)

/-- A variable that is reached from another one occurs in what that one stands for, if it is
unbound. -/
theorem Acyclic.mem_vars_apply_of_reaches (h : s.Acyclic) {w v : TyVar}
    (hwv : ReflTransGen s.TypeEdge w v) (hv : s.type? v = none) :
    v ∈ (s.apply (.var w)).vars := by
  induction hwv using ReflTransGen.head_induction_on with
  | refl => simp [apply_unbound hv, Ty.vars]
  | head hxy _ ih =>
    obtain ⟨t, ht, hy⟩ := hxy
    rw [h.apply_var ht, apply_eq_mapVars, Ty.mem_vars_mapVars]
    exact ⟨_, hy, ih⟩

end Substitution

end RowCheck
