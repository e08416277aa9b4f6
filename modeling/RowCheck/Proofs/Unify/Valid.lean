import RowCheck.Proofs.Types.Refines
import RowCheck.Unify.State

/-!
The state of an inference pass, and how its actions change it. A valid state has no cycles and
mentions only row variables that it has made; an action on it ends in a valid state that keeps all
equations, all errors and all that waits.
-/
namespace RowCheck

/-- Whether the tail of a row is one of the first `n` row variables. -/
def Row.Below (n : Nat) (r : Row) : Prop := ∀ v, r.tail = some v → v < n

/-- Whether all row variables of a type are among the first `n`. -/
def Ty.Below (n : Nat) (t : Ty) : Prop := ∀ e ∈ t.effects, e.Below n

def Constraint.Below (n : Nat) : Constraint → Prop
  | equal expected actual _ => expected.Below n ∧ actual.Below n
  | inclusion row within _ => row.Below n ∧ within.Below n
  | numeric t _ => t.Below n

instance (n : Nat) (r : Row) : Decidable (r.Below n) :=
  inferInstanceAs (Decidable (∀ v ∈ r.tail, v < n))

instance (n : Nat) (t : Ty) : Decidable (t.Below n) :=
  inferInstanceAs (Decidable (∀ e ∈ t.effects, e.Below n))

theorem Row.Below.mono {n m : Nat} {r : Row} (h : r.Below n) (hnm : n ≤ m) : r.Below m :=
  fun v hv => Nat.lt_of_lt_of_le (h v hv) hnm

theorem Ty.Below.mono {n m : Nat} {t : Ty} (h : t.Below n) (hnm : n ≤ m) : t.Below m :=
  fun e he => (h e he).mono hnm

theorem Constraint.Below.mono {n m : Nat} {c : Constraint} (h : c.Below n) (hnm : n ≤ m) :
    c.Below m := by
  cases c with
  | equal | inclusion => exact ⟨h.1.mono hnm, h.2.mono hnm⟩
  | numeric => exact Ty.Below.mono h hnm

theorem Row.below_closed {n : Nat} {r : Row} (h : r.tail = none) : r.Below n := fun v hv => by
  rw [h] at hv
  cases hv

theorem Ty.below_fn {n : Nat} {p r : Ty} {e : Row} :
    (Ty.fn p r e).Below n ↔ p.Below n ∧ r.Below n ∧ e.Below n := by
  simp only [Ty.Below, effects, List.mem_cons, List.mem_append, or_imp, forall_and, forall_eq]
  rw [and_comm, and_assoc]

theorem Ty.below_tuple {n : Nat} {items : List Ty} :
    (Ty.tuple items).Below n ↔ ∀ t ∈ items, t.Below n := by
  simp only [Ty.Below, effects, effectsList_eq, List.mem_flatMap]
  exact ⟨fun h t ht e he => h e ⟨t, ht, he⟩, fun h e he => he.elim fun t ht => h t ht.1 e ht.2⟩

theorem Ty.below_named {n : Nat} {name : String} {args : List Ty} :
    (Ty.named name args).Below n ↔ ∀ t ∈ args, t.Below n := by
  simp only [Ty.Below, effects, effectsList_eq, List.mem_flatMap]
  exact ⟨fun h t ht e he => h e ⟨t, ht, he⟩, fun h e he => he.elim fun t ht => h t ht.1 e ht.2⟩

theorem Ty.below_ref {n : Nat} {k : BorrowKind} {t : Ty} : (Ty.ref k t).Below n ↔ t.Below n :=
  Iff.rfl

theorem Ty.below_of_effects_eq_nil {n : Nat} {t : Ty} (h : t.effects = []) : t.Below n :=
  fun e he => by
    rw [h] at he
    cases he

namespace Substitution

/-- A substitution without cycles that mentions only row variables that it has made. -/
structure Valid (s : Substitution) : Prop extends s.Acyclic where
  typesBelow : ∀ v t, s.type? v = some t → t.Below s.rows.size
  rowsBelow : ∀ v b, s.row? v = some b → b.Below s.rows.size

variable {s : Substitution}

theorem Valid.findRow_below (h : s.Valid) {r : Row} (hr : r.Below s.rows.size) :
    (s.findRow r).Below s.rows.size := by
  have hvar : ∀ v, v < s.rows.size → (s.findRow (.ofVar v)).Below s.rows.size := by
    intro v
    induction v using h.rowInduction with
    | _ v ih =>
      intro hlt
      cases hv : s.row? v with
      | none =>
        rw [findRow_unbound rfl hv]
        intro w hw
        cases hw
        exact hlt
      | some b =>
        rw [h.findRow_ofVar hv]
        cases ht : b.tail with
        | none =>
          rw [findRow_closed ht]
          exact Row.below_closed ht
        | some w =>
          rw [findRow_eq_extend ht]
          exact ih b w hv ht (h.rowsBelow v b hv w ht)
  cases ht : r.tail with
  | none =>
    rw [findRow_closed ht]
    exact hr
  | some v =>
    rw [findRow_eq_extend ht]
    exact hvar v (hr v ht)

theorem Valid.apply_below (h : s.Valid) {t : Ty} (ht : t.Below s.rows.size) :
    (s.apply t).Below s.rows.size := by
  have hvar : ∀ v, (s.apply (.var v)).Below s.rows.size := by
    intro v
    induction v using h.typeInduction with
    | _ v ih =>
      cases hv : s.type? v with
      | none =>
        rw [apply_unbound hv]
        exact Ty.below_of_effects_eq_nil rfl
      | some t =>
        rw [h.apply_var hv, apply_eq_mapVars]
        intro e he
        rcases Ty.mem_effects_mapVars.1 he with ⟨w, hw, he⟩ | ⟨d, hd, rfl⟩
        · exact ih t hv w hw e he
        · exact h.findRow_below (h.typesBelow v t hv d hd)
  intro e he
  rw [apply_eq_mapVars] at he
  rcases Ty.mem_effects_mapVars.1 he with ⟨w, hw, he⟩ | ⟨d, hd, rfl⟩
  · exact hvar w e he
  · exact h.findRow_below (ht d hd)

/-! ## Growing a valid substitution -/

theorem Valid.bindType (h : s.Valid) {v : TyVar} {t : Ty} (hac : (s.bindType v t).Acyclic)
    (ht : t.Below s.rows.size) : (s.bindType v t).Valid where
  toAcyclic := hac
  typesBelow w u hu := by
    rw [type?_bindType] at hu
    split at hu
    · cases hu
      exact ht
    · exact h.typesBelow w u hu
  rowsBelow := h.rowsBelow

theorem Valid.bindRow (h : s.Valid) {v : RowVar} {b : Row} (hv : v < s.rows.size)
    (hac : (s.bindRow v b).Acyclic) (hb : b.Below s.rows.size) : (s.bindRow v b).Valid where
  toAcyclic := hac
  typesBelow w u hu := by
    rw [size_rows_bindRow hv]
    exact h.typesBelow w u hu
  rowsBelow w u hu := by
    rw [size_rows_bindRow hv]
    rw [row?_bindRow] at hu
    split at hu
    · cases hu
      exact hb
    · exact h.rowsBelow w u hu

theorem Valid.below_of_chain (h : s.Valid) {v : TyVar} {vs : List TyVar} {t : Ty}
    (hc : s.Chain v vs t) : t.Below s.rows.size := by
  by_cases hvs : vs = []
  · rcases hc.start with rfl | hv
    · exact Ty.below_of_effects_eq_nil rfl
    · simp [hvs] at hv
  · obtain ⟨w, hw⟩ := hc.head_bound hvs
    exact h.typesBelow w t hw

theorem Valid.compress (h : s.Valid) {v : TyVar} {vs : List TyVar} {t : Ty}
    (hc : s.Chain v vs t) : (s.compress vs t).Valid where
  toAcyclic := hc.acyclic_compress h.toAcyclic
  typesBelow w u hu := by
    rw [rows_compress]
    rw [type?_compress] at hu
    split at hu
    · cases hu
      exact h.below_of_chain hc
    · exact h.typesBelow w u hu
  rowsBelow w b hb := by
    rw [rows_compress]
    exact h.rowsBelow w b (by rwa [row?_compress] at hb)

theorem Valid.freshType (h : s.Valid) : s.freshType.2.Valid where
  toAcyclic := h.toAcyclic.congr (type?_freshType s) (fun _ => rfl)
  typesBelow v t ht := h.typesBelow v t (by rwa [type?_freshType] at ht)
  rowsBelow := h.rowsBelow

theorem Valid.freshRow (h : s.Valid) : s.freshRow.2.Valid where
  toAcyclic := h.toAcyclic.congr (fun _ => rfl) (row?_freshRow s)
  typesBelow v t ht := (h.typesBelow v t ht).mono (by simp [Substitution.freshRow])
  rowsBelow v b hb := (h.rowsBelow v b (by rwa [row?_freshRow] at hb)).mono (by
    simp [Substitution.freshRow])

theorem empty_valid : empty.Valid where
  types v hv := by
    obtain ⟨w, ⟨t, ht, -⟩, -⟩ := Relation.TransGen.head'_iff.1 hv
    cases ht
  rows v hv := by
    obtain ⟨w, ⟨t, ht, -⟩, -⟩ := Relation.TransGen.head'_iff.1 hv
    cases ht
  typesBelow v t ht := by cases ht
  rowsBelow v t ht := by cases ht

end Substitution

namespace Unifier

/-- The number of row variables that were made. -/
abbrev rowCount (u : Unifier) : Nat := u.substitution.rows.size

/-- A valid substitution, and constraints that wait and mention only row variables that it has made.
-/
structure Valid (u : Unifier) : Prop where
  substitution : u.substitution.Valid
  pending : ∀ c ∈ u.pending, c.Below u.rowCount

/-- A later state keeps the equations and the errors of an earlier one. -/
structure Grows (u u' : Unifier) : Prop where
  valid : u'.Valid
  refines : u.substitution.Refines u'.substitution
  rows : u.rowCount ≤ u'.rowCount
  errors : u.errors <+: u'.errors

/-- Within a pass, what waits goes on to wait. -/
structure Advances (u u' : Unifier) : Prop extends u.Grows u' where
  pending : u.pending <+: u'.pending

variable {u u' u'' : Unifier}

@[simp] theorem apply_prim (u : Unifier) (p : Primitive) : u.apply (.prim p) = .prim p := rfl

@[simp] theorem apply_string (u : Unifier) : u.apply .string = .string := rfl

@[simp] theorem apply_unit (u : Unifier) : u.apply .unit = .unit := rfl

@[simp] theorem apply_error (u : Unifier) : u.apply .error = .error := rfl

@[simp] theorem apply_fn (u : Unifier) (p r : Ty) (e : Row) :
    u.apply (.fn p r e) = .fn (u.apply p) (u.apply r) (u.findRow e) := rfl

@[simp] theorem apply_ref (u : Unifier) (k : BorrowKind) (t : Ty) :
    u.apply (.ref k t) = .ref k (u.apply t) := rfl

@[simp] theorem apply_tuple (u : Unifier) (items : List Ty) :
    u.apply (.tuple items) = .tuple (items.map u.apply) :=
  Substitution.apply_tuple _ _

@[simp] theorem apply_named (u : Unifier) (name : String) (args : List Ty) :
    u.apply (.named name args) = .named name (args.map u.apply) :=
  Substitution.apply_named _ _ _

@[simp] theorem findRow_extend (u : Unifier) (r : Row) (l : SortedSet String) :
    u.findRow (r.extend l) = (u.findRow r).extend l :=
  Substitution.findRow_extend _ _ _

theorem findRow_closed {u : Unifier} {r : Row} (h : r.tail = none) : u.findRow r = r :=
  Substitution.findRow_closed h

theorem Valid.acyclic (h : u.Valid) : u.substitution.Acyclic := h.substitution.toAcyclic

theorem Valid.grows (h : u.Valid) : u.Grows u :=
  ⟨h, h.acyclic.refines_self, Nat.le_refl _, List.prefix_refl _⟩

theorem Valid.advances (h : u.Valid) : u.Advances u := ⟨h.grows, List.prefix_refl _⟩

theorem Grows.trans (h : u.Grows u') (h' : u'.Grows u'') : u.Grows u'' where
  valid := h'.valid
  refines := h.refines.trans h.valid.acyclic h'.refines
  rows := h.rows.trans h'.rows
  errors := h.errors.trans h'.errors

theorem Advances.trans (h : u.Advances u') (h' : u'.Advances u'') : u.Advances u'' :=
  ⟨h.toGrows.trans h'.toGrows, h.pending.trans h'.pending⟩

/-- No errors from start to end are no errors on the way. -/
theorem Grows.errors_eq (h : u.Grows u') (h' : u'.Grows u'') (he : u''.errors = u.errors) :
    u'.errors = u.errors := by
  refine (h.errors.eq_of_length_le ?_).symm
  rw [← he]
  exact h'.errors.length_le

theorem Grows.apply (h : u.Grows u') (hu : u.Valid) (t : Ty) : u'.apply (u.apply t) = u'.apply t :=
  h.refines.apply hu.acyclic t

theorem Grows.apply_eq (h : u.Grows u') (hu : u.Valid) {a b : Ty} (hab : u.apply a = u.apply b) :
    u'.apply a = u'.apply b :=
  h.refines.apply_eq hu.acyclic hab

theorem Grows.findRow (h : u.Grows u') (hu : u.Valid) (r : Row) :
    u'.findRow (u.findRow r) = u'.findRow r :=
  h.refines.findRow hu.acyclic r

/-- A state with the same substitution and more errors. -/
theorem Valid.grows_of_eq (h : u.Valid) (hs : u'.substitution = u.substitution)
    (hp : ∀ c ∈ u'.pending, c.Below u.rowCount) (he : u.errors <+: u'.errors) :
    u.Grows u' where
  valid := ⟨hs ▸ h.substitution, by rwa [rowCount, hs]⟩
  refines := hs ▸ h.acyclic.refines_self
  rows := by rw [rowCount, rowCount, hs]
  errors := he

/-- A state in which only the substitution is another one. -/
theorem Valid.advances_substitution (h : u.Valid) {s : Substitution} (hs : s.Valid)
    (href : u.substitution.Refines s) (hrows : u.rowCount ≤ s.rows.size) :
    u.Advances { u with substitution := s } where
  valid := ⟨hs, fun c hc => (h.pending c hc).mono hrows⟩
  refines := href
  rows := hrows
  errors := List.prefix_refl _
  pending := List.prefix_refl _

/-! ## Actions -/

theorem bind_run {α β : Type} (m : UnifyM α) (k : α → UnifyM β) (u : Unifier) :
    (m >>= k) u = k (m u).1 (m u).2 := rfl

theorem get_bind_run {β : Type} (k : Unifier → UnifyM β) (u : Unifier) :
    (get >>= k) u = k u u := rfl

/-- An action advances a state, and its answer and the state it ends in have some property. -/
def Does {α : Type} (u : Unifier) (m : UnifyM α) (Q : α → Unifier → Prop) : Prop :=
  u.Advances (m u).2 ∧ Q (m u).1 (m u).2

section

variable {α β : Type} {m : UnifyM α} {f : α → UnifyM β} {Q : α → Unifier → Prop}
  {R : β → Unifier → Prop}

theorem Does.bind (h : u.Does m Q)
    (hf : ∀ a u', u.Advances u' → Q a u' → u'.Does (f a) R) : u.Does (m >>= f) R := by
  obtain ⟨hadv, hq⟩ := h
  obtain ⟨hadv', hr⟩ := hf _ _ hadv hq
  exact ⟨hadv.trans hadv', hr⟩

theorem Does.pure (hu : u.Valid) {a : α} (hq : Q a u) : u.Does (pure a) Q := ⟨hu.advances, hq⟩

theorem Does.imp {Q' : α → Unifier → Prop} (h : u.Does m Q)
    (hq : ∀ a u', u.Advances u' → Q a u' → Q' a u') : u.Does m Q' :=
  ⟨h.1, hq _ _ h.1 h.2⟩

theorem Does.get_bind {f : Unifier → UnifyM β} (h : u.Does (f u) R) : u.Does (get >>= f) R := h

end

variable {α : Type} {Q : α → Unifier → Prop}

theorem report_does (hu : u.Valid) (d : Diagnostic) :
    u.Does (report d) (fun _ u' => u'.substitution = u.substitution ∧
      u'.errors = u.errors ++ [d]) :=
  ⟨⟨hu.grows_of_eq rfl hu.pending (List.prefix_append _ _), List.prefix_refl _⟩, rfl, rfl⟩

theorem note_does (hu : u.Valid) (action : UnifyAction) (left right : Ty) (detail : String) :
    u.Does (note action left right detail) (fun _ u' => u'.substitution = u.substitution) := by
  simp only [note, Does, modify, modifyGet, MonadStateOf.modifyGet, StateT.modifyGet, Pure.pure]
  split
  · exact ⟨⟨hu.grows_of_eq rfl hu.pending (List.prefix_refl _), List.prefix_refl _⟩, rfl⟩
  · exact ⟨hu.advances, rfl⟩

theorem defer_does (hu : u.Valid) {c : Constraint} (hc : c.Below u.rowCount) :
    u.Does (defer c) (fun _ u' => u' = { u with pending := u.pending ++ [c] }) := by
  refine ⟨⟨hu.grows_of_eq rfl (fun d hd => ?_) (List.prefix_refl _), List.prefix_append _ _⟩, rfl⟩
  rcases List.mem_append.1 hd with hd | hd
  · exact hu.pending d hd
  · exact List.mem_singleton.1 hd ▸ hc

theorem addNumeric_does (hu : u.Valid) (v : TyVar) (span : Span) :
    u.Does (addNumeric v span) (fun _ u' => u'.substitution = u.substitution) :=
  ⟨⟨hu.grows_of_eq rfl hu.pending (List.prefix_refl _), List.prefix_refl _⟩, rfl⟩

theorem freshTypeVar_does (hu : u.Valid) : u.Does freshTypeVar (fun _ _ => True) := by
  refine ⟨hu.advances_substitution hu.substitution.freshType ?_ (Nat.le_refl _), trivial⟩
  exact hu.substitution.freshType.toAcyclic.refines_of_bound
    (fun v t h => by rwa [Substitution.type?_freshType]) (fun _ _ h => h)

theorem freshType_does (hu : u.Valid) : u.Does freshType (fun t _ => ∀ n, t.Below n) :=
  (freshTypeVar_does hu).bind fun _ _ h _ =>
    .pure h.valid fun _ => Ty.below_of_effects_eq_nil rfl

/-- A new row variable is unbound, and no row has it as its tail. -/
theorem freshRowVar_does (hu : u.Valid) :
    u.Does freshRowVar (fun v u' => v = u.rowCount ∧
      v < u'.rowCount ∧ u'.substitution.row? v = none ∧
      (∀ w, u'.substitution.row? w = u.substitution.row? w) ∧
      (∀ w, u'.substitution.type? w = u.substitution.type? w)) := by
  refine ⟨hu.advances_substitution hu.substitution.freshRow ?_ ?_, rfl, ?_, ?_, ?_, ?_⟩
  · exact hu.substitution.freshRow.toAcyclic.refines_of_bound (fun _ _ h => h)
      (fun v t h => by rwa [Substitution.row?_freshRow])
  · simp
  · exact Nat.lt_of_lt_of_eq (Nat.lt_succ_self _) (Array.size_push _).symm
  · show u.substitution.freshRow.2.row? u.rowCount = none
    rw [Substitution.row?_freshRow, Substitution.row?, Array.getElem?_eq_none (Nat.le_refl _)]
    rfl
  · exact Substitution.row?_freshRow u.substitution
  · exact fun _ => rfl

theorem freshRow_does (hu : u.Valid) :
    u.Does freshRow (fun r u' => r.Below u'.rowCount) :=
  (freshRowVar_does hu).bind fun v u' h hv => .pure h.valid fun w hw => by
    cases hw
    exact hv.2.1

/-- Binding an unbound row variable to a row with another unbound tail. -/
theorem bindRowVar_does (hu : u.Valid) {v : RowVar} {b : Row}
    (hv : u.substitution.row? v = none) (hlt : v < u.rowCount)
    (hb : ∀ w, b.tail = some w → u.substitution.row? w = none ∧ w ≠ v ∧
      w < u.rowCount) :
    u.Does (bindRowVar v b) (fun _ u' => u'.substitution = u.substitution.bindRow v b) := by
  refine (note_does hu ..).bind fun _ u' h hs => ?_
  have hac := h.valid.acyclic.bindRow (v := v) (b := b) (by
    rw [hs]
    exact fun w hw => ⟨(hb w hw).1, (hb w hw).2.1⟩)
  refine ⟨h.valid.advances_substitution (h.valid.substitution.bindRow ?_ hac ?_)
    (Substitution.refines_bindRow ?_ hac) (Nat.le_of_eq ?_), ?_⟩
  · exact hs ▸ hlt
  · exact hs ▸ fun w hw => (hb w hw).2.2
  · exact hs ▸ hv
  · exact (Substitution.size_rows_bindRow (hs ▸ hlt) b).symm
  · rw [← hs]
    rfl

/-- Looking up the head of a type changes how the substitution is stored, and not what it stands
for. -/
theorem find_does (hu : u.Valid) {t : Ty} (ht : t.Below u.rowCount) :
    u.Does (find t) (fun h u' => u'.apply t = u'.apply h ∧ (∀ x, u'.apply x = u.apply x) ∧
      (∀ v, h = .var v → u'.substitution.type? v = none) ∧ h.Below u'.rowCount ∧
      u'.substitution.rows = u.substitution.rows) := by
  rcases Substitution.find_eq hu.acyclic t with ⟨v, vs, rfl, hc, he⟩ | ⟨hne, he⟩
  · have hval := hu.substitution.compress hc
    have href := hc.refines_compress hu.acyclic
    have hadv := hu.advances_substitution hval href (by simp)
    have hfind : (find (.var v) u).2 =
        { u with substitution := u.substitution.compress vs (find (.var v) u).1 } := by
      simp only [find, ← he]
    rw [Does, hfind]
    refine ⟨hadv, ?_, fun x => ?_, fun w hw => ?_, ?_, by simp [find]⟩
    · rcases hc.start with e | hv
      · simp only [find, e]
      · exact hc.apply_compress hu.acyclic hv
    · exact href.apply_eq_apply hu.acyclic (fun w hw => hc.type?_compress_of_unbound hw)
        (fun w hw => by rwa [Substitution.row?_compress]) x
    · exact hc.type?_compress_of_unbound (Substitution.Chain.unbound_head (hw ▸ hc))
    · show (u.substitution.find (.var v)).1.Below (u.substitution.compress vs _).rows.size
      rw [Substitution.rows_compress]
      exact hu.substitution.below_of_chain hc
  · have hfind : find t u = (t, u) := by simp only [find, he]
    rw [Does, hfind]
    exact ⟨hu.advances, rfl, fun _ => rfl, fun v hv => absurd hv (hne v), ht, rfl⟩

end Unifier

end RowCheck
