import RowCheck.Proofs.Unify.Reading
import RowCheck.Proofs.Unify.Runs

/-!
Most general solutions. Where rows are closed, an equation is reported if and only if nothing that
agrees with the state makes it hold; otherwise, what agrees with the state and makes it hold is just
what agrees with the state afterwards.
-/
namespace RowCheck

/-- Types for type variables, and rows for row variables. -/
structure Assignment where
  type : TyVar → Ty
  row : RowVar → Row

namespace Assignment

/-- A row with what its tail is assigned. -/
def onRow (σ : Assignment) (r : Row) : Row :=
  match r.tail with
  | none => r
  | some v => (σ.row v).extend r.labels

/-- A type with what its variables are assigned. -/
def onType (σ : Assignment) (t : Ty) : Ty := t.mapVars σ.type σ.onRow

/-- Whether an assignment extends a substitution: what a variable is bound to is what it is assigned.
-/
structure Extends (σ : Assignment) (s : Substitution) : Prop where
  type : ∀ v t, s.type? v = some t → σ.type v = σ.onType t
  row : ∀ v r, s.row? v = some r → σ.row v = σ.onRow r

/-- What variables stand for. -/
def ofSubstitution (s : Substitution) : Assignment :=
  ⟨fun v => s.apply (.var v), fun v => s.findRow (.ofVar v)⟩

/-- An assignment as a reading of types. -/
def reading (σ : Assignment) : Reading := ⟨σ.type, σ.onRow⟩

variable {σ : Assignment} {s : Substitution}

theorem onRow_closed {r : Row} (h : r.tail = none) : σ.onRow r = r := by
  simp [onRow, h]

theorem onRow_open {r : Row} {v : RowVar} (h : r.tail = some v) :
    σ.onRow r = (σ.row v).extend r.labels := by
  simp [onRow, h]

theorem onRow_ofVar (v : RowVar) : σ.onRow (.ofVar v) = σ.row v :=
  Row.ext_mem (by simp [onRow, Row.ofVar]) rfl

theorem onRow_extend (r : Row) (l : SortedSet String) :
    σ.onRow (r.extend l) = (σ.onRow r).extend l := by
  cases h : r.tail with
  | none => rw [onRow_closed h, onRow_closed (r := r.extend l) h]
  | some v =>
    rw [onRow_open h, onRow_open (r := r.extend l) h]
    exact Row.ext_mem (by simp [Row.extend, or_assoc]) rfl

/-- An assignment that extends a substitution reads types as what they stand for. -/
theorem Extends.fits (h : σ.Extends s) (hac : s.Acyclic) : σ.reading.Fits s where
  type := h.type
  row e := by
    show σ.onRow (s.findRow e) = σ.onRow e
    have hvar : ∀ v, σ.onRow (s.findRow (.ofVar v)) = σ.row v := by
      intro v
      induction v using hac.rowInduction with
      | _ v ih =>
        cases hv : s.row? v with
        | none => rw [Substitution.findRow_unbound rfl hv, onRow_ofVar]
        | some b =>
          rw [hac.findRow_ofVar hv, h.row v b hv]
          cases ht : b.tail with
          | none => rw [Substitution.findRow_closed ht]
          | some w =>
            rw [Substitution.findRow_eq_extend ht, onRow_extend, ih b w hv ht, onRow_open ht]
    cases ht : e.tail with
    | none => rw [Substitution.findRow_closed ht]
    | some v => rw [Substitution.findRow_eq_extend ht, onRow_extend, hvar v, onRow_open ht]

theorem extends_of_fits (h : σ.reading.Fits s) (hac : s.Acyclic) : σ.Extends s where
  type := h.type
  row v r hv := by
    have hrow : ∀ e, σ.onRow (s.findRow e) = σ.onRow e := h.row
    rw [← onRow_ofVar, ← hrow (.ofVar v), hac.findRow_ofVar hv, hrow]

theorem onRow_ofSubstitution (s : Substitution) (r : Row) :
    (ofSubstitution s).onRow r = s.findRow r := by
  cases h : r.tail with
  | none => rw [onRow_closed h, Substitution.findRow_closed h]
  | some v =>
    rw [onRow_open h, Substitution.findRow_eq_extend h]
    rfl

theorem onType_ofSubstitution (s : Substitution) (t : Ty) :
    (ofSubstitution s).onType t = s.apply t := by
  rw [onType, Substitution.apply_eq_mapVars]
  exact Ty.mapVars_congr (fun _ _ => rfl) fun e _ => onRow_ofSubstitution s e

/-- What variables stand for extends what a substitution has bound. -/
theorem extends_ofSubstitution {s s' : Substitution} (h : s.Refines s') :
    (ofSubstitution s').Extends s where
  type v t hv := by
    rw [onType_ofSubstitution]
    exact h.type v t hv
  row v r hv := by
    rw [onRow_ofSubstitution]
    exact h.row v r hv

end Assignment

/-- Whether the effect rows of a type are closed and no failed expression's type is in it. -/
structure Ty.Closed (t : Ty) : Prop where
  rows : ∀ e ∈ t.effects, e.tail = none
  proper : t.containsError = false

namespace Unifier

variable {u : Unifier}

/-! ## Closed rows -/

/-- Making closed rows equal changes no row. -/
theorem solveRows_closed (hu : u.Valid) {e f : Row} (he : (u.findRow e).tail = none)
    (hf : (u.findRow f).tail = none) : u.Solves (solveRows e f) (fun _ u' => u' = u) := by
  unfold solveRows
  refine .get_bind (.get_bind ?_)
  dsimp only
  rw [he, hf]
  dsimp only
  split
  · exact .pure hu rfl
  · exact .throw hu _

end Unifier

/-- The types that stand for closed ones over some variables and those that are bound. -/
def Stock.closed (s : Substitution) (vs : Finset TyVar) : Stock where
  Has t := (s.apply t).Over (· ∈ Finset.range s.types.size ∪ vs) (fun e => e.tail = none)
  HasRow e := (s.findRow e).tail = none
  Rows rows := rows = s.rows
  vars := Finset.range s.types.size ∪ vs
  mem_vars {v} h := by
    cases hv : s.type? v with
    | some t =>
      exact Finset.mem_union_left _ (Finset.mem_range.2 (Substitution.lt_size_of_type? hv))
    | none => exact Ty.over_var.1 (Substitution.apply_unbound hv ▸ h)
  fn h := Ty.over_fn.1 (Substitution.apply_fn .. ▸ h)
  tuple h t ht := by
    rw [Substitution.apply_tuple, Ty.over_tuple] at h
    exact h _ (List.mem_map_of_mem ht)
  named h t ht := by
    rw [Substitution.apply_named, Ty.over_named] at h
    exact h _ (List.mem_map_of_mem ht)
  ref h := Ty.over_ref.1 (Substitution.apply_ref .. ▸ h)
  rows {u e f} hu h he hf _ _ := by
    have hfind := Substitution.findRow_congr h
    refine (Unifier.solveRows_closed hu ?_ ?_).imp fun _ u' _ hsame => hsame ▸ h
    · rwa [Unifier.findRow, hfind]
    · rwa [Unifier.findRow, hfind]

namespace Unifier

variable {u : Unifier} {a b : Ty}

/-- Closed rows that are assigned the same are equal. -/
theorem meetsRows_closed (σ : Assignment) (s : Substitution) (vs : Finset TyVar) :
    MeetsRows σ.reading (.closed s vs) := by
  intro u e f h hσ he hf _ _ heq
  have hfind := Substitution.findRow_congr h.rows
  have hclosed : ∀ {e : Row}, (s.findRow e).tail = none →
      (u.findRow e).tail = none ∧ σ.reading.row e = u.findRow e := by
    intro e he
    have he : (u.findRow e).tail = none := by rwa [findRow, hfind]
    exact ⟨he, by rw [← hσ.row e]; exact Assignment.onRow_closed he⟩
  obtain ⟨hte, hre⟩ := hclosed he
  obtain ⟨htf, hrf⟩ := hclosed hf
  have hsame : u.findRow e = u.findRow f := by rw [← hre, heq, hrf]
  have hempty : ((u.findRow f).labels.diff (u.findRow f).labels).isEmpty = true :=
    SortedSet.isEmpty_diff.2 fun _ => id
  unfold solveRows
  refine .get_bind (.get_bind ?_)
  dsimp only
  rw [hsame, htf]
  dsimp only
  rw [hempty, Bool.and_self, if_pos rfl]
  exact .pure hσ

/-- A state holds the closed types over what its variables stand for. -/
theorem Valid.holds_closed (hu : u.Valid) (hn : u.numeric = ∅) (vs : Finset TyVar) :
    u.Holds (.closed u.substitution vs) where
  toValid := hu
  numeric := hn
  rows := rfl
  bound v t hv ht := by
    show (u.substitution.apply t).Over _ _
    rw [← hu.acyclic.apply_var ht]
    exact hv

/-- A type that stands for a closed one mentions only row variables that were made. -/
theorem below_of_closed {t : Ty} (ht : (u.apply t).Closed) :
    t.Below u.rowCount := by
  intro e he v hv
  have hmem : u.findRow e ∈ (u.apply t).effects := by
    rw [apply, Substitution.apply_eq_mapVars, Ty.mem_effects_mapVars]
    exact .inr ⟨e, he, rfl⟩
  by_contra hlt
  have hunbound : u.substitution.row? v = none := by
    cases hb : u.substitution.row? v with
    | none => rfl
    | some b => exact absurd (Substitution.lt_size_of_row? hb) hlt
  have hfind := ht.rows _ hmem
  rw [findRow, Substitution.findRow_unbound hv hunbound, hv] at hfind
  cases hfind

/-! ## Solutions -/

/-- Whether an assignment that extends what a state has bound makes two types equal. -/
def Solvable (u : Unifier) (a b : Ty) : Prop :=
  ∃ σ : Assignment, σ.Extends u.substitution ∧ σ.onType a = σ.onType b

/-- A later state in which two types are equal, such that every assignment that makes them equal
factors through what variables stand for in it. -/
structure MostGeneral (u u' : Unifier) (a b : Ty) : Prop where
  refines : u.substitution.Refines u'.substitution
  equal : u'.apply a = u'.apply b
  factors : ∀ σ : Assignment, σ.Extends u.substitution → σ.onType a = σ.onType b →
    σ.Extends u'.substitution ∧ (∀ t, σ.onType (u'.apply t) = σ.onType t) ∧
      ∀ e, σ.onRow (u'.findRow e) = σ.onRow e

/-- An equation that an assignment solves is not reported, and the assignment extends what has been
bound afterwards. -/
theorem Valid.unify_of_extends (hu : u.Valid) (hn : u.numeric = ∅) (ha : (u.apply a).Closed)
    (hb : (u.apply b).Closed) (why : Provenance) {σ : Assignment} (hσ : σ.Extends u.substitution)
    (heq : σ.onType a = σ.onType b) :
    (unify a b why u).2.errors = u.errors ∧
      σ.reading.Fits (unify a b why u).2.substitution := by
  let vs := (u.apply a).vars.toFinset ∪ (u.apply b).vars.toFinset
  have hholds := hu.holds_closed hn vs
  have hhas : ∀ {t : Ty}, (u.apply t).Closed → (∀ v ∈ (u.apply t).vars, v ∈ vs) →
      (Stock.closed u.substitution vs).Has t := fun ht hvs =>
    ⟨fun v hv => Finset.mem_union_right _ (hvs v hv), ht.rows, ht.proper⟩
  have hasA := hhas ha fun v hv => Finset.mem_union_left _ (List.mem_toFinset.2 hv)
  have hasB := hhas hb fun v hv => Finset.mem_union_right _ (List.mem_toFinset.2 hv)
  have hba := below_of_closed ha
  have hbb := below_of_closed hb
  have hmeets := solve_meets (meetsRows_closed σ u.substitution vs) hholds (hσ.fits hu.acyclic)
    hasA hasB hba hbb heq (u.card_solveVars_le a b)
  have hstays := (solve_staysIn hholds hasA hasB hba hbb).2 () hmeets.1
  exact hmeets.unify why ▸ ⟨hstays.errors, hmeets.2⟩

/-- In a valid state, an equation is reported if nothing solves it, and otherwise leads to a most
general solution. -/
theorem Valid.unify_solvable (hu : u.Valid) (hn : u.numeric = ∅) (ha : (u.apply a).Closed)
    (hb : (u.apply b).Closed) (why : Provenance) :
    ((unify a b why u).2.errors = u.errors ↔ u.Solvable a b) ∧
    ((unify a b why u).2.errors = u.errors → u.MostGeneral (unify a b why u).2 a b) := by
  have hdoes := unify_does hu (below_of_closed ha) (below_of_closed hb) why
  have hgeneral : (unify a b why u).2.errors = u.errors → u.MostGeneral (unify a b why u).2 a b := by
    intro he
    refine ⟨hdoes.1.refines, (hdoes.2 he ha.proper hb.proper).2, fun σ hσ heq => ?_⟩
    have hfits := (hu.unify_of_extends hn ha hb why hσ heq).2
    have hac := hdoes.1.valid.acyclic
    exact ⟨Assignment.extends_of_fits hfits hac, hfits.read_apply hac, hfits.row⟩
  refine ⟨⟨fun he => ?_, fun ⟨σ, hσ, heq⟩ => (hu.unify_of_extends hn ha hb why hσ heq).1⟩, hgeneral⟩
  obtain ⟨href, heq, -⟩ := hgeneral he
  refine ⟨.ofSubstitution (unify a b why u).2.substitution, Assignment.extends_ofSubstitution href,
    ?_⟩
  rw [Assignment.onType_ofSubstitution, Assignment.onType_ofSubstitution]
  exact heq

end Unifier

/-- In every reachable state without bounds, an equation between types that stand for closed ones is
reported if and only if no assignment that extends what is bound solves it. If none is reported, the
state afterwards is a most general solution: every assignment that solves the equation factors through
it. -/
theorem unify_mostGeneral {u : Unifier} (hu : u.Reachable) (hn : u.numeric = ∅) {a b : Ty}
    (ha : (u.apply a).Closed) (hb : (u.apply b).Closed) (why : Provenance) :
    ((Unifier.unify a b why u).2.errors ≠ u.errors ↔
      ¬ ∃ σ : Assignment, σ.Extends u.substitution ∧ σ.onType a = σ.onType b) ∧
    ((Unifier.unify a b why u).2.errors = u.errors →
      u.MostGeneral (Unifier.unify a b why u).2 a b) := by
  obtain ⟨hiff, hgeneral⟩ := hu.valid.unify_solvable hn ha hb why
  exact ⟨not_congr hiff, hgeneral⟩

/-- Two types, one of them within the other. -/
theorem unify_within_itself :
    ¬ ∃ σ : Assignment, σ.Extends (PassOp.run .empty [.freshTypeVar]).substitution ∧
      σ.onType (.var 0) = σ.onType (.fn (.var 0) .unit (.closed ["io"])) := by
  have hu : (PassOp.run .empty [.freshTypeVar]).Reachable :=
    Unifier.reachable_run ⟨trivial, trivial⟩
  have hclosed : ∀ t : Ty, t = .var 0 ∨ t = .fn (.var 0) .unit (.closed ["io"]) →
      ((PassOp.run .empty [.freshTypeVar]).apply t).Closed := by
    rintro t (rfl | rfl)
    · exact ⟨by decide +kernel, by decide +kernel⟩
    · exact ⟨by decide +kernel, by decide +kernel⟩
  refine (unify_mostGeneral hu rfl (hclosed _ (.inl rfl)) (hclosed _ (.inr rfl))
    (.of .synthetic .letType)).1.1 fun he => ?_
  exact absurd (congrArg List.length he) (by decide +kernel)

/-- An equation with the type of a failed expression is absorbed. A variable that stands for such a
type is then equal to nothing else, and an equation with it is not reported. -/
theorem unify_absorbs : ∃ (u : Unifier) (a b : Ty) (why : Provenance), u.Reachable ∧
    u.numeric = ∅ ∧ a.containsError = false ∧ b.containsError = false ∧
    (∀ e ∈ (u.apply a).effects, e.tail = none) ∧ (∀ e ∈ (u.apply b).effects, e.tail = none) ∧
    (Unifier.unify a b why u).2.errors = u.errors ∧
    ¬ ∃ σ : Assignment, σ.Extends u.substitution ∧ σ.onType a = σ.onType b := by
  let why : Provenance := .of .synthetic .letType
  let ops : List PassOp := [.freshTypeVar, .unify (.var 0) (.tuple [.error]) why]
  refine ⟨PassOp.run .empty ops, .var 0, .tuple [.prim .s32], why, ?_, rfl, rfl, rfl, ?_, ?_, ?_, ?_⟩
  · exact Unifier.reachable_run ⟨trivial, ⟨by decide +kernel, by decide +kernel⟩, trivial⟩
  · decide +kernel
  · decide +kernel
  · decide +kernel
  · rintro ⟨σ, hσ, heq⟩
    have hbound : σ.type 0 = σ.onType (.tuple [.error]) := hσ.type 0 _ (by decide +kernel)
    have hread : σ.type 0 = σ.onType (.tuple [.prim .s32]) := heq
    rw [hbound] at hread
    simp [Assignment.onType, Ty.mapVars, Ty.mapVarsList] at hread

end RowCheck
