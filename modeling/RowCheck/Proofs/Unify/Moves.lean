import Mathlib.Order.Defs.Unbundled
import RowCheck.Unify.Effects

/-!
Actions that lead from every state to one that is related to it, also from one that is not valid.
Where the relation is a preorder, an action is of this kind if all actions are that it is made of.
Making rows equal and letting labels flow between them changes rows only.
-/
namespace RowCheck
namespace Unifier

/-- Whether an action leads from every state to a related one. -/
structure Moves (R : Unifier → Unifier → Prop) {α : Type} (m : UnifyM α) : Prop where
  moves : ∀ u, R u (m u).2

namespace Moves

variable {R R' : Unifier → Unifier → Prop} {α β : Type} {m : UnifyM α} {f : α → UnifyM β}

theorem imp (h : Moves R m) (hr : ∀ u u', R u u' → R' u u') : Moves R' m :=
  ⟨fun u => hr u _ (h.moves u)⟩

theorem get_bind {f : Unifier → UnifyM β} (h : ∀ u, Moves R (f u)) : Moves R (get >>= f) :=
  ⟨fun u => (h u).moves u⟩

protected theorem modify {f : Unifier → Unifier} (h : ∀ u, R u (f u)) : Moves R (modify f) :=
  ⟨h⟩

theorem run_lift (h : Moves R m) : Moves R (liftM m : SolveM α).run := ⟨h.moves⟩

theorem run_get_bind {g : Unifier → SolveM β} (h : ∀ u, Moves R (g u).run) :
    Moves R (get >>= g).run := ⟨fun u => (h u).moves u⟩

variable [IsPreorder Unifier R]

theorem pure (a : α) : Moves R (pure a : UnifyM α) := ⟨fun u => refl_of R u⟩

theorem bind (h : Moves R m) (hf : ∀ a, Moves R (f a)) : Moves R (m >>= f) :=
  ⟨fun u => trans_of R (h.moves u) ((hf (m u).1).moves (m u).2)⟩

theorem run_pure (a : α) : Moves R (Pure.pure a : SolveM α).run := ⟨fun u => refl_of R u⟩

theorem run_throw (e : UnifyFailure) : Moves R (MonadExcept.throw e : SolveM α).run :=
  ⟨fun u => refl_of R u⟩

theorem run_bind {x : SolveM α} {g : α → SolveM β} (h : Moves R x.run)
    (hg : ∀ a, Moves R (g a).run) : Moves R (x >>= g).run := by
  refine bind (f := ExceptT.bindCont g) h fun r => ?_
  cases r with
  | ok a => exact hg a
  | error e => exact pure _

/-- What each round of a loop does, the loop does. -/
theorem forIn {f : α → UnifyM Unit} (hf : ∀ a, Moves R (f a)) (as : List α) :
    Moves R (forIn as PUnit.unit fun a _ => do
      f a
      return ForInStep.yield PUnit.unit) := by
  induction as with
  | nil => exact pure _
  | cons a as ih =>
    rw [List.forIn_cons]
    refine ((hf a).bind fun _ => pure (ForInStep.yield PUnit.unit)).bind fun r => ?_
    cases r with
    | yield _ => exact ih
    | done _ => exact pure _

end Moves

/-! ## What changes rows only -/

/-- What making rows equal has nothing to do with. -/
def apartFromRows (u : Unifier) := (u.substitution.types, u.numeric, u.pending, u.errors)

/-- Whether two states differ in rows only. -/
def SameApart (u u' : Unifier) : Prop := u'.apartFromRows = u.apartFromRows

instance : IsPreorder Unifier SameApart where
  refl _ := rfl
  trans _ _ _ h h' := Eq.trans h' h

theorem SameApart.eqs {u u' : Unifier} (h : SameApart u u') :
    u'.substitution.types = u.substitution.types ∧ u'.numeric = u.numeric ∧
      u'.pending = u.pending ∧ u'.errors = u.errors := by
  simpa only [SameApart, apartFromRows, Prod.mk.injEq] using h

theorem SameApart.type? {u u' : Unifier} (h : SameApart u u') (v : TyVar) :
    u'.substitution.type? v = u.substitution.type? v := by
  rw [Substitution.type?, h.eqs.1]
  rfl

/-- Whether an action changes rows only. -/
abbrev ChangesRows {α : Type} (m : UnifyM α) : Prop := Moves SameApart m

open Moves

theorem note_changesRows (action : UnifyAction) (left right : Ty) (detail : String) :
    ChangesRows (note action left right detail) := by
  refine ⟨fun u => ?_⟩
  show SameApart u (if u.tracing then { u with steps := _ } else u)
  split <;> rfl

theorem note_substitution (action : UnifyAction) (left right : Ty) (detail : String) (u : Unifier) :
    (note action left right detail u).2.substitution = u.substitution := by
  show (if u.tracing then { u with steps := _ } else u).substitution = u.substitution
  split <;> rfl

theorem freshRowVar_changesRows : ChangesRows freshRowVar := ⟨fun _ => rfl⟩

theorem bindRowVar_changesRows (v : RowVar) (r : Row) : ChangesRows (bindRowVar v r) :=
  (note_changesRows ..).bind fun _ => ⟨fun _ => rfl⟩

theorem absorb_changesRows (a b : Ty) : ChangesRows (absorb a b).run :=
  run_lift (note_changesRows ..)

theorem solveRows_changesRows (e f : Row) : ChangesRows (solveRows e f).run := by
  unfold solveRows
  refine run_get_bind fun u => run_get_bind fun u' => ?_
  dsimp only
  split
  · split
    · exact run_pure _
    · exact run_throw _
  · split
    · exact run_lift (bindRowVar_changesRows ..)
    · exact run_bind (run_throw _) fun _ => run_lift (bindRowVar_changesRows ..)
  · split
    · exact run_lift (bindRowVar_changesRows ..)
    · exact run_bind (run_throw _) fun _ => run_lift (bindRowVar_changesRows ..)
  · split
    · split
      · exact run_pure _
      · exact run_throw _
    · refine run_bind (run_lift freshRowVar_changesRows) fun _ => ?_
      refine run_bind (run_lift (note_changesRows ..)) fun _ => ?_
      refine run_bind (run_lift (bindRowVar_changesRows ..)) fun _ => ?_
      exact run_lift (bindRowVar_changesRows ..)

theorem includeLabels_changesRows (row within : Row) : ChangesRows (includeLabels row within) := by
  unfold includeLabels
  refine get_bind fun u => get_bind fun u' => ?_
  dsimp only
  split
  · exact pure _
  · split
    · refine freshRowVar_changesRows.bind fun _ => ?_
      exact (bindRowVar_changesRows ..).bind fun _ => pure _
    · exact pure _

theorem identifyTail_changesRows (i : Inclusion) : ChangesRows (identifyTail i) := by
  unfold identifyTail
  refine get_bind fun u => get_bind fun u' => ?_
  dsimp only
  split
  · exact pure _
  · split
    · exact pure _
    · exact bindRowVar_changesRows ..

end Unifier
end RowCheck
