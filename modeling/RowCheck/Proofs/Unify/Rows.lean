import RowCheck.Proofs.Unify.Moves
import RowCheck.Proofs.Unify.Schemes

/-!
Actions that leave type variables as they are. Making variables, binding rows and letting labels
flow are such actions, and the inclusions that wait are all that the end of a pass has to act on.
-/
namespace RowCheck
namespace Unifier

variable {u u' u'' : Unifier}

/-- Whether all that waits are inclusions. -/
def Inclusions (u : Unifier) : Prop :=
  ∀ c ∈ u.pending, ∃ row within why, c = .inclusion row within why

/-- Whether two states agree on what type variables are bound to and on their bounds, and nothing
but inclusions has come to wait. -/
structure SameTypes (u u' : Unifier) : Prop where
  types : ∀ v, u'.substitution.type? v = u.substitution.type? v
  numeric : u'.numeric = u.numeric
  inclusions : u.Inclusions → u'.Inclusions

theorem SameTypes.refl (u : Unifier) : SameTypes u u := ⟨fun _ => rfl, rfl, id⟩

theorem SameTypes.trans (h : SameTypes u u') (h' : SameTypes u' u'') : SameTypes u u'' :=
  ⟨fun v => (h'.types v).trans (h.types v), h'.numeric.trans h.numeric, h'.inclusions ∘ h.inclusions⟩

instance : IsPreorder Unifier SameTypes where
  refl := .refl
  trans _ _ _ := .trans

/-- Whether an action leaves type variables as they are, in every state. -/
abbrev LeavesTypes {α : Type} (m : UnifyM α) : Prop := Moves SameTypes m

open Moves

/-- What changes rows only leaves type variables as they are. -/
theorem ChangesRows.leavesTypes {α : Type} {m : UnifyM α} (h : ChangesRows m) : LeavesTypes m :=
  h.imp fun _ _ hs => ⟨hs.type?, hs.eqs.2.1, fun hi => by
    rw [Inclusions, hs.eqs.2.2.1]
    exact hi⟩

theorem report_leavesTypes (d : Diagnostic) : LeavesTypes (report d) :=
  ⟨fun _ => ⟨fun _ => rfl, rfl, id⟩⟩

theorem note_leavesTypes (action : UnifyAction) (left right : Ty) (detail : String) :
    LeavesTypes (note action left right detail) :=
  (note_changesRows ..).leavesTypes

theorem defer_leavesTypes (row within : Row) (why : Provenance) :
    LeavesTypes (defer (.inclusion row within why)) := by
  refine ⟨fun u => ⟨fun _ => rfl, rfl, fun h c hc => ?_⟩⟩
  rcases List.mem_append.1 hc with hc | hc
  · exact h c hc
  · exact ⟨row, within, why, List.mem_singleton.1 hc⟩

theorem freshTypeVar_leavesTypes : LeavesTypes freshTypeVar :=
  ⟨fun u => ⟨Substitution.type?_freshType u.substitution, rfl, id⟩⟩

theorem freshType_leavesTypes : LeavesTypes freshType :=
  freshTypeVar_leavesTypes.bind fun _ => pure _

theorem freshRowVar_leavesTypes : LeavesTypes freshRowVar := freshRowVar_changesRows.leavesTypes

theorem freshRow_leavesTypes : LeavesTypes freshRow := freshRowVar_leavesTypes.bind fun _ => pure _

theorem solveRows_leavesTypes (e f : Row) : LeavesTypes (solveRows e f).run :=
  (solveRows_changesRows e f).leavesTypes

/-! ## Effects -/

theorem reportMissing_leavesTypes (missing : SortedSet String) (within : Row) (why : Provenance) :
    LeavesTypes (reportMissing missing within why) :=
  get_bind fun _ => report_leavesTypes _

theorem includeRow_leavesTypes (row within : Row) (why : Provenance) :
    LeavesTypes (includeRow row within why) := by
  unfold includeRow
  refine (includeLabels_changesRows row within).leavesTypes.bind fun missing => ?_
  split
  · refine get_bind fun u => ?_
    split
    · exact pure _
    · refine get_bind fun u' => ?_
      split
      · exact pure _
      · exact defer_leavesTypes ..
  · exact reportMissing_leavesTypes ..

theorem flowOnce_leavesTypes (is : List Inclusion) : LeavesTypes (flowOnce is) := by
  induction is with
  | nil => exact pure _
  | cons i is ih =>
    unfold flowOnce
    refine get_bind fun u => (includeLabels_changesRows ..).leavesTypes.bind fun missing => ?_
    dsimp only
    split
    · exact get_bind fun u' => ih.bind fun _ => pure _
    · exact (reportMissing_leavesTypes ..).bind fun _ => get_bind fun u' => ih.bind fun _ => pure _

theorem flow_leavesTypes (n : Nat) (is : List Inclusion) : LeavesTypes (flow n is) := by
  induction n generalizing is with
  | zero => exact pure _
  | succ n ih =>
    unfold flow
    refine (flowOnce_leavesTypes is).bind fun r => ?_
    dsimp only
    split
    · exact ih _
    · exact pure _

theorem takePending_leavesTypes {cs : List Constraint}
    (h : ∀ c ∈ cs, ∃ row within why, c = .inclusion row within why) :
    LeavesTypes (takePending cs) := by
  induction cs with
  | nil => exact pure _
  | cons c cs ih =>
    simp only [List.mem_cons, forall_eq_or_imp] at h
    obtain ⟨⟨row, within, why, rfl⟩, hcs⟩ := h
    exact (ih hcs).bind fun _ => pure _

/-- Letting labels flow and then identifying tails leaves types as they are. -/
theorem inclusions_leaveTypes (is : List Inclusion) :
    LeavesTypes (do
      let left ← flow (flowBound (← get) is) is
      for i in left do
        identifyTail i) :=
  get_bind fun _ => (flow_leavesTypes _ is).bind fun left =>
    (forIn (fun i => (identifyTail_changesRows i).leavesTypes) left).bind fun _ => pure _

/-- The end of a pass leaves types as they are, if only inclusions wait for it. -/
theorem finish_sameTypes (h : u.Inclusions) : SameTypes u (finish u).2 := by
  have hempty : SameTypes u { u with pending := [] } :=
    ⟨fun _ => rfl, rfl, fun _ c hc => by cases hc⟩
  have hrest : LeavesTypes (do
      let inclusions ← takePending u.pending
      let inclusions ← flow (flowBound (← get) inclusions) inclusions
      for i in inclusions do
        identifyTail i) :=
    (takePending_leavesTypes h).bind inclusions_leaveTypes
  exact hempty.trans (hrest.moves _)

/-! ## Schemes -/

theorem closeRows_leavesTypes (t : Ty) (fixed : SortedSet RowVar) :
    LeavesTypes (closeRows t fixed) :=
  ⟨fun u => ⟨u.type?_closeAll _, rfl, id⟩⟩

theorem generalize_leavesTypes (t : Ty) (env : TypeEnv) (topLevel : Bool) :
    LeavesTypes (generalize t env topLevel) := by
  unfold generalize
  refine get_bind fun u => ?_
  dsimp only
  split
  · exact (closeRows_leavesTypes ..).bind fun _ => get_bind fun _ => pure _
  · exact get_bind fun _ => pure _

theorem freshRowCopies_leavesTypes (vs : List RowVar) : LeavesTypes (freshRowCopies vs) := by
  induction vs with
  | nil => exact pure _
  | cons v vs ih =>
    exact freshRowVar_leavesTypes.bind fun _ => ih.bind fun _ => pure _

end Unifier
end RowCheck
