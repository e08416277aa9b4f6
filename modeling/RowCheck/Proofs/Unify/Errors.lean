import RowCheck.Infer.Generalize
import RowCheck.Proofs.Unify.Moves

/-!
Errors are never taken back. That holds in every state, also in one that is not valid any more, so a
pass without errors at its end had none on the way. Solving an equation, moreover, has nothing to do
with inclusions: it reports no effect mismatch, and leaves what waits as it is.
-/
namespace RowCheck
namespace Unifier

variable {u : Unifier}

/-- Whether a state still has all errors of an earlier one. -/
def Remembers (u u' : Unifier) : Prop := u.errors <+: u'.errors

instance : IsPreorder Unifier Remembers where
  refl _ := List.prefix_refl _
  trans _ _ _ := List.IsPrefix.trans

/-- Whether an action only adds to the errors, in every state. -/
abbrev AddsErrors {α : Type} (m : UnifyM α) : Prop := Moves Remembers m

/-- The effect mismatches among the errors. -/
def mismatches (u : Unifier) : List Diagnostic :=
  u.errors.filter (fun d => d.category = .effectMismatch)

/-- Whether two states have the same inclusions waiting and the same effect mismatches. -/
structure SameInclusions (u u' : Unifier) : Prop where
  errors : u.errors <+: u'.errors
  mismatches : u'.mismatches = u.mismatches
  pending : u'.pending = u.pending

theorem SameInclusions.of_eq {u u' : Unifier} (he : u'.errors = u.errors)
    (hp : u'.pending = u.pending) : SameInclusions u u' :=
  ⟨he ▸ List.prefix_refl _, by rw [Unifier.mismatches, he]; rfl, hp⟩

instance : IsPreorder Unifier SameInclusions where
  refl _ := .of_eq rfl rfl
  trans _ _ _ h h' := ⟨h.errors.trans h'.errors, h'.mismatches.trans h.mismatches,
    h'.pending.trans h.pending⟩

/-- Whether an action has nothing to do with inclusions, in every state. -/
abbrev LeavesInclusions {α : Type} (m : UnifyM α) : Prop := Moves SameInclusions m

theorem LeavesInclusions.addsErrors {α : Type} {m : UnifyM α} (h : LeavesInclusions m) :
    AddsErrors m := h.imp fun _ _ => SameInclusions.errors

theorem ChangesRows.leavesInclusions {α : Type} {m : UnifyM α} (h : ChangesRows m) :
    LeavesInclusions m :=
  h.imp fun _ _ hs => .of_eq hs.eqs.2.2.2 hs.eqs.2.2.1

open Moves

theorem report_addsErrors (d : Diagnostic) : AddsErrors (report d) :=
  ⟨fun _ => List.prefix_append _ _⟩

theorem report_leavesInclusions {d : Diagnostic} (h : d.category ≠ .effectMismatch) :
    LeavesInclusions (report d) := by
  refine ⟨fun u => ⟨List.prefix_append _ _, ?_, rfl⟩⟩
  show (u.errors ++ [d]).filter _ = u.errors.filter _
  simp [h]

@[simp] theorem category_report (p : Provenance) (c : Category) (message : String) :
    (p.report c message).category = c := by
  unfold Provenance.report
  dsimp only
  split <;> rfl

@[simp] theorem category_reportWithHelp (p : Provenance) (c : Category) (message : String) :
    (p.reportWithHelp c message).category = c := by
  unfold Provenance.reportWithHelp
  dsimp only
  split
  · exact category_report p c message
  · exact category_report p c message

theorem note_leavesInclusions (action : UnifyAction) (left right : Ty) (detail : String) :
    LeavesInclusions (note action left right detail) :=
  (note_changesRows ..).leavesInclusions

theorem absorb_leavesInclusions (a b : Ty) : LeavesInclusions (absorb a b).run :=
  (absorb_changesRows a b).leavesInclusions

theorem freshTypeVar_leavesInclusions : LeavesInclusions freshTypeVar :=
  ⟨fun _ => .of_eq rfl rfl⟩

theorem addNumeric_leavesInclusions (v : TyVar) (span : Span) :
    LeavesInclusions (addNumeric v span) :=
  .modify fun _ => .of_eq rfl rfl

theorem find_leavesInclusions (t : Ty) : LeavesInclusions (find t) := 
  ⟨fun _ => .of_eq rfl rfl⟩

theorem requireNumeric_leavesInclusions (t : Ty) (why : Provenance) :
    LeavesInclusions (requireNumeric t why) := by
  unfold requireNumeric
  refine (find_leavesInclusions t).bind fun head => ?_
  split
  · exact addNumeric_leavesInclusions ..
  · exact pure _
  · split
    · split
      · exact pure _
      · exact get_bind fun _ => report_leavesInclusions nofun
    · exact get_bind fun _ => report_leavesInclusions nofun

theorem bindVar_leavesInclusions (v : TyVar) (t : Ty) : LeavesInclusions (bindVar v t).run := by
  unfold bindVar
  refine run_get_bind fun u => ?_
  dsimp only
  split
  · exact run_throw _
  · refine run_bind (run_lift (note_leavesInclusions ..)) fun _ => ?_
    refine run_bind (run_lift (.modify fun _ => .of_eq rfl rfl)) fun _ => ?_
    refine run_get_bind fun u' => ?_
    split
    · exact run_pure _
    · refine run_bind (run_lift (.modify fun _ => .of_eq rfl rfl)) fun _ => ?_
      exact run_lift (requireNumeric_leavesInclusions ..)

/-- Whether a step of the solver on a type has nothing to do with inclusions. -/
def StepLeaves (again : Ty → Ty → SolveM Unit) (a : Ty) : Prop :=
  ∀ b, LeavesInclusions (solveStep again a b).run

/-- The same for a list of equations. -/
def EachLeaves (again : Ty → Ty → SolveM Unit) (as : List Ty) : Prop :=
  ∀ bs, LeavesInclusions (solveEach again as bs).run

theorem find_bind_leaves (t : Ty) {f : Ty → SolveM Unit} (hf : ∀ t', LeavesInclusions (f t').run) :
    LeavesInclusions (liftM (find t) >>= f).run :=
  run_bind (run_lift (find_leavesInclusions t)) hf

theorem note_bind_leaves {action : UnifyAction} {left right : Ty} {detail : String} {m : SolveM Unit}
    (hm : LeavesInclusions m.run) :
    LeavesInclusions (liftM (note action left right detail) >>= fun _ => m).run :=
  run_bind (run_lift (note_leavesInclusions ..)) fun _ => hm

section

variable {again : Ty → Ty → SolveM Unit}

theorem error_leaves : StepLeaves again .error := by
  intro b
  unfold solveStep
  exact find_bind_leaves b fun _ => absorb_leavesInclusions ..

theorem prim_leaves (p : Primitive) : StepLeaves again (.prim p) := by
  intro b
  unfold solveStep
  refine find_bind_leaves b fun b' => ?_
  split
  · exact absorb_leavesInclusions ..
  · exact bindVar_leavesInclusions ..
  · split
    · exact run_pure _
    · exact run_throw _
  · exact run_throw _

theorem string_leaves : StepLeaves again .string := by
  intro b
  unfold solveStep
  refine find_bind_leaves b fun b' => ?_
  split
  · exact absorb_leavesInclusions ..
  · exact bindVar_leavesInclusions ..
  · exact run_pure _
  · exact run_throw _

theorem unit_leaves : StepLeaves again .unit := by
  intro b
  unfold solveStep
  refine find_bind_leaves b fun b' => ?_
  split
  · exact absorb_leavesInclusions ..
  · exact bindVar_leavesInclusions ..
  · exact run_pure _
  · exact run_throw _

theorem ref_leaves (k : BorrowKind) {inner : Ty} (hinner : StepLeaves again inner) :
    StepLeaves again (.ref k inner) := by
  intro b
  unfold solveStep
  refine find_bind_leaves b fun b' => ?_
  split
  · exact absorb_leavesInclusions ..
  · exact bindVar_leavesInclusions ..
  · split
    · exact hinner _
    · exact run_throw _
  · exact run_throw _

theorem tuple_leaves {items : List Ty} (hitems : EachLeaves again items) :
    StepLeaves again (.tuple items) := by
  intro b
  unfold solveStep
  refine find_bind_leaves b fun b' => ?_
  split
  · exact absorb_leavesInclusions ..
  · exact bindVar_leavesInclusions ..
  · split
    · exact note_bind_leaves (hitems _)
    · exact run_throw _
  · exact run_throw _

theorem named_leaves (name : String) {args : List Ty} (hargs : EachLeaves again args) :
    StepLeaves again (.named name args) := by
  intro b
  unfold solveStep
  refine find_bind_leaves b fun b' => ?_
  split
  · exact absorb_leavesInclusions ..
  · exact bindVar_leavesInclusions ..
  · split
    · exact note_bind_leaves (hargs _)
    · exact run_throw _
  · exact run_throw _

theorem fn_leaves {p r : Ty} (e : Row) (hparam : StepLeaves again p) (hresult : StepLeaves again r) :
    StepLeaves again (.fn p r e) := by
  intro b
  unfold solveStep
  refine find_bind_leaves b fun b' => ?_
  split
  · exact absorb_leavesInclusions ..
  · exact bindVar_leavesInclusions ..
  · refine note_bind_leaves ?_
    refine run_bind (hparam _) fun _ => ?_
    refine run_bind (hresult _) fun _ => ?_
    exact (solveRows_changesRows ..).leavesInclusions
  · exact run_throw _

theorem var_leaves (hagain : ∀ a b, LeavesInclusions (again a b).run) (v : TyVar) :
    StepLeaves again (.var v) := by
  intro b
  unfold solveStep
  refine find_bind_leaves _ fun a' => find_bind_leaves b fun b' => ?_
  split
  · split
    · exact run_lift (note_leavesInclusions ..)
    · exact bindVar_leavesInclusions ..
  · exact absorb_leavesInclusions ..
  · exact bindVar_leavesInclusions ..
  · exact hagain ..

mutual

theorem solveStep_leavesInclusions (hagain : ∀ a b, LeavesInclusions (again a b).run) :
    (a : Ty) → StepLeaves again a
  | .error => error_leaves
  | .prim p => prim_leaves p
  | .string => string_leaves
  | .unit => unit_leaves
  | .ref k inner => ref_leaves k (solveStep_leavesInclusions hagain inner)
  | .tuple items => tuple_leaves (solveEach_leavesInclusions hagain items)
  | .named name args => named_leaves name (solveEach_leavesInclusions hagain args)
  | .fn p r e => fn_leaves e (solveStep_leavesInclusions hagain p) (solveStep_leavesInclusions hagain r)
  | .var v => var_leaves hagain v

theorem solveEach_leavesInclusions (hagain : ∀ a b, LeavesInclusions (again a b).run) :
    (as : List Ty) → EachLeaves again as
  | [], bs => by
    unfold solveEach
    exact run_pure _
  | a :: as, [] => by
    unfold solveEach
    exact run_pure _
  | a :: as, b :: bs => by
    unfold solveEach
    refine run_bind (solveStep_leavesInclusions hagain a b) fun _ => ?_
    exact solveEach_leavesInclusions hagain as bs

end

end

theorem solve_leavesInclusions (a b : Ty) : LeavesInclusions (solve a b).run := by
  have hwithin : ∀ n a b, LeavesInclusions (solveWithin n a b).run := by
    intro n
    induction n with
    | zero => exact fun _ _ => run_throw _
    | succ n ih => exact solveStep_leavesInclusions ih
  exact run_get_bind fun u => hwithin _ a b

theorem unify_leavesInclusions (a b : Ty) (why : Provenance) :
    LeavesInclusions (unify a b why) := by
  unfold unify
  refine (solve_leavesInclusions a b).bind fun r => ?_
  split
  · exact pure _
  · exact get_bind fun _ => (note_leavesInclusions ..).bind fun _ =>
      report_leavesInclusions (by simp)
  · exact get_bind fun _ => get_bind fun _ => (note_leavesInclusions ..).bind fun _ =>
      report_leavesInclusions (by simp)

theorem freshCopies_leavesInclusions (numeric : SortedSet TyVar) (span : Span) (vs : List TyVar) :
    LeavesInclusions (freshCopies numeric span vs) := by
  induction vs with
  | nil => exact pure _
  | cons v vs ih =>
    unfold freshCopies
    refine freshTypeVar_leavesInclusions.bind fun w => ?_
    dsimp only
    split
    · exact (addNumeric_leavesInclusions ..).bind fun _ => ih.bind fun _ => pure _
    · exact ih.bind fun _ => pure _

theorem freshRowCopies_leavesInclusions (vs : List RowVar) :
    LeavesInclusions (freshRowCopies vs) := by
  induction vs with
  | nil => exact pure _
  | cons v vs ih =>
    exact freshRowVar_changesRows.leavesInclusions.bind fun _ => ih.bind fun _ => pure _

theorem instantiate_leavesInclusions (s : Scheme) (span : Span) :
    LeavesInclusions (s.instantiate span) := by
  unfold Scheme.instantiate
  split
  · exact pure _
  · refine (freshCopies_leavesInclusions ..).bind fun _ => ?_
    exact (freshRowCopies_leavesInclusions _).bind fun _ => pure _

theorem generalize_leavesInclusions (t : Ty) (env : TypeEnv) (topLevel : Bool) :
    LeavesInclusions (generalize t env topLevel) := by
  have hclose : ∀ fixed, LeavesInclusions (closeRows t fixed) := fun _ =>
    ⟨fun _ => .of_eq rfl rfl⟩
  unfold generalize
  refine get_bind fun u => ?_
  dsimp only
  split
  · exact (hclose _).bind fun _ => get_bind fun _ => pure _
  · exact get_bind fun _ => pure _

theorem includeRow_addsErrors (row within : Row) (why : Provenance) :
    AddsErrors (includeRow row within why) := by
  unfold includeRow
  refine (includeLabels_changesRows row within).leavesInclusions.addsErrors.bind fun missing => ?_
  split
  · refine get_bind fun u => ?_
    split
    · exact pure _
    · refine get_bind fun u' => ?_
      split
      · exact pure _
      · exact .modify fun _ => List.prefix_refl _
  · exact get_bind fun _ => report_addsErrors _

end Unifier
end RowCheck
