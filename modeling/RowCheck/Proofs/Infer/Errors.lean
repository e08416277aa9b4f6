import RowCheck.Infer.Group
import RowCheck.Proofs.Unify.Inclusions

/-!
Errors are never taken back: not by resolving written types, nor by equations, nor at the end of a
pass. This holds in every state.
-/
namespace RowCheck

/-! ## Written types -/

/-- Whether an action on written variables only adds to the errors, in every scope and state. -/
structure ResolveM.AddsErrors {α : Type} (x : ResolveM α) : Prop where
  run : ∀ scope, Unifier.AddsErrors (x.run scope)

namespace ResolveM.AddsErrors

variable {α β : Type} {x : ResolveM α} {f : α → ResolveM β}

theorem pure (a : α) : AddsErrors (pure a) := ⟨fun _ => .pure _⟩

theorem bind (h : x.AddsErrors) (hf : ∀ a, (f a).AddsErrors) : (x >>= f).AddsErrors :=
  ⟨fun scope => (h.run scope).bind fun r => (hf r.1).run r.2⟩

theorem get_bind {f : TypeScope → ResolveM β} (h : ∀ scope, (f scope).AddsErrors) :
    (get >>= f).AddsErrors := ⟨fun scope => (h scope).run scope⟩

theorem set_bind {f : PUnit → ResolveM β} (scope : TypeScope) (h : (f ⟨⟩).AddsErrors) :
    (set scope >>= f).AddsErrors := ⟨fun _ => h.run scope⟩

theorem lift_bind {y : UnifyM α} (h : Unifier.AddsErrors y) (hf : ∀ a, (f a).AddsErrors) :
    (liftM y >>= f).AddsErrors := ⟨fun scope => h.bind fun a => (hf a).run scope⟩

end ResolveM.AddsErrors

open Unifier

namespace TypeExpr

theorem fail_addsErrors (category : Category) (message : String) (span : Span) :
    (fail category message span).AddsErrors :=
  .lift_bind (report_addsErrors _) fun _ => .pure _

theorem resolveNamed_addsErrors (types : TypeRegistry) (span : Span) (name : String)
    (args : List Ty) : (resolveNamed types span name args).AddsErrors := by
  unfold resolveNamed
  split
  · split
    · exact .pure _
    · exact fail_addsErrors ..
  · split
    · split
      · exact .pure _
      · exact fail_addsErrors ..
    · exact fail_addsErrors ..

theorem resolveVar_addsErrors (span : Span) (name : String) :
    (resolveVar span name).AddsErrors := by
  unfold resolveVar
  refine .get_bind fun scope => ?_
  split
  · exact .pure _
  · split
    · exact fail_addsErrors ..
    · exact .lift_bind ⟨fun _ => List.prefix_refl _⟩ fun _ => .set_bind _ (.pure _)

end TypeExpr

theorem RowExpr.resolve_addsErrors (row : RowExpr) : row.resolve.AddsErrors := by
  unfold RowExpr.resolve
  dsimp only
  split
  · exact .pure _
  · refine .get_bind fun scope => ?_
    split
    · exact .pure _
    · split
      · exact .lift_bind (report_addsErrors _) fun _ => .pure _
      · exact .lift_bind ⟨fun _ => List.prefix_refl _⟩ fun _ => .set_bind _ (.pure _)

mutual

theorem TypeExpr.resolve_addsErrors (types : TypeRegistry) : (t : TypeExpr) →
    (t.resolve types).AddsErrors
  | .named span name args => by
    unfold TypeExpr.resolve
    exact (TypeExpr.resolveList_addsErrors types args).bind fun _ =>
      TypeExpr.resolveNamed_addsErrors ..
  | .var span name => by
    unfold TypeExpr.resolve
    exact TypeExpr.resolveVar_addsErrors ..
  | .tuple _ items => by
    unfold TypeExpr.resolve
    exact (TypeExpr.resolveList_addsErrors types items).bind fun _ => .pure _
  | .ref _ _ inner => by
    unfold TypeExpr.resolve
    exact (TypeExpr.resolve_addsErrors types inner).bind fun _ => .pure _
  | .fn _ param result effects => by
    unfold TypeExpr.resolve
    refine (TypeExpr.resolve_addsErrors types param).bind fun _ => ?_
    refine (TypeExpr.resolve_addsErrors types result).bind fun _ => ?_
    split
    · exact (RowExpr.resolve_addsErrors _).bind fun _ => .pure _
    · exact .pure _

theorem TypeExpr.resolveList_addsErrors (types : TypeRegistry) : (ts : List TypeExpr) →
    (TypeExpr.resolveList types ts).AddsErrors
  | [] => .pure _
  | t :: ts => by
    unfold TypeExpr.resolveList
    refine (TypeExpr.resolve_addsErrors types t).bind fun _ => ?_
    exact (TypeExpr.resolveList_addsErrors types ts).bind fun _ => .pure _

end

/-! ## Equations of several types -/

theorem freshTypes_addsErrors (vs : List TyVar) : AddsErrors (freshTypes vs) := by
  induction vs with
  | nil => exact .pure _
  | cons v vs ih => exact Moves.bind ⟨fun _ => List.prefix_refl _⟩ fun _ => ih.bind fun _ => .pure _

theorem Checker.freshItems_addsErrors (ps : List Pattern) : AddsErrors (freshItems ps) := by
  induction ps with
  | nil => exact .pure _
  | cons p ps ih => exact Moves.bind ⟨fun _ => List.prefix_refl _⟩ fun _ => ih.bind fun _ => .pure _

theorem unify_addsErrors (a b : Ty) (why : Provenance) : AddsErrors (unify a b why) :=
  (unify_leavesInclusions a b why).addsErrors

theorem Checker.unifyFields_addsErrors (constructor : String) (fields : List Ty)
    (args : List TExpr) : AddsErrors (unifyFields constructor fields args) := by
  induction fields generalizing args with
  | nil => exact .pure _
  | cons t ts ih =>
    cases args with
    | nil => exact .pure _
    | cons e es => exact (unify_addsErrors ..).bind fun _ => ih es

/-! ## The end of a pass -/

theorem reportMissing_addsErrors (missing : SortedSet String) (within : Row) (why : Provenance) :
    AddsErrors (reportMissing missing within why) :=
  .get_bind fun _ => report_addsErrors _

theorem includeLabels_addsErrors (row within : Row) : AddsErrors (includeLabels row within) :=
  (includeLabels_changesRows row within).leavesInclusions.addsErrors

theorem flowOnce_addsErrors (is : List Inclusion) : AddsErrors (flowOnce is) := by
  induction is with
  | nil => exact .pure _
  | cons i is ih =>
    unfold flowOnce
    refine .get_bind fun u => (includeLabels_addsErrors ..).bind fun missing => ?_
    dsimp only
    split
    · exact .get_bind fun _ => ih.bind fun _ => .pure _
    · exact (reportMissing_addsErrors ..).bind fun _ => .get_bind fun _ => ih.bind fun _ => .pure _

theorem flow_addsErrors (n : Nat) (is : List Inclusion) : AddsErrors (flow n is) := by
  induction n generalizing is with
  | zero => exact .pure _
  | succ n ih =>
    unfold flow
    refine (flowOnce_addsErrors is).bind fun q => ?_
    dsimp only
    split
    · exact ih q.1
    · exact .pure _

theorem takePending_addsErrors (cs : List Constraint) : AddsErrors (takePending cs) := by
  induction cs with
  | nil => exact .pure _
  | cons c cs ih =>
    cases c with
    | inclusion row within why => exact ih.bind fun _ => .pure _
    | equal expected actual why => exact (unify_addsErrors ..).bind fun _ => ih
    | numeric t why => exact (requireNumeric_leavesInclusions t why).addsErrors.bind fun _ => ih

theorem finish_addsErrors : AddsErrors finish := by
  unfold finish
  refine .get_bind fun u => Moves.bind (.modify fun _ => List.prefix_refl _) fun _ => ?_
  refine (takePending_addsErrors _).bind fun is => .get_bind fun u' => ?_
  refine (flow_addsErrors _ is).bind fun is => ?_
  exact .forIn (fun i => (identifyTail_changesRows i).leavesInclusions.addsErrors) is

end RowCheck
