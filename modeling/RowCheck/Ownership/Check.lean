import RowCheck.Ownership.Lower

/-!
Checking the ownership of a declaration: it gets told how its values are held, and uses of moved
values, borrows that live too long and accesses that disturb a borrow are faults.
-/
namespace RowCheck

/-- The faults of ownership in the body of a function, in the order in which they are found. -/
def TExpr.ownershipFaults (body : TExpr) : List Diagnostic :=
  ((Lowering.lower .result body).run ⟨.empty, []⟩).2.faults

/-- Check a function. -/
def TFunction.checkOwnership (f : TFunction) : TFunction × List Diagnostic :=
  ({ f with body := f.body.hold .value }, f.body.ownershipFaults)

/-- Check a declaration. There is nothing to check in the definition of a type. -/
def TDecl.checkOwnership : TDecl → TDecl × List Diagnostic
  | .fn f => (.fn f.checkOwnership.1, f.checkOwnership.2)
  | .active f p => (.active f.checkOwnership.1 p, f.checkOwnership.2)
  | .type t => (.type t, [])

end RowCheck
