import RowCheck.Diagnostic
import RowCheck.Types.Display

/-!
Constraints on types and rows, and why each is there. The reason decides how a failure is explained.
-/
namespace RowCheck

/-- Why a constraint is there. -/
inductive Reason where
  | functionArg
  /-- What is applied must be a function. -/
  | application
  | paramType
  | resultType
  | letType
  | condition
  | ifBranches
  | matchArms
  | patternMatch
  | binaryOp (symbol : String)
  | unaryOp (symbol : String)
  | constructorField (constructor : String)
  /-- Only references can be dereferenced. -/
  | deref
  | assign
  /-- The uses of a declaration must agree with its definition. -/
  | recursiveUse
  /-- The body of an active pattern returns one of its cases. -/
  | activeResult
  /-- Effects performed here are performed by the function around. -/
  | performedEffect
  /-- A function performs only what its signature declares. -/
  | declaredEffects (function : String)
  deriving DecidableEq, Repr, Inhabited

def Reason.help? : Reason → Option String
  | functionArg => some "check the argument against the function's parameter type"
  | application => some "this expression is applied to more arguments than its type accepts"
  | ifBranches => some "both branches of an `if` must have the same type"
  | matchArms => some "every match arm must produce the same type"
  | binaryOp op => some s!"both operands of `{op}` must have the same type"
  | declaredEffects f => some s!"add the missing effects to the signature of `{f}`"
  | _ => none

/-- What is to be seen at the related position of a constraint. -/
def Reason.relatedLabel : Reason → String
  | functionArg | application => "function applied here"
  | paramType | resultType | letType => "type declared here"
  | ifBranches | matchArms => "first branch has this type"
  | binaryOp _ => "other operand"
  | recursiveUse => "defined here"
  | declaredEffects _ => "effects declared here"
  | _ => "related to this"

/-- Where a constraint comes from: its position, the other position involved if there is one, and
the reason for it. -/
structure Provenance where
  span : Span
  related : Option Span
  reason : Reason
  deriving DecidableEq, Repr, Inhabited

namespace Provenance

def of (span : Span) (reason : Reason) : Provenance := ⟨span, none, reason⟩

def relatedTo (p : Provenance) (span : Span) : Provenance := { p with related := some span }

/-- A diagnostic at the position of a constraint, labelled with the related position. -/
def report (p : Provenance) (category : Category) (message : String) : Diagnostic :=
  let d := Diagnostic.error category message p.span
  match p.related with
  | some span => d.withLabel span p.reason.relatedLabel
  | none => d

/-- The same with the help that goes with the reason. -/
def reportWithHelp (p : Provenance) (category : Category) (message : String) : Diagnostic :=
  let d := p.report category message
  match p.reason.help? with
  | some help => d.withHelp help
  | none => d

end Provenance

inductive Constraint where
  /-- Two types must be equal. -/
  | equal (expected actual : Ty) (why : Provenance)
  /-- Every effect of `row` must be one of `within`. -/
  | inclusion (row within : Row) (why : Provenance)
  /-- A type must be numeric. -/
  | numeric (ty : Ty) (why : Provenance)
  deriving Inhabited

/-- How an attempt to make two types equal fails. -/
inductive UnifyFailure where
  | mismatch
  /-- The variable lies within the type it should stand for. -/
  | occurs (v : TyVar) (within : Ty)
  deriving Repr, Inhabited

/-- What happens to an equation in one step. -/
inductive UnifyAction where
  | identity
  | decompose
  | bind
  | bindRowVar
  | rowDecompose
  | occursCheck
  | error
  deriving DecidableEq, Repr, Inhabited

def UnifyAction.name : UnifyAction → String
  | identity => "identity"
  | decompose => "decompose"
  | bind => "bind"
  | bindRowVar => "bind_row_var"
  | rowDecompose => "row_decompose"
  | occursCheck => "occurs_check"
  | error => "error"

/-- A recorded step of unification. -/
structure UnifyStep where
  step : Nat
  action : UnifyAction
  left : String
  right : String
  detail : String
  deriving DecidableEq, Repr, Inhabited

end RowCheck
