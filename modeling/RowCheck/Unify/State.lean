import RowCheck.Unify.Constraint
import RowCheck.Types.Substitution

/-!
The state of one inference pass: what its variables stand for, which of them must be numeric, the
effect inclusions that wait for the end of the pass, and the errors found.
-/
namespace RowCheck

/-- An inclusion of one row in another. -/
structure Inclusion where
  row : Row
  within : Row
  why : Provenance
  deriving Inhabited

structure Unifier where
  substitution : Substitution
  /-- Unbound variables that must be numeric, and where that was first required. -/
  numeric : SortedMap TyVar Span
  /-- Constraints that wait for the end of the pass. -/
  pending : List Constraint
  errors : List Diagnostic
  /-- Whether steps are recorded. -/
  tracing : Bool
  steps : List UnifyStep
  deriving Inhabited

/-- An action on the state of an inference pass. -/
abbrev UnifyM := StateM Unifier

namespace Unifier

def empty : Unifier := ⟨.empty, ∅, [], [], false, []⟩

def hasErrors (u : Unifier) : Bool := !u.errors.isEmpty

def apply (u : Unifier) (t : Ty) : Ty := u.substitution.apply t

def findRow (u : Unifier) (r : Row) : Row := u.substitution.findRow r

def freshTypeVar : UnifyM TyVar := fun u =>
  let (v, s) := u.substitution.freshType
  (v, { u with substitution := s })

def freshType : UnifyM Ty := return .var (← freshTypeVar)

def freshRowVar : UnifyM RowVar := fun u =>
  let (v, s) := u.substitution.freshRow
  (v, { u with substitution := s })

/-- A row that is a new variable. -/
def freshRow : UnifyM Row := return .ofVar (← freshRowVar)

def report (d : Diagnostic) : UnifyM Unit :=
  modify (fun u => { u with errors := u.errors ++ [d] })

/-- Keep a constraint for the end of the pass. -/
def defer (c : Constraint) : UnifyM Unit :=
  modify (fun u => { u with pending := u.pending ++ [c] })

/-- The head of a type under the current substitution. -/
def find (t : Ty) : UnifyM Ty := fun u =>
  let (t, s) := u.substitution.find t
  (t, { u with substitution := s })

/-- Record a step, if steps are recorded. -/
def note (action : UnifyAction) (left right : Ty) (detail : String) : UnifyM Unit :=
  modify (fun u =>
    if u.tracing then
      { u with steps := u.steps ++ [⟨u.steps.length, action, left.display, right.display, detail⟩] }
    else u)

/-- Require that an unbound variable is numeric. The first place that requires it is kept. -/
def addNumeric (v : TyVar) (span : Span) : UnifyM Unit :=
  modify (fun u => { u with numeric := u.numeric.insertNew v span })

def bindRowVar (v : RowVar) (r : Row) : UnifyM Unit := do
  note .bindRowVar .unit .unit s!"e{v} := {r.text}"
  modify (fun u => { u with substitution := u.substitution.bindRow v r })

end Unifier

end RowCheck
