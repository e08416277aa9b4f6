import RowCheck.Infer.Env
import RowCheck.Unify.State

/-!
From types to schemes and back. Generalizing quantifies the variables that the surroundings do not
fix, instantiating puts new variables in their place, and a canonical scheme numbers its variables
by their first occurrence.
-/
namespace RowCheck

/-- Close the rows of a type that carry no information: a row variable that occurs once,
positively, and is not fixed by the surroundings could only stand for effects that nobody
observes. -/
def closeRows (t : Ty) (fixed : SortedSet RowVar) : UnifyM Unit :=
  modify (fun u =>
    let t := u.apply t
    let free := t.freeRows.filter (fun v => decide (t.polarity v = (1, 0)) && !decide (v ∈ fixed))
    { u with substitution := free.toList.foldl (fun s v => s.bindRow v .pure) u.substitution })

/-- Quantify the variables of a type that are not free in the environment. Only a top-level scheme
quantifies rows: within a body, inclusions into a row may still wait for the end of the pass. -/
def generalize (t : Ty) (env : TypeEnv) (topLevel : Bool) : UnifyM Scheme := do
  let s := (← get).substitution
  let fixed := env.freeVars s
  let fixedRows := env.freeRows s
  if topLevel then closeRows t fixedRows
  let u ← get
  let t := u.apply t
  let vars := t.freeVars.diff fixed
  return {
    typeVars := vars.toList
    rowVars := if topLevel then (t.freeRows.diff fixedRows).toList else []
    numeric := vars.filter (fun v => u.numeric.contains v)
    ty := t }

mutual

/-- The row variables of a type by occurrence, where the row of an arrow stands between its
parameter and its result. -/
def Ty.rowsInOrder : Ty → List RowVar
  | .fn p r e => p.rowsInOrder ++ e.tail.toList ++ r.rowsInOrder
  | .tuple items => Ty.rowsInOrderList items
  | .named _ args => Ty.rowsInOrderList args
  | .ref _ inner => inner.rowsInOrder
  | .prim _ | .string | .unit | .var _ | .error => []

def Ty.rowsInOrderList : List Ty → List RowVar
  | [] => []
  | t :: ts => t.rowsInOrder ++ Ty.rowsInOrderList ts

end

/-- Keep the first occurrence of each element. -/
def firstOccurrences (l : List Nat) : List Nat :=
  l.foldl (fun seen x => if x ∈ seen then seen else seen ++ [x]) []

/-- Number the variables of a closed scheme by their first occurrence, from zero. -/
def Scheme.canonical (s : Scheme) : Scheme :=
  let vars := firstOccurrences s.ty.vars
  let rows := firstOccurrences s.ty.rowsInOrder
  let number : SortedMap TyVar TyVar := .ofList vars.zipIdx
  let rowNumber : SortedMap RowVar RowVar := .ofList rows.zipIdx
  { typeVars := List.range vars.length
    rowVars := List.range rows.length
    numeric := .ofList (s.numeric.toList.filterMap number.get?)
    ty := s.ty.substitute (number.mapValues .var) rowNumber }

/-- New type variables for quantified ones. A new variable must be numeric if the old one must be,
from `span` on. -/
def freshCopies (numeric : SortedSet TyVar) (span : Span) :
    List TyVar → UnifyM (List (TyVar × Ty))
  | [] => return []
  | v :: vs => do
    let w ← Unifier.freshTypeVar
    if v ∈ numeric then Unifier.addNumeric w span
    return (v, .var w) :: (← freshCopies numeric span vs)

/-- New row variables for quantified ones. -/
def freshRowCopies : List RowVar → UnifyM (List (RowVar × RowVar))
  | [] => return []
  | v :: vs => do
    let w ← Unifier.freshRowVar
    return (v, w) :: (← freshRowCopies vs)

/-- A copy of the type of a scheme with new variables for the quantified ones. -/
def Scheme.instantiate (s : Scheme) (span : Span) : UnifyM Ty := do
  if s.isMono then return s.ty
  let types ← freshCopies s.numeric span s.typeVars
  let rows ← freshRowCopies s.rowVars
  return s.ty.substitute (.ofList types) (.ofList rows)

/-- A scheme with its type under a substitution. -/
def Substitution.applyScheme (u : Substitution) (s : Scheme) : Scheme :=
  { s with ty := u.apply s.ty }

end RowCheck
