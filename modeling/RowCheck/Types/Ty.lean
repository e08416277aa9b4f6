import RowCheck.Types.Primitive
import RowCheck.Types.Row
import RowCheck.SortedMap

/-!
Types. Functions are curried: an arrow takes one argument and carries the effects performed when
it is applied. References are types of their own, and a sum type is known by its name and its
arguments.
-/
namespace RowCheck

inductive Ty where
  | prim (p : Primitive)
  | string
  | unit
  | fn (param result : Ty) (effects : Row)
  | tuple (items : List Ty)
  | named (name : String) (args : List Ty)
  | ref (kind : BorrowKind) (inner : Ty)
  | var (v : TyVar)
  /-- The type of an expression whose check has failed. It fits every type. -/
  | error
  deriving Repr, Inhabited

namespace Ty

mutual

def decEq : (a b : Ty) → Decidable (a = b)
  | prim p, prim q => if h : p = q then isTrue (by rw [h]) else isFalse (by simp [h])
  | string, string => isTrue rfl
  | unit, unit => isTrue rfl
  | fn p r e, fn p' r' e' =>
    match decEq p p', decEq r r', (inferInstance : Decidable (e = e')) with
    | isTrue hp, isTrue hr, isTrue he => isTrue (by rw [hp, hr, he])
    | isFalse hp, _, _ => isFalse (by simp [hp])
    | _, isFalse hr, _ => isFalse (by simp [hr])
    | _, _, isFalse he => isFalse (by simp [he])
  | tuple xs, tuple ys =>
    match decEqList xs ys with
    | isTrue h => isTrue (by rw [h])
    | isFalse h => isFalse (by simp [h])
  | named n xs, named m ys =>
    match (inferInstance : Decidable (n = m)), decEqList xs ys with
    | isTrue hn, isTrue h => isTrue (by rw [hn, h])
    | isFalse hn, _ => isFalse (by simp [hn])
    | _, isFalse h => isFalse (by simp [h])
  | ref k t, ref k' t' =>
    match (inferInstance : Decidable (k = k')), decEq t t' with
    | isTrue hk, isTrue h => isTrue (by rw [hk, h])
    | isFalse hk, _ => isFalse (by simp [hk])
    | _, isFalse h => isFalse (by simp [h])
  | var v, var w => if h : v = w then isTrue (by rw [h]) else isFalse (by simp [h])
  | error, error => isTrue rfl
  | prim _, string | prim _, unit | prim _, fn .. | prim _, tuple _ | prim _, named ..
  | prim _, ref .. | prim _, var _ | prim _, error
  | string, prim _ | string, unit | string, fn .. | string, tuple _ | string, named ..
  | string, ref .. | string, var _ | string, error
  | unit, prim _ | unit, string | unit, fn .. | unit, tuple _ | unit, named ..
  | unit, ref .. | unit, var _ | unit, error
  | fn .., prim _ | fn .., string | fn .., unit | fn .., tuple _ | fn .., named ..
  | fn .., ref .. | fn .., var _ | fn .., error
  | tuple _, prim _ | tuple _, string | tuple _, unit | tuple _, fn .. | tuple _, named ..
  | tuple _, ref .. | tuple _, var _ | tuple _, error
  | named .., prim _ | named .., string | named .., unit | named .., fn .. | named .., tuple _
  | named .., ref .. | named .., var _ | named .., error
  | ref .., prim _ | ref .., string | ref .., unit | ref .., fn .. | ref .., tuple _
  | ref .., named .. | ref .., var _ | ref .., error
  | var _, prim _ | var _, string | var _, unit | var _, fn .. | var _, tuple _
  | var _, named .. | var _, ref .. | var _, error
  | error, prim _ | error, string | error, unit | error, fn .. | error, tuple _
  | error, named .. | error, ref .. | error, var _ => isFalse (by simp)

def decEqList : (a b : List Ty) → Decidable (a = b)
  | [], [] => isTrue rfl
  | x :: xs, y :: ys =>
    match decEq x y, decEqList xs ys with
    | isTrue h, isTrue hs => isTrue (by rw [h, hs])
    | isFalse h, _ => isFalse (by simp [h])
    | _, isFalse hs => isFalse (by simp [hs])
  | [], _ :: _ | _ :: _, [] => isFalse (by simp)

end

instance : DecidableEq Ty := decEq

abbrev bool : Ty := prim .bool

abbrev s32 : Ty := prim .s32

abbrev f64 : Ty := prim .f64

/-- An arrow without effects. -/
def arrow (param result : Ty) : Ty := fn param result .pure

/-- Nested arrows over the parameters. Only the innermost one, which has all its arguments, performs
effects. -/
def curried : List Ty → Ty → Row → Ty
  | [], result, _ => result
  | [p], result, effects => fn p result effects
  | p :: q :: ps, result, effects => arrow p (curried (q :: ps) result effects)

def isError : Ty → Bool
  | error => true
  | _ => false

@[simp] theorem isError_iff (t : Ty) : t.isError = true ↔ t = error := by
  cases t <;> simp [isError]

/-- How a value of a type is held. -/
def mode : Ty → Mode
  | ref .shared _ => .shared
  | ref .unique _ => .unique
  | _ => .owned

mutual

/-- Whether the type of a failed expression occurs in a type. -/
def containsError : Ty → Bool
  | error => true
  | fn p r _ => p.containsError || r.containsError
  | tuple items => containsErrorList items
  | named _ args => containsErrorList args
  | ref _ inner => inner.containsError
  | prim _ | string | unit | var _ => false

def containsErrorList : List Ty → Bool
  | [] => false
  | t :: ts => t.containsError || containsErrorList ts

end

mutual

/-- Whether a variable occurs in a type. -/
def mentions (v : TyVar) : Ty → Bool
  | var w => w == v
  | fn p r _ => p.mentions v || r.mentions v
  | tuple items => mentionsList v items
  | named _ args => mentionsList v args
  | ref _ inner => inner.mentions v
  | prim _ | string | unit | error => false

def mentionsList (v : TyVar) : List Ty → Bool
  | [] => false
  | t :: ts => t.mentions v || mentionsList v ts

end

mutual

/-- Whether using a value copies it instead of moving it. What an unresolved variable stands for is
unknown, so it moves. -/
def isCopy : Ty → Bool
  | prim _ | unit | error => true
  | ref .shared _ => true
  | tuple items => isCopyList items
  | ref .unique _ | string | fn .. | named .. | var _ => false

def isCopyList : List Ty → Bool
  | [] => true
  | t :: ts => t.isCopy && isCopyList ts

end

mutual

/-- The type variables of a type in the order in which they occur: parameter, then result. -/
def vars : Ty → List TyVar
  | var v => [v]
  | fn p r _ => p.vars ++ r.vars
  | tuple items => varsList items
  | named _ args => varsList args
  | ref _ inner => inner.vars
  | prim _ | string | unit | error => []

def varsList : List Ty → List TyVar
  | [] => []
  | t :: ts => t.vars ++ varsList ts

end

mutual

/-- The row variables of a type, each with whether it occurs positively. The parameter of an arrow
turns the sign over; an arrow's own row comes after those of its parameter and its result. -/
def signedRows (positive : Bool) : Ty → List (RowVar × Bool)
  | fn p r e =>
    p.signedRows (!positive) ++ r.signedRows positive ++ e.tail.toList.map (fun v => (v, positive))
  | tuple items => signedRowsList positive items
  | named _ args => signedRowsList positive args
  | ref _ inner => inner.signedRows positive
  | prim _ | string | unit | var _ | error => []

def signedRowsList (positive : Bool) : List Ty → List (RowVar × Bool)
  | [] => []
  | t :: ts => t.signedRows positive ++ signedRowsList positive ts

end

/-- The row variables of a type in the order in which they occur. -/
def rows (t : Ty) : List RowVar := (t.signedRows true).map (·.1)

/-- The set of type variables of a type. -/
def freeVars (t : Ty) : SortedSet TyVar := .ofList t.vars

/-- The set of row variables of a type. -/
def freeRows (t : Ty) : SortedSet RowVar := .ofList t.rows

/-- How often a row variable occurs positively and negatively. -/
def polarity (t : Ty) (v : RowVar) : Nat × Nat :=
  ((t.signedRows true).count (v, true), (t.signedRows true).count (v, false))

mutual

/-- Change a type from within: what its variables stand for, and its rows. -/
def mapVars (onVar : TyVar → Ty) (onRow : Row → Row) : Ty → Ty
  | var v => onVar v
  | fn p r e => fn (p.mapVars onVar onRow) (r.mapVars onVar onRow) (onRow e)
  | tuple items => tuple (mapVarsList onVar onRow items)
  | named name args => named name (mapVarsList onVar onRow args)
  | ref kind inner => ref kind (inner.mapVars onVar onRow)
  | prim p => prim p
  | string => string
  | unit => unit
  | error => error

def mapVarsList (onVar : TyVar → Ty) (onRow : Row → Row) : List Ty → List Ty
  | [] => []
  | t :: ts => t.mapVars onVar onRow :: mapVarsList onVar onRow ts

end

@[simp] theorem mapVarsList_eq_map (onVar : TyVar → Ty) (onRow : Row → Row) (l : List Ty) :
    mapVarsList onVar onRow l = l.map (mapVars onVar onRow) := by
  induction l with
  | nil => rfl
  | cons t ts ih => simp [mapVarsList, ih]

/-- Replace the type variables that a map binds. -/
def replace (m : SortedMap TyVar Ty) (t : Ty) : Ty :=
  t.mapVars (fun v => (m.get? v).getD (var v)) id

/-- Replace type variables and the tails of rows. Variables that are not bound are kept. -/
def substitute (types : SortedMap TyVar Ty) (rows : SortedMap RowVar RowVar) (t : Ty) : Ty :=
  t.mapVars (fun v => (types.get? v).getD (var v))
    (fun r => { r with tail := r.tail.map (fun v => (rows.get? v).getD v) })

end Ty

end RowCheck
