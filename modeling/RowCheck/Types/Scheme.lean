import RowCheck.Types.Ty

/-!
Type schemes: a type with quantified type and row variables, and those of its type variables that
must be numeric. Every use of a name with a scheme stands for a fresh copy of the type.
-/
namespace RowCheck

/-- The name of the bound on a type variable that may only stand for a numeric type. -/
def numBound : String := "Num"

/-- A type scheme. The variables in `numeric` may only stand for numeric types. -/
structure Scheme where
  typeVars : List TyVar
  rowVars : List RowVar
  numeric : SortedSet TyVar
  ty : Ty
  deriving DecidableEq, Repr, Inhabited

namespace Scheme

/-- A type without quantified variables. -/
def mono (ty : Ty) : Scheme := ⟨[], [], ∅, ty⟩

/-- The scheme of a name whose declaration has failed its check. -/
def error : Scheme := mono .error

def isMono (s : Scheme) : Bool := s.typeVars.isEmpty && s.rowVars.isEmpty

@[simp] theorem isMono_mono (t : Ty) : (mono t).isMono = true := rfl

end Scheme

end RowCheck
