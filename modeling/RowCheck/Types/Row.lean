import RowCheck.SortedSet

/-!
Effect rows. A row is a set of effect labels, and either closed or open at a tail variable that may
still stand for further labels.
-/
namespace RowCheck

/-- The number of a type variable. -/
abbrev TyVar := Nat

/-- The number of a row variable. -/
abbrev RowVar := Nat

/-- The label performed by every assignment. -/
def mutLabel : String := "mut"

/-- `[io, mut]` is closed; `[io | e0]` may still grow at `e0`. -/
structure Row where
  labels : SortedSet String
  tail : Option RowVar
  deriving DecidableEq, Repr

namespace Row

/-- The closed row without labels. -/
def pure : Row := ⟨∅, none⟩

instance : Inhabited Row := ⟨pure⟩

def closed (labels : List String) : Row := ⟨.ofList labels, none⟩

/-- The row that is just a variable. -/
def ofVar (v : RowVar) : Row := ⟨∅, some v⟩

def isClosed (r : Row) : Bool := r.tail.isNone

def isPure (r : Row) : Bool := r.labels.isEmpty && r.isClosed

theorem isPure_iff (r : Row) : r.isPure = true ↔ r = pure := by
  obtain ⟨⟨l, hl⟩, t⟩ := r
  cases l <;> cases t <;>
    simp [isPure, isClosed, pure, SortedSet.isEmpty, EmptyCollection.emptyCollection]

def contains (r : Row) (label : String) : Bool := label ∈ r.labels

/-- The labels of both rows, and the first open tail. -/
def union (r s : Row) : Row := ⟨r.labels.union s.labels, r.tail.or s.tail⟩

end Row

end RowCheck
