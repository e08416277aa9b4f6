import RowCheck.SortedSet
import RowCheck.Types.Display
import RowCheck.Diagnostic

/-!
The flow of one activation of a function: a graph of points, each with one event that matters to
ownership. Points are numbered in the order of evaluation and every point knows the points before
it, so each edge leads to a higher number.
-/
namespace RowCheck

/-- A lexical scope of an activation, as the numbers of the scopes it lies in, its own first. The
activation itself is the empty list. -/
abbrev Region := List Nat

namespace Region

/-- Whether storage in `outer` lives at least as long as `inner`: `inner` lies within `outer`, or is
it. -/
def outlives (outer inner : Region) : Bool := outer.isSuffixOf inner

theorem outlives_iff {outer inner : Region} : outer.outlives inner = true ↔ outer <:+ inner := by
  simp [outlives]

end Region

/-- A binding of an activation. -/
structure Local where
  name : String
  ty : Ty
  span : Span
  region : Region
  deriving DecidableEq, Repr, Inhabited

/-- A borrow of a local. -/
structure Loan where
  place : Nat
  kind : BorrowKind
  span : Span
  deriving DecidableEq, Repr, Inhabited

/-- The loans that a value carries, by number. -/
abbrev Loans := SortedSet Nat

inductive UseKind where
  | copy
  /-- The value is handed over, and the local is invalid afterwards. -/
  | move
  /-- The value is only inspected. -/
  | read
  deriving DecidableEq, Repr, Inhabited

/-- What happens at a point. Locals and loans are given by their numbers. -/
inductive FlowEvent where
  | define (place : Nat)
  | use (place : Nat) (kind : UseKind)
  | borrow (loan : Nat)
  /-- A new value is put into a local. -/
  | assign (place : Nat)
  /-- A temporary that carries loans is used by a call. -/
  | consume (loans : Loans)
  deriving DecidableEq, Repr, Inhabited

structure FlowPoint where
  event : FlowEvent
  span : Span
  /-- The points that may come just before. -/
  before : SortedSet Nat
  deriving DecidableEq, Repr, Inhabited

/-- The flow of an activation. `holdings` are the loans that each local may hold at any time. -/
structure Flow where
  locals : Array Local
  loans : Array Loan
  holdings : Array Loans
  points : Array FlowPoint
  deriving DecidableEq, Repr, Inhabited

namespace Flow

def empty : Flow := ⟨#[], #[], #[], #[]⟩

def localAt (f : Flow) (i : Nat) : Local := (f.locals[i]?).getD default

def loanAt (f : Flow) (i : Nat) : Loan := (f.loans[i]?).getD default

def holding (f : Flow) (i : Nat) : Loans := (f.holdings[i]?).getD ∅

/-- The local that a loan borrows. -/
def lender (f : Flow) (loan : Nat) : Local := f.localAt (f.loanAt loan).place

/-- The points that may come just after a point, in ascending order. -/
def after (f : Flow) (i : Nat) : List Nat :=
  (f.points.toList.zipIdx.filter (fun p => decide (i ∈ p.1.before))).map (·.2)

/-- The loans that are used at a point. -/
def usesAt (f : Flow) (p : FlowPoint) : Loans :=
  match p.event with
  | .use i _ => f.holding i
  | .consume loans => loans
  | .define _ | .borrow _ | .assign _ => ∅

end Flow

end RowCheck
