import RowCheck.Ownership.Flow
import RowCheck.SortedMap

/-!
Moves. A local is invalid at a point if a move of it may have come before, without a new value
since. Every edge leads to a higher number, so one pass over the points decides all of them.
-/
namespace RowCheck

/-- The locals that may have been moved, each with the position of a move. -/
abbrev Moved := SortedMap Nat Span

namespace Flow

/-- What may have been moved before a point, given what may have been moved after each earlier
point. Of several moves of a local, that after the point of least number counts. -/
def movedBefore (outs : Array Moved) (p : FlowPoint) : Moved :=
  p.before.toList.foldl (fun m i =>
    ((outs[i]?).getD ∅).entries.foldl (fun m e => m.insertNew e.1 e.2) m) ∅

/-- What may have been moved after a point. A use of an invalid local is no further move. -/
def movedAfter (p : FlowPoint) (moved : Moved) : Moved :=
  match p.event with
  | .define i | .assign i => moved.erase i
  | .use i .move => moved.insertNew i p.span
  | .use _ _ | .borrow _ | .consume _ => moved

/-- The local that a point uses or borrows. -/
def touched? (f : Flow) (p : FlowPoint) : Option Nat :=
  match p.event with
  | .use i _ => some i
  | .borrow loan => some (f.loanAt loan).place
  | .define _ | .assign _ | .consume _ => none

def useAfterMove (f : Flow) (i : Nat) (used moved : Span) : Diagnostic :=
  let x := f.localAt i
  (((Diagnostic.error .useAfterMove s!"use of moved value `{x.name}`" used).withLabel
    moved "value moved here").withLabel
    x.span s!"`{x.name}` is declared here").withHelp
    s!"`{x.name}` has type `{x.ty.text}`, which is not copied; borrow it instead of moving it"

/-- The use of an invalid local at a point, if there is one. -/
def moveFault? (f : Flow) (p : FlowPoint) (moved : Moved) : Option Diagnostic := do
  let i ← f.touched? p
  let span ← moved.get? i
  return f.useAfterMove i p.span span

/-- The uses of invalid locals at some points, given what may have been moved after the points
before them. -/
def moveFaultsFrom (f : Flow) (outs : Array Moved) : List FlowPoint → List Diagnostic
  | [] => []
  | p :: ps =>
    let moved := movedBefore outs p
    (f.moveFault? p moved).toList ++ f.moveFaultsFrom (outs.push (movedAfter p moved)) ps

/-- All uses of invalid locals. -/
def moveFaults (f : Flow) : List Diagnostic :=
  f.moveFaultsFrom #[] f.points.toList

end Flow

end RowCheck
