import RowCheck.Ownership.Flow

/-!
Loans. A loan is live after a point if a value that carries it may be used later, without the loan
being made anew before. A live loan forbids what would disturb it: a unique one every other access
to the local, a shared one that the local is moved, assigned to, or borrowed as unique.
-/
namespace RowCheck
namespace Flow

/-- The loans that are live before a point, given those that are live after it. -/
def liveBefore (f : Flow) (p : FlowPoint) (after : Loans) : Loans :=
  let kept := match p.event with
    | .borrow loan => after.filter (fun l => l != loan)
    | _ => after
  kept.union (f.usesAt p)

/-- The loans live after each point, by one pass over the points from the last to the first: what is
live before a point is live after those that may come just before it. -/
def liveAfter (f : Flow) : Array Loans :=
  f.points.toList.zipIdx.foldr (fun p outs =>
    let live := f.liveBefore p.1 ((outs[p.2]?).getD ∅)
    p.1.before.toList.foldl (fun outs i => outs.modify i (·.union live)) outs)
    (Array.replicate f.points.size ∅)

/-- Search for a use of a loan, breadth first from a queue of points. Every edge enters the queue
at most once, so `n` bounds the search if it is the number of edges. -/
def searchUse (f : Flow) (loan : Nat) : Nat → List Nat → List Nat → Option Span
  | 0, _, _ => none
  | _ + 1, [], _ => none
  | n + 1, i :: queue, seen =>
    if i ∈ seen then f.searchUse loan n queue seen
    else
      match f.points[i]? with
      | none => f.searchUse loan n queue (i :: seen)
      | some p =>
        if loan ∈ f.usesAt p then some p.span
        else f.searchUse loan n (queue ++ f.after i) (i :: seen)

/-- The number of edges. -/
def edges (f : Flow) : Nat :=
  f.points.toList.foldl (fun n p => n + p.before.size) 0

/-- The nearest use of a loan after a point. -/
def nextUse? (f : Flow) (loan start : Nat) : Option Span :=
  f.searchUse loan (f.edges + 1) (f.after start) []

def kindName : BorrowKind → String
  | .shared => "shared"
  | .unique => "unique"

/-- An access that a live loan forbids. -/
structure Conflict where
  place : Nat
  loan : Nat
  message : String
  deriving DecidableEq, Repr, Inhabited

/-- The live loan that forbids what happens at a point, the one of least number if there are
several. -/
def conflict? (f : Flow) (p : FlowPoint) (live : Loans) : Option Conflict :=
  let onLocal := fun i => live.toList.filter (fun l => decide ((f.loanAt l).place = i))
  let isUnique := fun l => decide ((f.loanAt l).kind = .unique)
  match p.event with
  | .borrow new =>
    let loan := f.loanAt new
    let name := (f.localAt loan.place).name
    ((onLocal loan.place).find? (fun l => l != new && (loan.kind = .unique || isUnique l))).map
      (fun l => ⟨loan.place, l,
        s!"cannot borrow `{name}` as {kindName loan.kind} because it is already borrowed as " ++
          kindName (f.loanAt l).kind⟩)
  | .use i .move =>
    (onLocal i).head?.map (fun l => ⟨i, l,
      s!"cannot move out of `{(f.localAt i).name}` while it is borrowed"⟩)
  | .use i _ =>
    ((onLocal i).find? isUnique).map (fun l => ⟨i, l,
      s!"cannot use `{(f.localAt i).name}` while it is borrowed as unique"⟩)
  | .assign i =>
    (onLocal i).head?.map (fun l => ⟨i, l,
      s!"cannot assign to `{(f.localAt i).name}` while it is borrowed"⟩)
  | .define _ | .consume _ => none

/-- The report of a conflict at a point: where the loan was made, and where it is used later. -/
def conflictReport (f : Flow) (index : Nat) (span : Span) (c : Conflict) : Diagnostic :=
  let loan := f.loanAt c.loan
  let d := (Diagnostic.error .conflictingBorrow c.message span).withLabel loan.span
    s!"`{(f.localAt c.place).name}` is borrowed as {kindName loan.kind} here"
  match f.nextUse? c.loan index with
  | some later => d.withLabel later "the borrow is used later here"
  | none => d

/-- All accesses that live loans forbid. -/
def conflictFaults (f : Flow) : List Diagnostic :=
  let live := f.liveAfter
  f.points.toList.zipIdx.filterMap (fun p =>
    (f.conflict? p.1 ((live[p.2]?).getD ∅)).map (f.conflictReport p.2 p.1.span))

end Flow
end RowCheck
