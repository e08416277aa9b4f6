import RowCheck.Ownership.Hold
import RowCheck.Ownership.Moves
import RowCheck.Ownership.Loans

/-!
From a function to its flow. An expression is walked in the order of evaluation; each use, borrow
and assignment of a local becomes a point, and the loans that a value carries are followed through
it. What the place of an expression alone decides is reported on the way: a borrow that leaves the
scope of its local, a change through a shared reference, a move out of a reference. A closure
takes the locals it uses, and its body is an activation of its own, in which they are locals.
-/
namespace RowCheck

/-- The state of walking an activation. `frontier` are the points that may come just before the next
one, and `scopes` the names in scope with the numbers of their locals, the innermost first. -/
structure Activation where
  flow : Flow
  scopes : List (String × Nat)
  region : Region
  regions : Nat
  frontier : SortedSet Nat
  deriving Inhabited

def Activation.empty : Activation := ⟨.empty, [], [], 0, ∅⟩

/-- The activation at hand and the faults found in all activations so far. -/
structure Lowering where
  activation : Activation
  faults : List Diagnostic
  deriving Inhabited

abbrev LowerM := StateM Lowering

/-- What becomes of a value. The outermost expression of an activation is its result. -/
inductive Role where
  | result
  | value
  | read
  deriving DecidableEq, Repr, Inhabited

/-- The role of the part whose value is the value of the whole. -/
def Role.inner : Role → Role
  | .read => .read
  | .result | .value => .value

mutual

/-- The names that occur free in an expression, given those bound around it. -/
def TExpr.free (bound : List String) : TExpr → List String
  | .lit .. | .failed _ => []
  | .var _ name => if name ∈ bound then [] else [name]
  | .call _ f a => f.free bound ++ a.free bound
  | .lam _ p b => b.free (p.name :: bound)
  | .letIn _ x v b => v.free bound ++ b.free (x.name :: bound)
  | .seq _ items | .tuple _ items => TExpr.freeList bound items
  | .construct _ _ _ args => TExpr.freeList bound args
  | .cond _ c t e => c.free bound ++ t.free bound ++ e.free bound
  | .matchOn _ s arms _ => s.free bound ++ TExpr.freeArms bound arms
  | .binary _ _ a b => a.free bound ++ b.free bound
  | .unary _ _ a => a.free bound
  | .borrow _ _ a => a.free bound
  | .deref _ a => a.free bound
  | .assign _ a b => a.free bound ++ b.free bound

def TExpr.freeList (bound : List String) : List TExpr → List String
  | [] => []
  | e :: es => e.free bound ++ TExpr.freeList bound es

def TExpr.freeArm (bound : List String) : TArm → List String
  | .mk p (some g) b =>
    let bound := p.bindings.map (·.1) ++ bound
    g.free bound ++ b.free bound
  | .mk p none b => b.free (p.bindings.map (·.1) ++ bound)

def TExpr.freeArms (bound : List String) : List TArm → List String
  | [] => []
  | a :: as => TExpr.freeArm bound a ++ TExpr.freeArms bound as

end

mutual

/-- Whether a value of a type can keep a borrow alive. -/
def Ty.carriesLoans : Ty → Bool
  | .ref .. | .fn .. | .var _ => true
  | .tuple items => Ty.anyCarriesLoans items
  | .named _ args => Ty.anyCarriesLoans args
  | .prim _ | .string | .unit | .error => false

def Ty.anyCarriesLoans : List Ty → Bool
  | [] => false
  | t :: ts => t.carriesLoans || Ty.anyCarriesLoans ts

end

namespace Lowering

/-- Add a fault, unless one with the same code, message and position is there already. The body of a
closure is walked once for each activation that makes it. -/
def report (d : Diagnostic) : LowerM Unit :=
  modify (fun s =>
    if s.faults.any (fun e => decide (e.category.code = d.category.code) &&
        decide (e.message = d.message) && decide (e.location = d.location)) then s
    else { s with faults := s.faults ++ [d] })

def modifyActivation (f : Activation → Activation) : LowerM Unit :=
  modify (fun s => { s with activation := f s.activation })

/-- Add a point behind the frontier. -/
def point (event : FlowEvent) (span : Span) : LowerM Unit :=
  modifyActivation (fun a =>
    { a with
      flow := { a.flow with points := a.flow.points.push ⟨event, span, a.frontier⟩ }
      frontier := .ofList [a.flow.points.size] })

/-- Bring a local into scope. -/
def declare (name : String) (t : Ty) (span : Span) (holding : Loans) : LowerM Unit := do
  let i := (← get).activation.flow.locals.size
  modifyActivation (fun a =>
    { a with
      flow := { a.flow with
        locals := a.flow.locals.push ⟨name, t, span, a.region⟩
        holdings := a.flow.holdings.push holding }
      scopes := (name, i) :: a.scopes })
  point (.define i) span

def declareParam (b : Binder) : LowerM Unit :=
  declare b.name b.ty b.span ∅

/-- The local that a name stands for. -/
def find? (name : String) : LowerM (Option Nat) := do
  return ((← get).activation.scopes.find? (fun s => decide (s.1 = name))).map (·.2)

def dangling (f : Flow) (loan : Nat) (position : Span) (note : String) : Diagnostic :=
  let x := f.lender loan
  (((Diagnostic.error .danglingBorrow s!"`{x.name}` does not live long enough"
    (f.loanAt loan).span).withLabel
    x.span s!"`{x.name}` is declared here").withLabel
    position note).withHelp
    "return or store an owned value instead of a borrow of a local"

/-- No loan of a local of the present scope may leave it. -/
def checkEscape (value : Loans) (position : Span) : LowerM Unit := do
  for loan in value.toList do
    let a := (← get).activation
    if (a.flow.lender loan).region = a.region then
      report (dangling a.flow loan position "the borrow escapes its scope here")

/-- A value may be stored in a region only if all it borrows lives at least as long. -/
def checkOutlives (value : Loans) (region : Region) (position : Span) : LowerM Unit := do
  for loan in value.toList do
    let f := (← get).activation.flow
    if !(f.lender loan).region.outlives region then
      report (dangling f loan position "the borrow is stored in a longer-lived location here")

/-- Enter a scope of its own. The answer is the activation outside it. -/
def enterScope : LowerM Activation := do
  let outer := (← get).activation
  modifyActivation (fun a => { a with region := a.regions :: a.region, regions := a.regions + 1 })
  return outer

/-- Leave a scope with a value, at the given position. -/
def leaveScope (outer : Activation) (value : Loans) (position : Span) : LowerM Unit := do
  checkEscape value position
  modifyActivation (fun a => { a with region := outer.region, scopes := outer.scopes })

/-- Walk an activation of its own, and come back to the present one. -/
def inActivation (body : LowerM Unit) : LowerM Unit := do
  let outer := (← get).activation
  modifyActivation (fun _ => .empty)
  body
  modifyActivation (fun _ => outer)

/-- The end of an activation: its result leaves it, and its flow is checked. -/
def close (value : Loans) (position : Span) : LowerM Unit := do
  checkEscape value position
  let f := (← get).activation.flow
  for d in f.moveFaults do
    report d
  for d in f.conflictFaults do
    report d

/-- Walk an expression, and end the activation behind it if it is the result. -/
def closing (role : Role) (span : Span) (body : LowerM Loans) : LowerM Loans := do
  let value ← body
  if role = .result then close value span
  return value

def useKind (role : Role) (t : Ty) : UseKind :=
  if role = .read then .read else if t.isCopy then .copy else .move

/-- A use of a name. A name that is no local has nothing to be moved or borrowed. -/
def useVar (role : Role) (name : String) (t : Ty) (span : Span) : LowerM Loans := do
  match ← find? name with
  | none => return ∅
  | some i =>
    point (.use i (useKind role t)) span
    return (← get).activation.flow.holding i

/-- A borrow of a name makes a loan. -/
def borrowVar (kind : BorrowKind) (name : String) (span : Span) : LowerM Loans := do
  match ← find? name with
  | none => return ∅
  | some i =>
    let loan := (← get).activation.flow.loans.size
    modifyActivation (fun a =>
      { a with flow := { a.flow with loans := a.flow.loans.push ⟨i, kind, span⟩ } })
    point (.borrow loan) span
    return .ofList [loan]

def aliasedMutation (action : String) (span reference : Span) : Diagnostic :=
  ((Diagnostic.error .aliasedMutation s!"cannot {action} through a shared reference" span).withLabel
    reference "this is a `&` reference").withHelp "take a unique borrow (`&mut`) to mutate"

def isShared : Ty → Bool
  | .ref .shared _ => true
  | _ => false

def isRef : Ty → Bool
  | .ref .. => true
  | _ => false

/-- Store a value in a local. -/
def assignVar (name : String) (value : Loans) (span target : Span) : LowerM Unit := do
  match ← find? name with
  | none => pure ()
  | some i =>
    checkOutlives value ((← get).activation.flow.localAt i).region span
    modifyActivation (fun a =>
      { a with flow := { a.flow with holdings := a.flow.holdings.modify i (·.union value) } })
    point (.assign i) target

/-- Store a value through a reference that carries the loans `held`. -/
def assignThrough (reference : TExpr) (held value : Loans) (span : Span) : LowerM Unit := do
  if isShared reference.ty then report (aliasedMutation "assign" span reference.span)
  for loan in held.toList do
    checkOutlives value ((← get).activation.flow.lender loan).region span

/-- Take the locals that a closure uses, in ascending order of their names. The answer is their
declarations and the loans they hold. -/
def capture (span : Span) : List String → LowerM (List Local × Loans)
  | [] => return ([], ∅)
  | name :: names => do
    match ← find? name with
    | none => capture span names
    | some i =>
      let x := (← get).activation.flow.localAt i
      point (.use i (useKind .value x.ty)) span
      let held := (← get).activation.flow.holding i
      let (xs, rest) ← capture span names
      return (x :: xs, held.union rest)

/-- A closure carries the loans of the locals it takes. `body` walks its body as a result. -/
def closure (p : Binder) (free : List String) (span : Span) (body : LowerM Unit) :
    LowerM Loans := do
  let names := (SortedSet.ofList free).filter (fun name => name != p.name)
  let (captures, held) ← capture span names.toList
  inActivation (do
    for x in captures do
      declare x.name x.ty x.span ∅
    declareParam p
    body)
  return held

def frontier : LowerM (SortedSet Nat) := return (← get).activation.frontier

def setFrontier (points : SortedSet Nat) : LowerM Unit :=
  modifyActivation (fun a => { a with frontier := points })

/-- Bring the names of a pattern into scope. They hold what the scrutinee holds. -/
def declarePattern (p : TPattern) (held : Loans) : LowerM Unit := do
  for b in p.bindings do
    declare b.1 b.2.1 b.2.2 held

def moveOut (t : Ty) (span reference : Span) : Diagnostic :=
  ((Diagnostic.error .moveOutOfBorrow
    s!"cannot move a value of type `{t.text}` out of a reference" span).withLabel
    reference "this is a reference").withHelp "borrow the value instead, or copy it out"

mutual

/-- Walk an expression. The answer is the loans that its value carries. -/
def lower (role : Role) : TExpr → LowerM Loans
  | .lit i _ => closing role i.span (return ∅)
  | .failed i => closing role i.span (return ∅)
  | .var i name => closing role i.span (useVar role name i.ty i.span)
  | .call i f a => closing role i.span (do
    let held ← lower .read f
    let held := held.union (← lower .value a)
    unless held.isEmpty do point (.consume held) i.span
    return if i.ty.carriesLoans then held else ∅)
  | .lam i p b =>
    match role with
    | .result => do
      declareParam p
      lower .result b
    | _ => closure p (b.free []) i.span (do
      let _ ← lower .result b)
  | .letIn i x v b => closing role i.span (do
    let held ← lower .value v
    let outer ← enterScope
    declare x.name x.ty x.span held
    let value ← lower role.inner b
    leaveScope outer value i.span
    return value)
  | .seq i items => closing role i.span (lowerSeq role.inner items)
  | .cond i c t e => closing role i.span (do
    let _ ← lower .read c
    let entry ← frontier
    let held ← lower role.inner t
    let exit ← frontier
    setFrontier entry
    let held := held.union (← lower role.inner e)
    setFrontier ((← frontier).union exit)
    return held)
  | .matchOn i s arms _ => closing role i.span (do
    let demand := match TArm.scrutineeDemand arms with
      | .value => Role.value
      | .read => Role.read
    let held ← lower demand s
    let entry ← frontier
    let value ← lowerArms role.inner held entry ∅ arms
    if arms.isEmpty then setFrontier entry
    return value)
  | .tuple i items => closing role i.span (lowerAll items)
  | .construct i _ _ args => closing role i.span (lowerAll args)
  | .binary i _ a b => closing role i.span (do
    let _ ← lower .read a
    let _ ← lower .read b
    return ∅)
  | .unary i _ a => closing role i.span (do
    let _ ← lower .read a
    return ∅)
  | .borrow i kind (.var _ name) => closing role i.span (borrowVar kind name i.span)
  | .borrow i kind (.deref _ reference) => closing role i.span (do
    let held ← lower .read reference
    if kind = .unique && isShared reference.ty then
      report (aliasedMutation "borrow as unique" i.span reference.span)
    return held)
  | .borrow i _ inner => closing role i.span (lower .value inner)
  | .deref i reference => closing role i.span (do
    let held ← lower .read reference
    if role != .read && !i.ty.isCopy then report (moveOut i.ty i.span reference.span)
    return if isRef i.ty then held else ∅)
  | .assign i (.var j name) v => closing role i.span (do
    let value ← lower .value v
    assignVar name value i.span j.span
    return ∅)
  | .assign i (.deref _ reference) v => closing role i.span (do
    let value ← lower .value v
    let held ← lower .read reference
    assignThrough reference held value i.span
    return ∅)
  | .assign i _ v => closing role i.span (do
    let _ ← lower .value v
    return ∅)

/-- Walk values that become parts of another one. -/
def lowerAll : List TExpr → LowerM Loans
  | [] => return ∅
  | e :: es => do
    let held ← lower .value e
    return held.union (← lowerAll es)

/-- Walk a sequence, whose value is that of its last item. -/
def lowerSeq (role : Role) : List TExpr → LowerM Loans
  | [] => return ∅
  | [e] => lower role e
  | e :: f :: es => do
    let _ ← lower .read e
    lowerSeq role (f :: es)

/-- Walk the arms of a match, given the points from which an arm may be entered and those at which
an arm so far has ended. -/
def lowerArms (role : Role) (held : Loans) (entry exits : SortedSet Nat) :
    List TArm → LowerM Loans
  | [] => do
    setFrontier exits
    return ∅
  | a :: as => do
    setFrontier entry
    let outer ← enterScope
    let (value, entry) ← lowerArm role held entry a
    leaveScope outer value a.body.span
    let exits := exits.union (← frontier)
    return value.union (← lowerArms role held entry exits as)

/-- Walk an arm. The answer is its value, and the points from which the next arm may be entered: a
guard that fails goes on to the next arm. -/
def lowerArm (role : Role) (held : Loans) (entry : SortedSet Nat) :
    TArm → LowerM (Loans × SortedSet Nat)
  | .mk p (some g) b => do
    declarePattern p held
    let _ ← lower .read g
    let entry := entry.union (← frontier)
    return (← lower role b, entry)
  | .mk p none b => do
    declarePattern p held
    return (← lower role b, entry)

end

end Lowering
end RowCheck
