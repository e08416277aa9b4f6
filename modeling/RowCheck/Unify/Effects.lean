import RowCheck.Unify.Solve

/-!
Effect inclusions. The labels of a row flow into the row that must include it as soon as both are
known; what the tail of the row may still stand for is decided at the end of a pass, when labels
flow until nothing moves.
-/
namespace RowCheck
namespace Unifier

/-- Let the labels of `row` flow into `within`. The answer is the set of labels that a closed row
does not admit. -/
def includeLabels (row within : Row) : UnifyM (SortedSet String) := do
  let sub := (← get).findRow row
  let sup := (← get).findRow within
  let missing := sub.labels.diff sup.labels
  if missing.isEmpty then return ∅
  match sup.tail with
  | some v =>
    let rest ← freshRowVar
    bindRowVar v ⟨missing, some rest⟩
    return ∅
  | none => return missing

/-- Report the labels that a closed row does not admit. -/
def reportMissing (missing : SortedSet String) (within : Row) (why : Provenance) : UnifyM Unit := do
  let list := String.intercalate ", " (missing.toList.map (fun l => "`" ++ l ++ "`"))
  let declared := ((← get).findRow within).text
  let message := match why.reason with
    | .declaredEffects f =>
      s!"`{f}` performs {list}, but its signature declares only {declared}"
    | _ => s!"effects {list} are not allowed here (allowed: {declared})"
  report (why.reportWithHelp .effectMismatch message)

/-- Require that every effect of `row` is one of `within`. If the tail of `row` is still open, and
is not that of `within`, the inclusion waits for the end of the pass. -/
def includeRow (row within : Row) (why : Provenance) : UnifyM Unit := do
  let missing ← includeLabels row within
  if missing.isEmpty then
    match ((← get).findRow row).tail with
    | none => pure ()
    | some v =>
      if ((← get).findRow within).tail = some v then pure ()
      else defer (.inclusion row within why)
  else reportMissing missing within why

/-- Act on a constraint now. -/
def constrain : Constraint → UnifyM Unit
  | .equal expected actual why => unify expected actual why
  | .inclusion row within why => includeRow row within why
  | .numeric t why => requireNumeric t why

/-- Let labels flow once through each inclusion. An inclusion that fails is reported and dropped.
The answer is the inclusions that are left, and whether a row has changed. -/
def flowOnce : List Inclusion → UnifyM (List Inclusion × Bool)
  | [] => return ([], false)
  | i :: is => do
    let before := (← get).findRow i.within
    let missing ← includeLabels i.row i.within
    unless missing.isEmpty do reportMissing missing i.within i.why
    let changed := (← get).findRow i.within != before
    let (rest, restChanged) ← flowOnce is
    return (if missing.isEmpty then i :: rest else rest, changed || restChanged)

/-- Let labels flow until nothing moves, at most `n` times. -/
def flow : Nat → List Inclusion → UnifyM (List Inclusion)
  | 0, is => return is
  | n + 1, is => do
    let (is, changed) ← flowOnce is
    if changed then flow n is else return is

/-- How often labels can flow at most: every time but the last, a row gains one of the labels
around. -/
def flowBound (u : Unifier) (is : List Inclusion) : Nat :=
  let labels := SortedSet.ofList (is.flatMap (fun i => (u.findRow i.row).labels.toList))
  is.length * labels.size + 1

/-- Once all labels have flowed, let the open tail of a row be the tail of the row that includes
it, or nothing where that one is closed. -/
def identifyTail (i : Inclusion) : UnifyM Unit := do
  let sub := (← get).findRow i.row
  let sup := (← get).findRow i.within
  match sub.tail with
  | none => pure ()
  | some v => if sup.tail = some v then pure () else bindRowVar v ⟨∅, sup.tail⟩

/-- Act on the deferred constraints that are not inclusions, in order, and give back the
inclusions. -/
def takePending : List Constraint → UnifyM (List Inclusion)
  | [] => return []
  | .inclusion row within why :: cs => return ⟨row, within, why⟩ :: (← takePending cs)
  | c :: cs => do
    constrain c
    takePending cs

/-- Decide all that was deferred, at the end of a pass. -/
def finish : UnifyM Unit := do
  let pending := (← get).pending
  modify (fun u => { u with pending := [] })
  let inclusions ← takePending pending
  let inclusions ← flow (flowBound (← get) inclusions) inclusions
  for i in inclusions do
    identifyTail i

end Unifier
end RowCheck
