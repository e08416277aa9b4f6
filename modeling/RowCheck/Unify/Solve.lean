import RowCheck.Unify.State

/-!
Making types equal. An equation is solved where it arises: a variable is bound to the type on the
other side, types of one shape are taken apart, and everything else is a mismatch. Equal rows
share a new tail that stands for what both still may perform.
-/
namespace RowCheck
namespace Unifier

/-- An action that may fail. What it has done before it fails stays done. -/
abbrev SolveM := ExceptT UnifyFailure UnifyM

/-- Require that a type is numeric, now or as soon as it is known. -/
def requireNumeric (t : Ty) (why : Provenance) : UnifyM Unit := do
  match ← find t with
  | .var v => addNumeric v why.span
  | .error => pure ()
  | t =>
    if let .prim p := t then
      if p.isNumeric then return
    let u ← get
    report ((Diagnostic.error .typeMismatch
      s!"expected a numeric type, got `{(u.apply t).display}`" why.span).withHelp
      s!"`{numBound}` is implemented by the integer and floating-point primitives")

/-- Bind a variable, unless it occurs in the type. A bound on the variable passes on to the type. -/
def bindVar (v : TyVar) (t : Ty) : SolveM Unit := do
  let applied := (← get).apply t
  if applied.mentions v then throw (.occurs v applied)
  note .bind (.var v) applied s!"t{v} := {applied.display}"
  modify (fun u => { u with substitution := u.substitution.bindType v t })
  match (← get).numeric.get? v with
  | none => pure ()
  | some span =>
    modify (fun u => { u with numeric := u.numeric.erase v })
    requireNumeric t (.of span (.binaryOp numBound))

/-- Make two rows equal. -/
def solveRows (expected actual : Row) : SolveM Unit := do
  let r := (← get).findRow expected
  let s := (← get).findRow actual
  let onlyR := r.labels.diff s.labels
  let onlyS := s.labels.diff r.labels
  match r.tail, s.tail with
  | none, none => unless onlyR.isEmpty && onlyS.isEmpty do throw .mismatch
  | some v, none =>
    unless onlyR.isEmpty do throw .mismatch
    bindRowVar v ⟨onlyS, none⟩
  | none, some w =>
    unless onlyS.isEmpty do throw .mismatch
    bindRowVar w ⟨onlyR, none⟩
  | some v, some w =>
    if v = w then
      unless onlyR.isEmpty && onlyS.isEmpty do throw .mismatch
    else
      let rest ← freshRowVar
      note .rowDecompose .unit .unit s!"e{v} ~ e{w}: shared tail e{rest}"
      bindRowVar v ⟨onlyS, some rest⟩
      bindRowVar w ⟨onlyR, some rest⟩

/-- An equation with the type of a failed expression holds. -/
def absorb (expected actual : Ty) : SolveM Unit :=
  note .identity expected actual "error sentinel unifies with any type"

mutual

/-- Make two types equal, by recursion on the first. A first type that is a bound variable is
replaced by what it stands for, and `again` goes on from there. -/
def solveStep (again : Ty → Ty → SolveM Unit) : Ty → Ty → SolveM Unit
  | .var v, b => do
    let a ← find (.var v)
    let b ← find b
    match a, b with
    | .var v, .var w =>
      if v = w then note .identity a b "same variable" else bindVar v b
    | .var _, .error => absorb a b
    | .var v, _ => bindVar v b
    | _, _ => again a b
  | .error, b => do absorb .error (← find b)
  | .fn p r e, b => do
    let a := Ty.fn p r e
    let b ← find b
    match b with
    | .error => absorb a b
    | .var w => bindVar w a
    | .fn p' r' e' =>
      note .decompose a b "A -[e]-> B ~ C -[f]-> D: unify A ~ C, B ~ D, e ~ f"
      solveStep again p p'
      solveStep again r r'
      solveRows e e'
    | _ => throw .mismatch
  | .tuple items, b => do
    let a := Ty.tuple items
    let b ← find b
    match b with
    | .error => absorb a b
    | .var w => bindVar w a
    | .tuple items' =>
      if items.length = items'.length then
        note .decompose a b "tuple: unify element-wise"
        solveEach again items items'
      else throw .mismatch
    | _ => throw .mismatch
  | .named name args, b => do
    let a := Ty.named name args
    let b ← find b
    match b with
    | .error => absorb a b
    | .var w => bindVar w a
    | .named name' args' =>
      if name = name' ∧ args.length = args'.length then
        note .decompose a b s!"{name}: unify arguments"
        solveEach again args args'
      else throw .mismatch
    | _ => throw .mismatch
  | .ref kind inner, b => do
    let a := Ty.ref kind inner
    let b ← find b
    match b with
    | .error => absorb a b
    | .var w => bindVar w a
    | .ref kind' inner' =>
      if kind = kind' then solveStep again inner inner' else throw .mismatch
    | _ => throw .mismatch
  | .prim p, b => do
    let b ← find b
    match b with
    | .error => absorb (.prim p) b
    | .var w => bindVar w (.prim p)
    | .prim q => if p = q then pure () else throw .mismatch
    | _ => throw .mismatch
  | .string, b => do
    let b ← find b
    match b with
    | .error => absorb .string b
    | .var w => bindVar w .string
    | .string => pure ()
    | _ => throw .mismatch
  | .unit, b => do
    let b ← find b
    match b with
    | .error => absorb .unit b
    | .var w => bindVar w .unit
    | .unit => pure ()
    | _ => throw .mismatch

def solveEach (again : Ty → Ty → SolveM Unit) : List Ty → List Ty → SolveM Unit
  | a :: as, b :: bs => do
    solveStep again a b
    solveEach again as bs
  | _, _ => pure ()

end

/-- Make two types equal, where on each way down at most `n` bound variables are replaced on the
first side. -/
def solveWithin : Nat → Ty → Ty → SolveM Unit
  | 0 => fun _ _ => throw .mismatch
  | n + 1 => solveStep (solveWithin n)

/-- How many bound variables can be replaced on one way down into two types: those that are bound
already, and those that are still unbound in either type. No variable lies within itself, and no
type variables are made on the way. -/
def solveBound (u : Unifier) (expected actual : Ty) : Nat :=
  u.substitution.types.size + (u.apply expected).vars.length + (u.apply actual).vars.length

/-- Make two types equal. -/
def solve (expected actual : Ty) : SolveM Unit := do
  solveWithin (solveBound (← get) expected actual + 1) expected actual

/-- Require that two types are equal, and report the failure otherwise. -/
def unify (expected actual : Ty) (why : Provenance) : UnifyM Unit := do
  match ← (solve expected actual).run with
  | .ok () => pure ()
  | .error (.occurs v t) =>
    let t := (← get).apply t
    note .occursCheck (.var v) t s!"t{v} occurs in {t.display}"
    report (why.report .occursCheckFailure
      s!"infinite type: a type variable cannot equal `{t.display}`, which contains it")
  | .error .mismatch =>
    let expected := (← get).apply expected
    let actual := (← get).apply actual
    note .error expected actual "type mismatch"
    let (expectedText, actualText) := Ty.displayPair expected actual
    let message := match why.reason with
      | .application => s!"expected a function, got `{actualText}`"
      | _ => s!"expected `{expectedText}`, got `{actualText}`"
    report (why.reportWithHelp .typeMismatch message)

end Unifier
end RowCheck
