import RowCheck.Infer.Expr
import RowCheck.Typed.Settle

/-!
Checking a group of declarations that depend on each other. Within the group every name has one
plain type; once all constraints are solved, the types are generalized together. If anything is at
fault, all names of the group get the scheme of a failed declaration, so that no fault is reported
twice.
-/
namespace RowCheck

/-- What checking a group yields: the typed declarations and their schemes in the order of the
group, and the faults. -/
structure GroupResult where
  decls : List TDecl
  schemes : List (String × Scheme)
  diagnostics : List Diagnostic
  trace : Option GroupTrace
  deriving Inhabited

def GroupResult.hasErrors (g : GroupResult) : Bool :=
  g.diagnostics.any (·.isError)

/-- A declaration that binds a value. -/
inductive ValueDecl where
  | fn (decl : FnDecl)
  | active (decl : ActiveDecl)
  deriving Inhabited

namespace ValueDecl

def name : ValueDecl → Name
  | fn d => d.name
  | active d => d.name

def span : ValueDecl → Span
  | fn d => d.span
  | active d => d.span

end ValueDecl

/-- The declaration as one that binds a value, if it does. -/
def Decl.value? : Decl → Option ValueDecl
  | .fn d => some (.fn d)
  | .active d => some (.active d)
  | .type _ => none

namespace Checker

/-- Check the body of a function, or a value without parameters. -/
def inferFunction (r : Registries) (d : FnDecl) : CheckM (TExpr × Row) := do
  let expected ← match d.result with
    | some written => do
      let t ← resolving (written.resolve r.types)
      pure (some (t, (Provenance.of d.body.span .resultType).relatedTo written.span))
    | none => pure none
  let declared := d.effects.map (fun row => (row, d.name.text))
  if d.params.isEmpty then
    let (body, performed) ← inContext (infer r d.body) expected
    let effects ← exposedEffects performed declared d.body.span
    return (body, effects)
  else inferLambda r d.params (infer r d.body) d.span expected declared

/-- Check the function of an active pattern, whose result is one of its cases. -/
def inferActive (r : Registries) (d : ActiveDecl) : CheckM (TExpr × Row) := do
  modify (fun c => { c with active := r.active.get? d.name.text })
  let why := (Provenance.of d.body.span .activeResult).relatedTo d.name.span
  let checked ← inferLambda r [d.param] (infer r d.body) d.span
    (some (.named d.name.text [], why)) none
  modify (fun c => { c with active := none })
  return checked

/-- Let each name of the group stand for a new type. -/
def bindPlaceholders : List ValueDecl → CheckM (List (ValueDecl × Ty))
  | [] => return []
  | d :: ds => do
    let t ← Unifier.freshType
    bindMono d.name.text t
    return (d, t) :: (← bindPlaceholders ds)

/-- A declaration with its checked body and its effects. -/
structure Checked where
  decl : ValueDecl
  body : TExpr
  effects : Row
  deriving Inhabited

/-- Check each declaration, and require that its body has the type its name stands for. -/
def inferDecls (r : Registries) : List (ValueDecl × Ty) → CheckM (List Checked)
  | [] => return []
  | (d, placeholder) :: rest => do
    modify (fun c => { c with scope := .opened })
    let (body, effects) ← match d with
      | .fn f => inferFunction r f
      | .active a => inferActive r a
    Unifier.unify placeholder body.ty ((Provenance.of d.span .recursiveUse).relatedTo d.name.span)
    return ⟨d, body, effects⟩ :: (← inferDecls r rest)

/-- The scheme of each declaration. -/
def closeSchemes (failed : Bool) : List Checked → CheckM (List (String × Scheme))
  | [] => return []
  | d :: ds => do
    let s ← if failed then pure Scheme.error
      else do
        let s ← generalize d.body.ty (← get).env true
        pure s.canonical
    recordScheme d.decl.name s
    return (d.decl.name.text, s) :: (← closeSchemes failed ds)

/-- The typed declaration under the substitution that has been found. -/
def Checked.settle (r : Registries) (s : Substitution) (d : Checked) : TDecl :=
  let body := d.body.settle s
  let f : TFunction := ⟨d.decl.name.text, d.decl.span, body.ty, s.findRow d.effects, body⟩
  match d.decl with
  | .fn _ => .fn f
  | .active a =>
    .active f ((r.active.get? a.name.text).getD ⟨a.name.text, [], a.total⟩)

/-- Check the declarations of a group, up to the point where all its constraints are decided. -/
def inferGroup (r : Registries) (decls : List ValueDecl) : CheckM (List Checked) := do
  modifyEnv .pushScope
  let placeholders ← bindPlaceholders decls
  let checked ← inferDecls r placeholders
  modifyEnv .popScope
  Unifier.finish
  return checked

end Checker

/-- Check a group of declarations against an environment. Type declarations are passed over. -/
def checkGroup (r : Registries) (env : TypeEnv) (tracing : Bool) (decls : List Decl) :
    GroupResult :=
  let (checked, c) := (Checker.inferGroup r (decls.filterMap Decl.value?)).run (.start env tracing)
  let diagnostics := c.unifier.errors
  let (schemes, c) := (Checker.closeSchemes (diagnostics.any (·.isError)) checked).run c
  { decls := checked.map (Checker.Checked.settle r c.unifier.substitution)
    schemes
    diagnostics
    trace := if tracing then some ⟨schemes.map (·.1), c.unifier.steps, c.steps⟩ else none }

/-- Check an expression by itself. The answer is its typed form and its scheme, or the faults. -/
def inferExpression (r : Registries) (env : TypeEnv) (e : Expr) :
    Except (List Diagnostic) (TExpr × Scheme) :=
  let (t, c) := (do
    let t ← Checker.infer r e
    Unifier.finish
    return t : CheckM TExpr).run (.start env false)
  if c.unifier.hasErrors then .error c.unifier.errors
  else
    let (s, u) := (generalize t.ty c.env true).run c.unifier
    .ok (t.settle u.substitution, s.canonical)

end RowCheck
