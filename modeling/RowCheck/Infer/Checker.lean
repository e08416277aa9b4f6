import RowCheck.Infer.Generalize
import RowCheck.Infer.Resolve
import RowCheck.Infer.Trace
import RowCheck.Source.Identifier
import RowCheck.Typed.Expr
import RowCheck.Unify.Effects

/-!
The state of checking one group of declarations, and the rules that need no recursion: applying a
value to an argument, building a variant, looking up a variable.
-/
namespace RowCheck

/-- The state of checking a group. `context` is the row of effects of the function body around, and
`active` the active pattern whose body is being checked. -/
structure Checker where
  unifier : Unifier
  env : TypeEnv
  context : Row
  scope : TypeScope
  active : Option ActivePattern
  steps : List InferStep
  deriving Inhabited

abbrev CheckM := StateM Checker

instance : MonadLift UnifyM CheckM where
  monadLift x := fun c =>
    let (a, u) := x c.unifier
    (a, { c with unifier := u })

namespace Checker

/-- The state at the start of a group. The first row variable is that of the outermost context. -/
def start (env : TypeEnv) (tracing : Bool) : Checker :=
  let (context, u) := Unifier.freshRow.run { Unifier.empty with tracing }
  { unifier := u, env, context, scope := .opened, active := none, steps := [] }

def fail (category : Category) (message : String) (span : Span) : CheckM Unit := do
  Unifier.report (.error category message span)

def modifyEnv (f : TypeEnv → TypeEnv) : CheckM Unit :=
  modify (fun c => { c with env := f c.env })

def bindMono (name : String) (t : Ty) : CheckM Unit :=
  modifyEnv (fun env => env.bind name (.mono t))

/-- Run an action on the written types of the declaration at hand. -/
def resolving {α : Type} (x : ResolveM α) : CheckM α := fun c =>
  let ((a, scope), u) := (x.run c.scope).run c.unifier
  (a, { c with scope, unifier := u })

/-- Record which rule gave an expression its type, if steps are recorded. -/
def record (rule : InferRule) (e : Expr) (t : Ty) (detail : String) : CheckM Unit :=
  modify (fun c =>
    if c.unifier.tracing then
      { c with
        steps := c.steps ++ [⟨e.summary, (c.unifier.apply t).display, rule, detail, e.span⟩] }
    else c)

/-- Record the scheme of a declaration, if steps are recorded. -/
def recordScheme (name : Name) (s : Scheme) : CheckM Unit :=
  modify (fun c =>
    if c.unifier.tracing then
      let detail :=
        s!"{s.typeVars.length} type variable(s), {s.rowVars.length} row variable(s)"
      { c with steps := c.steps ++ [⟨name.text, s.text, .generalize, detail, name.span⟩] }
    else c)

/-- A bound name must be an identifier or a single underscore. -/
def checkName (name : Name) : CheckM Unit :=
  if name.text = "_" then pure ()
  else
    match identifierError? name.text with
    | none => pure ()
    | some e => fail .invalidIdentifier s!"invalid identifier `{name.text}`: {e.message}" name.span

/-- Integer literals have type `s32` and must fit it. -/
def checkLiteral (value : Literal) (span : Span) : CheckM Unit :=
  match value with
  | .int n =>
    if -2147483648 ≤ n ∧ n ≤ 2147483647 then pure ()
    else do
      Unifier.report ((Diagnostic.error .typeMismatch
        s!"integer literal `{n}` is out of range for `s32`" span).withHelp
        "`s32` holds values from -2147483648 to 2147483647")
  | _ => pure ()

def failArity (name : String) (expected got : Nat) (span : Span) : CheckM Unit :=
  fail .typeMismatch s!"`{name}` expects {expected} field(s), got {got}" span

end Checker

def Literal.ty : Literal → Ty
  | .int _ => .s32
  | .float _ => .f64
  | .bool _ => .bool
  | .string _ => .string
  | .unit => .unit

/-- A node as inference leaves it: how its value is held is not known yet. -/
def Info.of (span : Span) (ty : Ty) (effects : Row) : Info := ⟨span, ty, effects, none⟩

/-- A node that performs nothing of its own. -/
def Info.quiet (span : Span) (ty : Ty) : Info := .of span ty .pure

/-- New type variables for the parameters of a sum type. -/
def freshTypes : List TyVar → UnifyM (List Ty)
  | [] => return []
  | _ :: vs => do
    let t ← Unifier.freshType
    return t :: (← freshTypes vs)

namespace Checker

/-- A new function type of which nothing is known. -/
def freshFunction : UnifyM (Ty × Ty × Row) := do
  let p ← Unifier.freshType
  let r ← Unifier.freshType
  let e ← Unifier.freshRow
  return (p, r, e)

/-- The parameter, result and effects of what is applied, if it can be a function. -/
def functionParts (t : Ty) (why : Provenance) : CheckM (Option (Ty × Ty × Row)) := do
  match ← Unifier.find t with
  | .fn p r e => return some (p, r, e)
  | .error => return none
  | .var _ =>
    let (p, r, e) ← freshFunction
    Unifier.unify (.fn p r e) t why
    return some (p, r, e)
  | other =>
    let (p, r, e) ← freshFunction
    Unifier.unify (.fn p r e) other why
    return none

/-- Apply a value to one argument. The effects of the arrow are performed in the context. -/
def applyTo (callee arg : TExpr) (funcSpan span : Span) : CheckM TExpr := do
  let why := (Provenance.of span .application).relatedTo funcSpan
  match ← functionParts callee.ty why with
  | none => return .call (.quiet span .error) callee arg
  | some (p, r, e) =>
    Unifier.unify p arg.ty ((Provenance.of arg.span .functionArg).relatedTo funcSpan)
    Unifier.includeRow e (← get).context (.of span .performedEffect)
    return .call (.of span r e) callee arg

/-- Each argument of a constructor must have the type of its field. -/
def unifyFields (constructor : String) : List Ty → List TExpr → UnifyM Unit
  | field :: fields, arg :: args => do
    Unifier.unify field arg.ty (.of arg.span (.constructorField constructor))
    unifyFields constructor fields args
  | _, _ => pure ()

/-- Build a variant from its arguments. `NoMatch` is built only in the body of a partial active
pattern. -/
def construct (r : Registries) (name : Name) (args : List TExpr) (span : Span) : CheckM TExpr := do
  let failed := TExpr.tuple (.quiet span .error) args
  if name.text = noMatch then
    match (← get).active with
    | some p =>
      if !p.total && args.isEmpty then
        return .construct (.quiet span (.named p.name [])) p.name noMatch args
    | none => pure ()
    fail .unboundName s!"`{noMatch}` can only be returned by a partial active pattern" name.span
    return failed
  match r.types.constructor? name.text with
  | none =>
    fail .unboundName s!"unknown constructor `{name.text}`" name.span
    return failed
  | some (d, v) =>
    if v.fields.length ≠ args.length then
      failArity name.text v.fields.length args.length span
      return failed
    let typeArgs ← freshTypes d.params
    unifyFields name.text (d.fieldsAt v typeArgs) args
    return .construct (.quiet span (.named d.name typeArgs)) d.name v.name args

/-- A variable, or the name of a constructor without fields. -/
def inferVar (r : Registries) (e : Expr) (name : String) : CheckM TExpr := do
  match (← get).env.lookup name with
  | some s =>
    let t ← s.instantiate e.span
    record .varLookup e t (if s.isMono then "" else "instantiated")
    return .var (.quiet e.span t) name
  | none =>
    if (r.types.constructor? name).isSome then construct r ⟨e.span, name⟩ [] e.span
    else
      fail .unboundName s!"unbound variable `{name}`" e.span
      return .failed (.quiet e.span .error)

/-- The target of a reference. What is not known to be a reference must be a shared one. -/
def target (t : Ty) (span : Span) : CheckM Ty := do
  match ← Unifier.find t with
  | .ref _ inner => return inner
  | .error => return .error
  | _ =>
    let inner ← Unifier.freshType
    Unifier.unify (.ref .shared inner) t (.of span .deref)
    return inner

/-- The type of a binary operation. Both operands have one type, which is `bool` for the logical
operators and numeric for arithmetic and order. -/
def binaryType (op : BinOp) (opSpan : Span) (left right : TExpr) : CheckM Ty := do
  let reason := Reason.binaryOp op.symbol
  let same : UnifyM Unit :=
    Unifier.unify left.ty right.ty ((Provenance.of right.span reason).relatedTo left.span)
  match op with
  | .and | .or =>
    Unifier.unify .bool left.ty (.of left.span reason)
    Unifier.unify .bool right.ty (.of right.span reason)
    return .bool
  | .add | .sub | .mul | .div =>
    same
    Unifier.requireNumeric left.ty (.of opSpan reason)
    return left.ty
  | .lt | .le | .gt | .ge =>
    same
    Unifier.requireNumeric left.ty (.of opSpan reason)
    return .bool
  | .eq | .ne =>
    same
    return .bool

def unaryType (op : UnOp) (opSpan : Span) (operand : TExpr) : CheckM Ty := do
  match op with
  | .neg =>
    Unifier.requireNumeric operand.ty (.of opSpan (.unaryOp "-"))
    return operand.ty
  | .not =>
    Unifier.unify .bool operand.ty (.of operand.span (.unaryOp "not"))
    return .bool

/-- A condition or a guard must be `bool`. -/
def requireBool (e : TExpr) : UnifyM Unit :=
  Unifier.unify .bool e.ty (.of e.span .condition)

end Checker
end RowCheck
