import RowCheck.Infer.Pattern

/-!
Checking expressions. Every form has one rule; a function of several parameters becomes a chain of
functions of one, and a call with several arguments a chain of calls.
-/
namespace RowCheck

/-- Whether a `let` of this value may have a general type. -/
def Expr.isValue : Expr → Bool
  | .lam .. | .var .. | .lit .. => true
  | _ => false

/-- Whether an expression can be assigned to. -/
def Expr.isPlace : Expr → Bool
  | .var .. | .deref .. => true
  | _ => false

/-- A result type that a body must have, and why. -/
abbrev Expected := Option (Ty × Provenance)

/-- A written row that the effects of a body must keep to, and the name of the function. -/
abbrev Declared := Option (RowExpr × String)

namespace Checker

/-- Check a body in a context of its own. The answer is the body and the effects it performs. -/
def inContext (body : CheckM TExpr) (expected : Expected) : CheckM (TExpr × Row) := do
  let outer := (← get).context
  let inner ← Unifier.freshRow
  modify (fun c => { c with context := inner })
  let e ← body
  match expected with
  | some (t, why) => Unifier.unify t e.ty why
  | none => pure ()
  let performed := (← get).context
  modify (fun c => { c with context := outer })
  return (e, performed)

/-- The effects that a function shows: the written ones, which must include those performed, or else
those performed. -/
def exposedEffects (performed : Row) (declared : Declared) (span : Span) : CheckM Row := do
  match declared with
  | none => return performed
  | some (written, function) =>
    let row ← resolving written.resolve
    Unifier.includeRow performed row
      ((Provenance.of span (.declaredEffects function)).relatedTo written.span)
    return row

/-- Bind parameters, each with its written type or with a new variable. -/
def bindParams (r : Registries) : List Param → CheckM (List Binder)
  | [] => return []
  | p :: ps => do
    checkName p.name
    let t ← match p.type with
      | some written => resolving (written.resolve r.types)
      | none => Unifier.freshType
    bindMono p.name.text t
    return ⟨p.name.text, p.name.span, t, none⟩ :: (← bindParams r ps)

/-- The chain of functions over some binders. Only the innermost arrow, which is the first to have
all arguments, performs the effects of the body. -/
def lambdaChain (span : Span) (body : TExpr) (effects : Row) : List Binder → TExpr
  | [] => body
  | [b] => .lam (.quiet span (.fn b.ty body.ty effects)) b body
  | b :: c :: bs =>
    let inner := lambdaChain span body effects (c :: bs)
    .lam (.quiet span (.arrow b.ty inner.ty)) b inner

/-- Check a function. One without parameters takes the unit value. The answer is the outermost
function and the effects of having applied it to all its arguments. -/
def inferLambda (r : Registries) (params : List Param) (body : CheckM TExpr) (span : Span)
    (expected : Expected) (declared : Declared) : CheckM (TExpr × Row) := do
  modifyEnv .pushScope
  let binders ← bindParams r params
  let binders := if binders.isEmpty then [⟨"_", span, .unit, none⟩] else binders
  let (body, performed) ← inContext body expected
  let effects ← exposedEffects performed declared body.span
  modifyEnv .popScope
  return (lambdaChain span body effects binders, effects)

/-- The scheme of a local name: general for a value, plain otherwise. -/
def localScheme (e value : Expr) (name : String) (t : Ty) : CheckM Scheme := do
  if value.isValue then
    let s ← generalize t (← get).env false
    record .letGen e s.ty name
    return s
  else return .mono t

/-- All arms must have the type of the first. -/
def unifyArm (first : Option TExpr) (body : TExpr) : UnifyM Unit :=
  match first with
  | none => pure ()
  | some f => Unifier.unify f.ty body.ty ((Provenance.of body.span .matchArms).relatedTo f.span)

def lastType (items : List TExpr) : Ty :=
  match items.getLast? with
  | some e => e.ty
  | none => .unit

mutual

/-- Check an expression. -/
def infer (r : Registries) : Expr → CheckM TExpr
  | .lit span value => do
    checkLiteral value span
    record .literal (.lit span value) value.ty ""
    return .lit (.quiet span value.ty) value
  | .var span name => inferVar r (.var span name) name
  | .call span func args => do
    let callee ← infer r func
    let result ← if args.isEmpty then
        applyTo callee (.lit (.quiet span .unit) .unit) func.span span
      else inferCall r func.span span callee args
    record .call (.call span func args) result.ty s!"{args.length} argument(s)"
    return result
  | .lam span params body => do
    let (e, _) ← inferLambda r params (infer r body) span none none
    record .lambda (.lam span params body) e.ty ""
    return e
  | .letIn span name written value body => do
    let e := Expr.letIn span name written value body
    checkName name
    let v ← infer r value
    match written with
    | some w =>
      let t ← resolving (w.resolve r.types)
      Unifier.unify t v.ty ((Provenance.of value.span .letType).relatedTo w.span)
    | none => pure ()
    let s ← localScheme e value name.text v.ty
    modifyEnv .pushScope
    modifyEnv (fun env => env.bind name.text s)
    let b ← infer r body
    modifyEnv .popScope
    record .letIn e b.ty name.text
    return .letIn (.quiet span b.ty) ⟨name.text, name.span, v.ty, none⟩ v b
  | .seq span items => do
    let items ← inferList r items
    return .seq (.quiet span (lastType items)) items
  | .cond span condition onTrue onFalse => do
    let c ← infer r condition
    requireBool c
    let t ← infer r onTrue
    let f ← infer r onFalse
    Unifier.unify t.ty f.ty ((Provenance.of f.span .ifBranches).relatedTo t.span)
    record .cond (.cond span condition onTrue onFalse) t.ty ""
    return .cond (.quiet span t.ty) c t f
  | .matchOn span scrutinee arms => do
    let s ← infer r scrutinee
    let (checked, own) ← inferArms r s.ty none .pure arms
    let t ← match checked with
      | first :: _ => pure first.body.ty
      | [] => Unifier.freshType
    record .matchOn (.matchOn span scrutinee arms) t s!"{arms.length} arm(s)"
    return .matchOn (.of span t own) s checked none
  | .tuple span items => do
    let checked ← inferList r items
    let t := Ty.tuple (checked.map TExpr.ty)
    record .tuple (.tuple span items) t ""
    return .tuple (.quiet span t) checked
  | .construct span name args => do
    let checked ← inferList r args
    let e ← construct r name checked span
    record .construct (.construct span name args) e.ty name.text
    return e
  | .binary span op opSpan left right => do
    let a ← infer r left
    let b ← infer r right
    let t ← binaryType op opSpan a b
    record .binaryOp (.binary span op opSpan left right) t op.symbol
    return .binary (.quiet span t) op a b
  | .unary span op opSpan operand => do
    let a ← infer r operand
    let t ← unaryType op opSpan a
    return .unary (.quiet span t) op a
  | .borrow span unique inner => do
    let a ← infer r inner
    let t := Ty.ref (.ofUnique unique) a.ty
    record .borrow (.borrow span unique inner) t ""
    return .borrow (.quiet span t) (.ofUnique unique) a
  | .deref span inner => do
    let a ← infer r inner
    let t ← target a.ty a.span
    return .deref (.quiet span t) a
  | .assign span place value => do
    unless place.isPlace do
      Unifier.report ((Diagnostic.error .typeMismatch "invalid assignment target"
        place.span).withHelp "assign to a variable or through a `&mut` reference")
    let a ← infer r place
    let b ← infer r value
    Unifier.unify a.ty b.ty ((Provenance.of b.span .assign).relatedTo a.span)
    let own := Row.closed [mutLabel]
    Unifier.includeRow own (← get).context (.of span .performedEffect)
    record .assign (.assign span place value) .unit ""
    return .assign (.of span .unit own) a b

def inferList (r : Registries) : List Expr → CheckM (List TExpr)
  | [] => return []
  | e :: es => do
    let t ← infer r e
    return t :: (← inferList r es)

/-- Apply a callee to its arguments one by one. -/
def inferCall (r : Registries) (funcSpan span : Span) (callee : TExpr) :
    List Expr → CheckM TExpr
  | [] => return callee
  | a :: as => do
    let arg ← infer r a
    let next ← applyTo callee arg funcSpan span
    inferCall r funcSpan span next as

/-- Check an arm for scrutinees of type `t`, given the body of the first arm. -/
def inferArm (r : Registries) (t : Ty) (first : Option TExpr) (own : Row) :
    Arm → CheckM (TArm × Row)
  | .mk pattern (some guard) body => do
    modifyEnv .pushScope
    let (p, own) ← inferPattern r pattern t own
    let g ← infer r guard
    requireBool g
    let b ← infer r body
    modifyEnv .popScope
    unifyArm first b
    return (.mk p (some g) b, own)
  | .mk pattern none body => do
    modifyEnv .pushScope
    let (p, own) ← inferPattern r pattern t own
    let b ← infer r body
    modifyEnv .popScope
    unifyArm first b
    return (.mk p none b, own)

def inferArms (r : Registries) (t : Ty) (first : Option TExpr) (own : Row) :
    List Arm → CheckM (List TArm × Row)
  | [] => return ([], own)
  | a :: as => do
    let (arm, own) ← inferArm r t first own a
    let (arms, own) ← inferArms r t (first.or (some arm.body)) own as
    return (arm :: arms, own)

end

end Checker
end RowCheck
