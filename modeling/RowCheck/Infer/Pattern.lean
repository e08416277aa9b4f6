import RowCheck.Infer.Checker
import RowCheck.Text.Uppercase

/-!
Checking patterns. The name of a constructor is first sought among the variants of the scrutinee's
type as far as that is known, then among the cases of active patterns, and last among all
constructors.
-/
namespace RowCheck

/-- What the name of a constructor in a pattern stands for. -/
inductive CaseTarget where
  | variant (typeName : String) (fields : List Ty)
  | active (pattern : String) (fields : List Ty)
  deriving Repr, Inhabited

namespace CaseTarget

def fields : CaseTarget → List Ty
  | variant _ fields | active _ fields => fields

/-- The pattern for a case with its arguments. -/
def toPattern (target : CaseTarget) (span : Span) (t : Ty) (name : String)
    (args : List TPattern) : TPattern :=
  match target with
  | variant typeName _ => .variant span t typeName name args
  | active pattern _ => .active span t pattern name args

end CaseTarget

namespace Checker

/-- Apply an active pattern to a scrutinee of type `expected`, at a case of it. The effects of its
function are performed in the context. -/
def applyActive (r : Registries) (p : ActivePattern) (name : String) (expected : Ty) (span : Span) :
    CheckM (CaseTarget × Row) := do
  let function ← match (← get).env.lookup p.name with
    | some s => s.instantiate span
    | none => pure Ty.error
  let (param, result, effects) ← freshFunction
  Unifier.unify (.fn param result effects) function (.of span .application)
  Unifier.unify param expected (.of span .patternMatch)
  Unifier.unify (.named p.name []) result (.of span .activeResult)
  Unifier.includeRow effects (← get).context (.of span .performedEffect)
  let fields := match (r.types.get? p.name).bind (·.variant? name) with
    | some v => v.fields
    | none => []
  return (.active p.name fields, effects)

/-- The variant of the scrutinee's type with a given name, if that type is known and has one. -/
def ownVariant? (r : Registries) (name : String) (t : Ty) : Option CaseTarget :=
  match t with
  | .named typeName args => do
    let d ← r.types.get? typeName
    let v ← d.variant? name
    return .variant typeName (d.fieldsAt v args)
  | _ => none

/-- What a constructor name stands for at a scrutinee of type `expected`, and the effects of finding
out whether the scrutinee is built so. -/
def resolveCase (r : Registries) (name : String) (expected : Ty) (span : Span) :
    CheckM (Option (CaseTarget × Row)) := do
  match ownVariant? r name ((← get).unifier.apply expected) with
  | some target => return some (target, .pure)
  | none =>
    match r.active.ofCase? name with
    | some p => return some (← applyActive r p name expected span)
    | none =>
      match r.types.constructor? name with
      | none => return none
      | some (d, v) =>
        let typeArgs ← freshTypes d.params
        Unifier.unify expected (.named d.name typeArgs) (.of span .patternMatch)
        return some (.variant d.name (d.fieldsAt v typeArgs), .pure)

/-- Bind a name of a pattern to a value of type `expected`. -/
def bindPatternName (name : String) (expected : Ty) (span : Span) : CheckM TPattern := do
  checkName ⟨span, name⟩
  bindMono name expected
  return .bind span expected name none

/-- A type for each item, of which nothing is known. -/
def freshItems : List Pattern → UnifyM (List Ty)
  | [] => return []
  | _ :: ps => do
    let t ← Unifier.freshType
    return t :: (← freshItems ps)

mutual

/-- Check a pattern for scrutinees of type `expected` and bind its names in the innermost scope. The
effects of the active patterns it applies are added to `own`. -/
def inferPattern (r : Registries) : Pattern → Ty → Row → CheckM (TPattern × Row)
  | .wild span, expected, own => return (.wild span expected, own)
  | .var span name, expected, own => do
    let found ← if Text.isCapitalized name then resolveCase r name expected span else pure none
    match found with
    | none => return (← bindPatternName name expected span, own)
    | some (target, effects) =>
      if target.fields.isEmpty then
        return (target.toPattern span expected name [], own.union effects)
      else
        failArity name target.fields.length 0 span
        return (.wild span expected, own.union effects)
  | .lit span value, expected, own => do
    checkLiteral value span
    Unifier.unify expected value.ty (.of span .patternMatch)
    return (.lit span expected value, own)
  | .tuple span items, expected, own => do
    let types ← freshItems items
    Unifier.unify expected (.tuple types) (.of span .patternMatch)
    let (items, own) ← inferPatterns r items types own
    return (.tuple span expected items, own)
  | .ctor span name args, expected, own => do
    match ← resolveCase r name expected span with
    | none =>
      fail .unboundName s!"unknown constructor or active pattern case `{name}`" span
      return (.wild span expected, ← bindOnly r args own)
    | some (target, effects) =>
      if target.fields.length = args.length then
        let (args, own) ← inferPatterns r args target.fields (own.union effects)
        return (target.toPattern span expected name args, own)
      else
        failArity name target.fields.length args.length span
        return (.wild span expected, ← bindOnly r args (own.union effects))

/-- Check patterns one by one, each for its type. -/
def inferPatterns (r : Registries) : List Pattern → List Ty → Row → CheckM (List TPattern × Row)
  | p :: ps, t :: ts, own => do
    let (p, own) ← inferPattern r p t own
    let (ps, own) ← inferPatterns r ps ts own
    return (p :: ps, own)
  | _, _, own => return ([], own)

/-- Bind the names of the arguments of a constructor that is at fault, so that the arm can be
checked. -/
def bindOnly (r : Registries) : List Pattern → Row → CheckM Row
  | [], own => return own
  | p :: ps, own => do
    let t ← Unifier.freshType
    let (_, own) ← inferPattern r p t own
    bindOnly r ps own

end

end Checker
end RowCheck
