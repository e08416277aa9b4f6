import RowCheck.Source.Expr
import RowCheck.Types.Registry
import RowCheck.Unify.State

/-!
From written types to types. The written variables of one declaration share a scope; within the
definition of a type only its parameters are in scope.
-/
namespace RowCheck

/-- What the written variables of a declaration stand for. A closed scope admits no further ones. -/
structure TypeScope where
  types : SortedMap String Ty
  rows : SortedMap String RowVar
  closed : Bool
  deriving Inhabited

namespace TypeScope

/-- An empty scope that grows with the variables met. -/
def opened : TypeScope := ⟨∅, ∅, false⟩

/-- A scope of just the given parameters. -/
def ofParams (params : List (String × Ty)) : TypeScope := ⟨.ofList params, ∅, true⟩

end TypeScope

/-- An action on a scope of written variables and on an inference pass. -/
abbrev ResolveM := StateT TypeScope UnifyM

namespace TypeExpr

def arityMessage (name : String) (expected got : Nat) : String :=
  s!"type `{name}` expects {expected} type argument(s), got {got}"

/-- The types that are always known, by name. -/
def builtin? (name : String) : Option Ty :=
  if name = "String" then some .string
  else if name = "Unit" then some .unit
  else (Primitive.ofName? name).map .prim

/-- Report a fault of a written type, and go on with the type of a failed expression. -/
def fail (category : Category) (message : String) (span : Span) : ResolveM Ty := do
  Unifier.report (.error category message span)
  return .error

/-- A type with a name, once its arguments are resolved. -/
def resolveNamed (types : TypeRegistry) (span : Span) (name : String) (args : List Ty) :
    ResolveM Ty :=
  match builtin? name with
  | some t =>
    if args.isEmpty then return t
    else fail .typeMismatch (arityMessage name 0 args.length) span
  | none =>
    match types.get? name with
    | some d =>
      if d.params.length = args.length then return .named name args
      else fail .typeMismatch (arityMessage name d.params.length args.length) span
    | none => fail .unboundName s!"unknown type `{name}`" span

/-- A written type variable: the same one wherever its name is written again. -/
def resolveVar (span : Span) (name : String) : ResolveM Ty := do
  let scope ← get
  match scope.types.get? name with
  | some t => return t
  | none =>
    if scope.closed then
      fail .unboundName s!"type variable `'{name}` is not a parameter of this type" span
    else
      let t ← Unifier.freshType
      set { scope with types := scope.types.insert name t }
      return t

end TypeExpr

/-- A written row. A named tail is the same variable wherever its name is written again. -/
def RowExpr.resolve (r : RowExpr) : ResolveM Row := do
  let labels := SortedSet.ofList (r.labels.map (·.text))
  match r.tail with
  | none => return ⟨labels, none⟩
  | some tail =>
    let scope ← get
    match scope.rows.get? tail.text with
    | some v => return ⟨labels, some v⟩
    | none =>
      if scope.closed then
        Unifier.report (.error .unboundName
          s!"effect variable `{tail.text}` is not in scope here" tail.span)
        return ⟨labels, none⟩
      else
        let v ← Unifier.freshRowVar
        set { scope with rows := scope.rows.insert tail.text v }
        return ⟨labels, some v⟩

mutual

/-- The type that is written. A fault is reported, and the type of a failed expression stands in its
place. -/
def TypeExpr.resolve (types : TypeRegistry) : TypeExpr → ResolveM Ty
  | .named span name args => do
    TypeExpr.resolveNamed types span name (← TypeExpr.resolveList types args)
  | .var span name => TypeExpr.resolveVar span name
  | .tuple _ items => return .tuple (← TypeExpr.resolveList types items)
  | .ref _ unique inner => return .ref (.ofUnique unique) (← inner.resolve types)
  | .fn _ param result effects => do
    let p ← param.resolve types
    let r ← result.resolve types
    match effects with
    | some row => return .fn p r (← row.resolve)
    | none => return .arrow p r

def TypeExpr.resolveList (types : TypeRegistry) : List TypeExpr → ResolveM (List Ty)
  | [] => return []
  | t :: ts => do
    let u ← t.resolve types
    return u :: (← TypeExpr.resolveList types ts)

end

end RowCheck
