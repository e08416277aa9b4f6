import RowCheck.Types.Scheme
import RowCheck.Types.Substitution

/-!
Type environments: the schemes of the names in scope. The global layer holds finished declarations,
whose schemes are closed; the scopes above it shadow it and each other.
-/
namespace RowCheck

structure TypeEnv where
  globals : SortedMap String Scheme
  /-- The local scopes, the innermost first. -/
  scopes : List (SortedMap String Scheme)
  deriving Inhabited

namespace TypeEnv

def ofGlobals (globals : SortedMap String Scheme) : TypeEnv := ⟨globals, []⟩

/-- Bind a name in the innermost scope, which is opened if there is none. -/
def bind (env : TypeEnv) (name : String) (s : Scheme) : TypeEnv :=
  match env.scopes with
  | [] => { env with scopes := [(∅ : SortedMap String Scheme).insert name s] }
  | scope :: rest => { env with scopes := scope.insert name s :: rest }

def pushScope (env : TypeEnv) : TypeEnv := { env with scopes := ∅ :: env.scopes }

def popScope (env : TypeEnv) : TypeEnv := { env with scopes := env.scopes.tail }

@[simp] theorem popScope_pushScope (env : TypeEnv) : env.pushScope.popScope = env := rfl

/-- The scheme of a name: that of the innermost scope that binds it. -/
def lookup (env : TypeEnv) (name : String) : Option Scheme :=
  match env.scopes.findSome? (·.get? name) with
  | some s => some s
  | none => env.globals.get? name

/-- The schemes of the local scopes. -/
def locals (env : TypeEnv) : List Scheme := env.scopes.flatMap (·.values)

/-- The type variables that occur free in the local scopes under a substitution. -/
def freeVars (env : TypeEnv) (s : Substitution) : SortedSet TyVar :=
  .ofList (env.locals.flatMap (fun c => (s.apply c.ty).vars.filter (fun v => v ∉ c.typeVars)))

/-- The row variables that occur free in the local scopes under a substitution. -/
def freeRows (env : TypeEnv) (s : Substitution) : SortedSet RowVar :=
  .ofList (env.locals.flatMap (fun c => (s.apply c.ty).rows.filter (fun v => v ∉ c.rowVars)))

end TypeEnv

end RowCheck
