import RowCheck.Infer.Group
import RowCheck.Proofs.Types.Apply

/-!
What the local scopes fix. A variable that is free in the scheme of a local name must not be
generalized. A closed scheme has no free variable; but the numbers of its quantified variables may be
those of variables that are bound in a pass, and then what these are bound to counts as fixed.
-/
namespace RowCheck

/-- Whether all type variables of a scheme are quantified. -/
def Scheme.ClosesTypes (s : Scheme) : Prop := ∀ v ∈ s.ty.vars, v ∈ s.typeVars

namespace TypeEnv

variable {env : TypeEnv} {s : Substitution}

theorem mem_freeVars {v : TyVar} :
    v ∈ env.freeVars s ↔ ∃ c ∈ env.locals, v ∈ (s.apply c.ty).vars ∧ v ∉ c.typeVars := by
  simp [freeVars]

end TypeEnv

/-- The scheme of the identity function, whose quantified variable is the first. -/
def identity : Scheme := ⟨[0], [], ∅, .arrow (.var 0) (.var 0)⟩

/-- An expression that uses a local function at two types and mentions no other name:
`let h = fn(x) { x(fn(y) { y }) } in (h(fn(k) { k(1) }), h(fn(k) { k(true) }))`. -/
def twice : Expr :=
  let param (x : String) : Param := ⟨.mk .synthetic x, none⟩
  let var := Expr.var .synthetic
  let use (l : Literal) := Expr.call .synthetic (var "h")
    [.lam .synthetic [param "k"] (.call .synthetic (var "k") [.lit .synthetic l])]
  .letIn .synthetic (.mk .synthetic "h") none
    (.lam .synthetic [param "x"]
      (.call .synthetic (var "x") [.lam .synthetic [param "y"] (var "y")]))
    (.tuple .synthetic [use (.int 1), use (.bool true)])

/-- With the identity in the global layer the expression has a type. With it in a local scope the
quantified variable is taken for the variable of the same number, which the pass binds; what it is bound
to counts as fixed, and the function is not general. -/
theorem twice_captures :
    (inferExpression .empty (.ofGlobals ((∅ : SortedMap String Scheme).insert "id" identity))
      twice).toOption.map (·.2.ty) = some (.tuple [.s32, .bool]) ∧
    (inferExpression .empty ((TypeEnv.ofGlobals ∅).bind "id" identity) twice).toOption.map
      (·.2.ty) = none := by
  decide +kernel

end RowCheck
