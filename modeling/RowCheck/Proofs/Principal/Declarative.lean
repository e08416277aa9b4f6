import RowCheck.Infer.Expr

/-!
Which types an expression of the functional core has, by rules: literals, variables, functions and
calls, `let`, conditions, tuples and sequences. Effects play no role, so all arrows are pure. A `let`
of a value has a general type, and its name may be used at every instance of it.
-/
namespace RowCheck

namespace Scheme

/-- Whether a type is that of a scheme with types put in for the quantified variables. -/
def Admits (s : Scheme) (t : Ty) : Prop :=
  ∃ σ : TyVar → Ty, (∀ v, v ∉ s.typeVars → σ v = .var v) ∧ t = s.ty.mapVars σ id

/-- Whether a type variable occurs in a scheme and is not quantified there. -/
def IsFree (s : Scheme) (v : TyVar) : Prop := v ∈ s.ty.vars ∧ v ∉ s.typeVars

/-- A scheme without the effects in its type. -/
def erase (s : Scheme) : Scheme :=
  { s with rowVars := [], ty := s.ty.mapVars .var fun _ => .pure }

end Scheme

/-- What is assumed of names, the innermost first. -/
abbrev Assumptions := List (String × Scheme)

namespace Assumptions

/-- Whether a type variable is free in one of the assumptions. -/
def Fixes (Γ : Assumptions) (v : TyVar) : Prop := ∃ a ∈ Γ, a.2.IsFree v

/-- Each parameter has one type. A later parameter hides an earlier one of the same name. -/
def bindParams (Γ : Assumptions) : List Param → List Ty → Assumptions
  | p :: ps, t :: ts => bindParams ((p.name.text, .mono t) :: Γ) ps ts
  | _, _ => Γ

/-- What is assumed of the names of an environment: their schemes without effects. -/
def ofEnv (env : TypeEnv) : Assumptions :=
  (env.scopes.flatMap (·.entries) ++ env.globals.entries).map fun e => (e.1, e.2.erase)

end Assumptions

mutual

/-- Whether an expression has a type. A function without parameters takes the unit value, and so does
a call without arguments. -/
inductive Expr.HasType : Assumptions → Expr → Ty → Prop
  | lit {Γ : Assumptions} {span : Span} {value : Literal} : HasType Γ (.lit span value) value.ty
  | var {Γ : Assumptions} {span : Span} {name : String} {s : Scheme} {t : Ty} :
      Γ.lookup name = some s → s.Admits t → HasType Γ (.var span name) t
  | thunk {Γ : Assumptions} {span : Span} {body : Expr} {t : Ty} :
      HasType Γ body t → HasType Γ (.lam span [] body) (.arrow .unit t)
  | lam {Γ : Assumptions} {span : Span} {params : List Param} {body : Expr} {ts : List Ty} {t : Ty} :
      params ≠ [] → params.length = ts.length → HasType (Γ.bindParams params ts) body t →
      HasType Γ (.lam span params body) (.curried ts t .pure)
  | force {Γ : Assumptions} {span : Span} {func : Expr} {t : Ty} :
      HasType Γ func (.arrow .unit t) → HasType Γ (.call span func []) t
  | call {Γ : Assumptions} {span : Span} {func : Expr} {args : List Expr} {ts : List Ty} {t : Ty} :
      args ≠ [] → HasType Γ func (.curried ts t .pure) → Expr.HaveTypes Γ args ts →
      HasType Γ (.call span func args) t
  | letValue {Γ : Assumptions} {span : Span} {name : Name} {value body : Expr} {vs : List TyVar}
      {u t : Ty} : value.isValue = true → HasType Γ value u → (∀ v ∈ vs, ¬ Γ.Fixes v) →
      HasType ((name.text, ⟨vs, [], ∅, u⟩) :: Γ) body t →
      HasType Γ (.letIn span name none value body) t
  | letOther {Γ : Assumptions} {span : Span} {name : Name} {value body : Expr} {u t : Ty} :
      value.isValue = false → HasType Γ value u → HasType ((name.text, .mono u) :: Γ) body t →
      HasType Γ (.letIn span name none value body) t
  | cond {Γ : Assumptions} {span : Span} {condition onTrue onFalse : Expr} {t : Ty} :
      HasType Γ condition .bool → HasType Γ onTrue t → HasType Γ onFalse t →
      HasType Γ (.cond span condition onTrue onFalse) t
  | tuple {Γ : Assumptions} {span : Span} {items : List Expr} {ts : List Ty} :
      Expr.HaveTypes Γ items ts → HasType Γ (.tuple span items) (.tuple ts)
  | seq {Γ : Assumptions} {span : Span} {items : List Expr} {ts : List Ty} :
      Expr.HaveTypes Γ items ts →
      HasType Γ (.seq span items) (ts.getLast?.getD .unit)

/-- Whether some expressions have some types, one each. -/
inductive Expr.HaveTypes : Assumptions → List Expr → List Ty → Prop
  | nil {Γ : Assumptions} : HaveTypes Γ [] []
  | cons {Γ : Assumptions} {e : Expr} {es : List Expr} {t : Ty} {ts : List Ty} :
      Expr.HasType Γ e t → HaveTypes Γ es ts → HaveTypes Γ (e :: es) (t :: ts)

end

/-- Whether a name may be bound. -/
def Name.Valid (name : Name) : Prop := name.text = "_" ∨ identifierError? name.text = none

/-- Whether an integer literal fits its type. -/
def Literal.InRange : Literal → Prop
  | .int n => -2147483648 ≤ n ∧ n ≤ 2147483647
  | _ => True

/-- Whether an expression is of the functional core: it is built from the forms above without written
types, its integers fit and its names may be bound. -/
inductive Expr.Core : Expr → Prop
  | lit {span : Span} {value : Literal} : value.InRange → Core (.lit span value)
  | var {span : Span} {name : String} : Core (.var span name)
  | lam {span : Span} {params : List Param} {body : Expr} :
      (∀ p ∈ params, p.type = none ∧ p.name.Valid) → Core body → Core (.lam span params body)
  | call {span : Span} {func : Expr} {args : List Expr} :
      Core func → (∀ a ∈ args, Core a) → Core (.call span func args)
  | letIn {span : Span} {name : Name} {value body : Expr} :
      name.Valid → Core value → Core body → Core (.letIn span name none value body)
  | cond {span : Span} {condition onTrue onFalse : Expr} :
      Core condition → Core onTrue → Core onFalse → Core (.cond span condition onTrue onFalse)
  | tuple {span : Span} {items : List Expr} : (∀ e ∈ items, Core e) → Core (.tuple span items)
  | seq {span : Span} {items : List Expr} : (∀ e ∈ items, Core e) → Core (.seq span items)

end RowCheck
