import RowCheck.Infer.Group
import RowCheck.Proofs.Types.Apply
import RowCheck.Proofs.Unify.Schemes

/-!
When a checked expression is well typed. There is one rule for each form, which compares the type of
a node with those of its parts; how the types were found plays no role. A local name has the type of
its binder, and a name from around the group an instance of its scheme.
-/
namespace RowCheck

/-- What a local name stands for. -/
inductive Entry where
  /-- A value of one type: a parameter, a name of a pattern, a `let` or a name of the group. -/
  | plain (t : Ty)
  /-- A `let` that was generalized. -/
  | general

/-- The local names in scope, the innermost first. -/
abbrev Context := List (String × Entry)

/-- A row in which the tail, if there is one, stands for a row. -/
def Row.instantiate (rows : RowVar → Row) (e : Row) : Row :=
  match e.tail with
  | none => e
  | some v => (rows v).extend e.labels

/-- Whether a type is a copy of that of a scheme with types and rows for its variables. A closed
scheme, as those of the names from outside a group, quantifies all of them. -/
def Scheme.Instance (s : Scheme) (t : Ty) : Prop :=
  ∃ types rows, t = s.ty.mapVars types (Row.instantiate rows)

/-- Whether arithmetic is possible on a type, as far as it is known. -/
def Ty.Numeric (t : Ty) : Prop :=
  (∃ p : Primitive, t = .prim p ∧ p.isNumeric = true) ∨ ∃ v, t = .var v

/-- The rule of a binary operator: the types of the operands and of the result. -/
def BinOp.Types (op : BinOp) (left right result : Ty) : Prop :=
  left = right ∧ match op with
    | .and | .or => left = .bool ∧ result = .bool
    | .add | .sub | .mul | .div => left.Numeric ∧ result = left
    | .lt | .le | .gt | .ge => left.Numeric ∧ result = .bool
    | .eq | .ne => result = .bool

/-- The rule of a unary operator. -/
def UnOp.Types (op : UnOp) (operand result : Ty) : Prop :=
  match op with
  | .neg => operand.Numeric ∧ result = operand
  | .not => operand = .bool ∧ result = .bool

/-! ## Patterns -/

/-- Whether some types are those of a variant's fields where the parameters of its definition stand
for the arguments of a type. -/
def SumType.FieldsFit (d : SumType) (v : Variant) (args types : List Ty) : Prop :=
  ∃ σ : TyVar → Ty, (∀ p t, (d.instantiation args).get? p = some t → σ p = t) ∧
    types = v.fields.map (Ty.mapVars σ id)

/-- A type that has an argument for each parameter determines the types of the fields. -/
theorem SumType.fieldsFit_iff {d : SumType} {v : Variant} {args types : List Ty}
    (hv : ∀ t ∈ v.fields, ∀ w ∈ t.vars, w ∈ d.params) (hlen : args.length = d.params.length) :
    d.FieldsFit v args types ↔ types = d.fieldsAt v args := by
  have known : ∀ t ∈ v.fields, ∀ w ∈ t.vars, ∃ a, (d.instantiation args).get? w = some a := by
    intro t ht w hw
    refine Option.isSome_iff_exists.1 (SortedMap.isSome_get?_ofList ?_)
    rw [List.map_fst_zip hlen.ge]
    exact hv t ht w hw
  have fields : ∀ {σ : TyVar → Ty},
      (∀ p t, (d.instantiation args).get? p = some t → σ p = t) →
      v.fields.map (Ty.mapVars σ id) = d.fieldsAt v args := by
    intro σ hσ
    refine List.map_congr_left fun t ht => Ty.mapVars_congr (fun w hw => ?_) fun _ _ => rfl
    obtain ⟨a, ha⟩ := known t ht w hw
    rw [hσ w a ha, ha, Option.getD_some]
  refine ⟨fun ⟨σ, hσ, ht⟩ => ht.trans (fields hσ), fun ht => ?_⟩
  have hσ : ∀ p t, (d.instantiation args).get? p = some t →
      ((d.instantiation args).get? p).getD (.var p) = t := by
    intro p t hp
    rw [hp, Option.getD_some]
  exact ⟨_, hσ, ht.trans (fields hσ).symm⟩

/-- The types of the fields of a case of an active pattern. -/
def Registries.caseFields (r : Registries) (pattern case : String) : List Ty :=
  match (r.types.get? pattern).bind (·.variant? case) with
  | some v => v.fields
  | none => []

/-- Whether a pattern and all patterns within it have the types that their forms call for. -/
inductive TPattern.WellTyped (r : Registries) : TPattern → Prop
  | wild {span : Span} {t : Ty} : WellTyped r (.wild span t)
  | bind {span : Span} {t : Ty} {name : String} {mode : Option Mode} :
      WellTyped r (.bind span t name mode)
  | lit {span : Span} {t : Ty} {value : Literal} : t = value.ty → WellTyped r (.lit span t value)
  | tuple {span : Span} {t : Ty} {items : List TPattern} : t = .tuple (items.map TPattern.ty) →
      (∀ p ∈ items, WellTyped r p) → WellTyped r (.tuple span t items)
  | variant {span : Span} {t : Ty} {typeName name : String} {args : List TPattern} {types : List Ty}
      {d : SumType} {v : Variant} : t = .named typeName types → r.types.get? typeName = some d →
      d.variant? name = some v → d.FieldsFit v types (args.map TPattern.ty) →
      (∀ p ∈ args, WellTyped r p) → WellTyped r (.variant span t typeName name args)
  | active {span : Span} {t : Ty} {pattern case : String} {args : List TPattern} :
      args.map TPattern.ty = r.caseFields pattern case → (∀ p ∈ args, WellTyped r p) →
      WellTyped r (.active span t pattern case args)

/-! ## Expressions -/

/-- Whether the value of a `let` may have a general type. The name of a constructor without fields
is a variable where it is written. -/
def TExpr.isValue : TExpr → Bool
  | .lam .. | .var .. | .lit .. | .construct _ _ _ [] => true
  | _ => false

namespace Context

/-- The names of a pattern are bound from left to right. -/
def bindNames (Γ : Context) (names : List (String × Ty × Span)) : Context :=
  names.foldl (fun Γ n => (n.1, .plain n.2.1) :: Γ) Γ

end Context

/-- Whether every node of an expression satisfies the rule of its form. -/
inductive Typed (r : Registries) (outer : TypeEnv) : Context → TExpr → Prop
  | lit {Γ : Context} {i : Info} {value : Literal} : i.ty = value.ty → Typed r outer Γ (.lit i value)
  | plain {Γ : Context} {i : Info} {name : String} : Γ.lookup name = some (.plain i.ty) →
      Typed r outer Γ (.var i name)
  | general {Γ : Context} {i : Info} {name : String} : Γ.lookup name = some .general →
      Typed r outer Γ (.var i name)
  | outer {Γ : Context} {i : Info} {name : String} {s : Scheme} : Γ.lookup name = none →
      outer.lookup name = some s → s.Instance i.ty → Typed r outer Γ (.var i name)
  | call {Γ : Context} {i : Info} {f a : TExpr} {effects : Row} : f.ty = .fn a.ty i.ty effects →
      Typed r outer Γ f → Typed r outer Γ a → Typed r outer Γ (.call i f a)
  | lam {Γ : Context} {i : Info} {b : Binder} {body : TExpr} {effects : Row} :
      i.ty = .fn b.ty body.ty effects → Typed r outer ((b.name, .plain b.ty) :: Γ) body →
      Typed r outer Γ (.lam i b body)
  /-- The parameter that stands in for those of a function without any binds no name. -/
  | thunk {Γ : Context} {i : Info} {b : Binder} {body : TExpr} {effects : Row} :
      b.name = "_" → b.span = i.span → b.ty = .unit → i.ty = .fn b.ty body.ty effects →
      Typed r outer Γ body → Typed r outer Γ (.lam i b body)
  | letPlain {Γ : Context} {i : Info} {b : Binder} {v body : TExpr} : b.ty = v.ty → i.ty = body.ty →
      Typed r outer Γ v → Typed r outer ((b.name, .plain b.ty) :: Γ) body →
      Typed r outer Γ (.letIn i b v body)
  | letGeneral {Γ : Context} {i : Info} {b : Binder} {v body : TExpr} : v.isValue = true →
      b.ty = v.ty → i.ty = body.ty → Typed r outer Γ v →
      Typed r outer ((b.name, .general) :: Γ) body → Typed r outer Γ (.letIn i b v body)
  | seq {Γ : Context} {i : Info} {items : List TExpr} : i.ty = Checker.lastType items →
      (∀ e ∈ items, Typed r outer Γ e) → Typed r outer Γ (.seq i items)
  | cond {Γ : Context} {i : Info} {c t e : TExpr} : c.ty = .bool → t.ty = i.ty → e.ty = i.ty →
      Typed r outer Γ c → Typed r outer Γ t → Typed r outer Γ e → Typed r outer Γ (.cond i c t e)
  | matchOn {Γ : Context} {i : Info} {s : TExpr} {arms : List TArm} {tree : Option DecisionTree} :
      Typed r outer Γ s →
      (∀ a ∈ arms, a.pattern.ty = s.ty ∧ a.pattern.WellTyped r) →
      (∀ a ∈ arms, ∀ g ∈ a.guard, g.ty = .bool) →
      (∀ a ∈ arms, ∀ g ∈ a.guard, Typed r outer (Γ.bindNames a.pattern.bindings) g) →
      (∀ a ∈ arms, a.body.ty = i.ty) →
      (∀ a ∈ arms, Typed r outer (Γ.bindNames a.pattern.bindings) a.body) →
      Typed r outer Γ (.matchOn i s arms tree)
  | tuple {Γ : Context} {i : Info} {items : List TExpr} : i.ty = .tuple (items.map TExpr.ty) →
      (∀ e ∈ items, Typed r outer Γ e) → Typed r outer Γ (.tuple i items)
  | construct {Γ : Context} {i : Info} {typeName name : String} {args : List TExpr}
      {types : List Ty} {d : SumType} {v : Variant} : i.ty = .named typeName types →
      r.types.get? typeName = some d → d.variant? name = some v →
      types.length = d.params.length → args.map TExpr.ty = d.fieldsAt v types →
      (∀ e ∈ args, Typed r outer Γ e) → Typed r outer Γ (.construct i typeName name args)
  | binary {Γ : Context} {i : Info} {op : BinOp} {a b : TExpr} : op.Types a.ty b.ty i.ty →
      Typed r outer Γ a → Typed r outer Γ b → Typed r outer Γ (.binary i op a b)
  | unary {Γ : Context} {i : Info} {op : UnOp} {a : TExpr} : op.Types a.ty i.ty →
      Typed r outer Γ a → Typed r outer Γ (.unary i op a)
  | borrow {Γ : Context} {i : Info} {kind : BorrowKind} {a : TExpr} : i.ty = .ref kind a.ty →
      Typed r outer Γ a → Typed r outer Γ (.borrow i kind a)
  | deref {Γ : Context} {i : Info} {kind : BorrowKind} {a : TExpr} : a.ty = .ref kind i.ty →
      Typed r outer Γ a → Typed r outer Γ (.deref i a)
  | assign {Γ : Context} {i : Info} {a b : TExpr} : a.ty = b.ty → i.ty = .unit →
      Typed r outer Γ a → Typed r outer Γ b → Typed r outer Γ (.assign i a b)

/-- The names of a group within its bodies: each has the type of its own body. -/
def Context.ofGroup (fs : List TFunction) : Context :=
  bindNames [] (fs.map fun f => (f.name, f.ty, f.span))

/-- Whether a checked function is one for a declaration, with the type of its body, which is well
typed among the functions of its group. -/
structure TFunction.WellTyped (r : Registries) (outer : TypeEnv) (group : List TFunction)
    (d : ValueDecl) (f : TFunction) : Prop where
  name : f.name = d.name.text
  ty : f.ty = f.body.ty
  body : Typed r outer (.ofGroup group) f.body

end RowCheck
