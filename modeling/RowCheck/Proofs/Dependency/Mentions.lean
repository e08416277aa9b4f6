import RowCheck.Proofs.Dependency.References

/-!
What a declaration mentions: the variables that occur in it, bound or not, and the active patterns
whose cases its patterns write. This is coarser than what it refers to and than what checking it may
read, and it takes no account of scopes.
-/
namespace RowCheck

mutual

/-- The names of the variables that occur in an expression. -/
def Expr.variables : Expr → List String
  | .lit _ _ => []
  | .var _ name => [name]
  | .call _ func args => func.variables ++ Expr.variablesList args
  | .lam _ _ body => body.variables
  | .letIn _ _ _ value body => value.variables ++ body.variables
  | .seq _ items | .tuple _ items => Expr.variablesList items
  | .construct _ _ args => Expr.variablesList args
  | .cond _ c t e => c.variables ++ t.variables ++ e.variables
  | .matchOn _ scrutinee arms => scrutinee.variables ++ Expr.variablesArms arms
  | .binary _ _ _ l r => l.variables ++ r.variables
  | .unary _ _ _ e => e.variables
  | .borrow _ _ e | .deref _ e => e.variables
  | .assign _ target value => target.variables ++ value.variables

def Expr.variablesList : List Expr → List String
  | [] => []
  | e :: es => e.variables ++ Expr.variablesList es

def Expr.variablesArm : Arm → List String
  | .mk _ (some g) b => g.variables ++ b.variables
  | .mk _ none b => b.variables

def Expr.variablesArms : List Arm → List String
  | [] => []
  | a :: as => Expr.variablesArm a ++ Expr.variablesArms as

end

/-- The names of the variables that occur in the body of a declaration. -/
def Decl.variables : Decl → List String
  | .fn d => d.body.variables
  | .active d => d.body.variables
  | .type _ => []

/-- The names that a declaration mentions. -/
def Decl.mentioned (active : ActiveRegistry) (d : Decl) : List String :=
  d.variables ++ (d.cases.filterMap active.ofCase?).map (·.name)

/-! ## What is read or referred to is mentioned -/

theorem mem_append_of_imp {α : Type} {x : α} {xs ys xs' ys' : List α} (h : x ∈ xs ++ ys)
    (hl : x ∈ xs → x ∈ xs') (hr : x ∈ ys → x ∈ ys') : x ∈ xs' ++ ys' :=
  List.mem_append.2 ((List.mem_append.1 h).imp hl hr)

/-- Whether a name is one of some variables, or that of an active pattern with one of some cases. -/
def Mentioned (active : ActiveRegistry) (vars cases : List String) (name : String) : Prop :=
  name ∈ vars ∨ name ∈ (cases.filterMap active.ofCase?).map (·.name)

namespace Mentioned

variable {active : ActiveRegistry} {vars vars' cases cases' reads reads' : List String}
  {name : String}

theorem append (h : name ∈ reads ++ reads') (hl : name ∈ reads → Mentioned active vars cases name)
    (hr : name ∈ reads' → Mentioned active vars' cases' name) :
    Mentioned active (vars ++ vars') (cases ++ cases') name := by
  unfold Mentioned
  rw [List.filterMap_append, List.map_append]
  rcases List.mem_append.1 h with h | h
  · exact (hl h).imp (List.mem_append_left _) (List.mem_append_left _)
  · exact (hr h).imp (List.mem_append_right _) (List.mem_append_right _)

theorem of_applied {p : Pattern} {bound : List String}
    (h : name ∈ (p.applied active).filter (· ∉ bound)) : Mentioned active [] p.constructors name :=
  .inr (List.mem_filter.1 h).1

end Mentioned

section

variable {active : ActiveRegistry} {name : String}

mutual

/-- Checking an expression reads nothing that the expression does not mention. -/
theorem Expr.mentioned_of_reads : (e : Expr) → (bound : List String) → name ∈ e.reads active bound →
    Mentioned active e.variables e.matched name
  | .lit _ _, _, h => absurd h List.not_mem_nil
  | .var _ other, bound, h => by
    rw [Expr.reads] at h
    split at h
    · exact absurd h List.not_mem_nil
    · exact .inl h
  | .call _ func args, bound, h =>
    .append h (Expr.mentioned_of_reads func bound) (Expr.mentioned_of_readsList args bound)
  | .lam _ _ body, bound, h => Expr.mentioned_of_reads body _ h
  | .letIn _ _ _ value body, bound, h =>
    .append h (Expr.mentioned_of_reads value bound) (Expr.mentioned_of_reads body _)
  | .seq _ items, bound, h | .tuple _ items, bound, h | .construct _ _ items, bound, h =>
    Expr.mentioned_of_readsList items bound h
  | .cond _ c t e, bound, h =>
    .append h (fun h => .append h (Expr.mentioned_of_reads c bound) (Expr.mentioned_of_reads t bound))
      (Expr.mentioned_of_reads e bound)
  | .matchOn _ scrutinee arms, bound, h =>
    .append h (Expr.mentioned_of_reads scrutinee bound) (Expr.mentioned_of_readsArms arms bound)
  | .binary _ _ _ l r, bound, h | .assign _ l r, bound, h =>
    .append h (Expr.mentioned_of_reads l bound) (Expr.mentioned_of_reads r bound)
  | .unary _ _ _ e, bound, h | .borrow _ _ e, bound, h | .deref _ e, bound, h =>
    Expr.mentioned_of_reads e bound h

theorem Expr.mentioned_of_readsList : (es : List Expr) → (bound : List String) →
    name ∈ Expr.readsList active bound es →
    Mentioned active (Expr.variablesList es) (Expr.matchedList es) name
  | [], _, h => absurd h List.not_mem_nil
  | e :: es, bound, h =>
    .append h (Expr.mentioned_of_reads e bound) (Expr.mentioned_of_readsList es bound)

theorem Expr.mentioned_of_readsArm : (a : Arm) → (bound : List String) →
    name ∈ Expr.readsArm active bound a →
    Mentioned active (Expr.variablesArm a) (Expr.matchedArm a) name
  | .mk p (some g) b, bound, h => by
    have hguard : name ∈ (p.applied active).filter (· ∉ bound) ++
        g.reads active (p.variables ++ bound) →
        Mentioned active ([] ++ g.variables) (p.constructors ++ g.matched) name := fun h =>
      .append h .of_applied (Expr.mentioned_of_reads g _)
    exact .append h hguard (Expr.mentioned_of_reads b _)
  | .mk p none b, bound, h => by
    have hbody : Mentioned active ([] ++ b.variables) (p.constructors ++ b.matched) name :=
      .append h .of_applied (Expr.mentioned_of_reads b _)
    exact hbody

theorem Expr.mentioned_of_readsArms : (as : List Arm) → (bound : List String) →
    name ∈ Expr.readsArms active bound as →
    Mentioned active (Expr.variablesArms as) (Expr.matchedArms as) name
  | [], _, h => absurd h List.not_mem_nil
  | a :: as, bound, h =>
    .append h (Expr.mentioned_of_readsArm a bound) (Expr.mentioned_of_readsArms as bound)

end

mutual

theorem Expr.mem_variables_of_free : (e : Expr) → (bound : List String) → name ∈ e.free bound →
    name ∈ e.variables
  | .lit _ _, _, h => absurd h List.not_mem_nil
  | .var _ other, bound, h => by
    rw [Expr.free] at h
    split at h
    · exact absurd h List.not_mem_nil
    · exact h
  | .call _ func args, bound, h =>
    mem_append_of_imp h (Expr.mem_variables_of_free func bound)
      (Expr.mem_variables_of_freeList args bound)
  | .lam _ _ body, bound, h => Expr.mem_variables_of_free body _ h
  | .letIn _ _ _ value body, bound, h =>
    mem_append_of_imp h (Expr.mem_variables_of_free value bound) (Expr.mem_variables_of_free body _)
  | .seq _ items, bound, h | .tuple _ items, bound, h | .construct _ _ items, bound, h =>
    Expr.mem_variables_of_freeList items bound h
  | .cond _ c t e, bound, h =>
    mem_append_of_imp h (fun h => mem_append_of_imp h (Expr.mem_variables_of_free c bound)
      (Expr.mem_variables_of_free t bound)) (Expr.mem_variables_of_free e bound)
  | .matchOn _ scrutinee arms, bound, h =>
    mem_append_of_imp h (Expr.mem_variables_of_free scrutinee bound)
      (Expr.mem_variables_of_freeArms arms bound)
  | .binary _ _ _ l r, bound, h | .assign _ l r, bound, h =>
    mem_append_of_imp h (Expr.mem_variables_of_free l bound) (Expr.mem_variables_of_free r bound)
  | .unary _ _ _ e, bound, h | .borrow _ _ e, bound, h | .deref _ e, bound, h =>
    Expr.mem_variables_of_free e bound h

theorem Expr.mem_variables_of_freeList : (es : List Expr) → (bound : List String) →
    name ∈ Expr.freeList bound es → name ∈ Expr.variablesList es
  | [], _, h => absurd h List.not_mem_nil
  | e :: es, bound, h =>
    mem_append_of_imp h (Expr.mem_variables_of_free e bound) (Expr.mem_variables_of_freeList es bound)

theorem Expr.mem_variables_of_freeArm : (a : Arm) → (bound : List String) →
    name ∈ Expr.freeArm bound a → name ∈ Expr.variablesArm a
  | .mk _ (some g) b, _, h =>
    mem_append_of_imp h (Expr.mem_variables_of_free g _) (Expr.mem_variables_of_free b _)
  | .mk _ none b, _, h => Expr.mem_variables_of_free b _ h

theorem Expr.mem_variables_of_freeArms : (as : List Arm) → (bound : List String) →
    name ∈ Expr.freeArms bound as → name ∈ Expr.variablesArms as
  | [], _, h => absurd h List.not_mem_nil
  | a :: as, bound, h =>
    mem_append_of_imp h (Expr.mem_variables_of_freeArm a bound)
      (Expr.mem_variables_of_freeArms as bound)

end

/-- A declaration mentions what checking it may read. -/
theorem ValueDecl.mentioned_of_reads {d : Decl} {v : ValueDecl} (hv : d.value? = some v)
    {bound : List String} (h : name ∈ v.reads active bound) : name ∈ d.mentioned active := by
  cases d with
  | type d => cases hv
  | fn d =>
    cases hv
    exact List.mem_append.2 (Expr.mentioned_of_reads d.body _ h)
  | active d =>
    cases hv
    exact List.mem_append.2 (Expr.mentioned_of_reads d.body _ h)

/-- A declaration mentions what it refers to. -/
theorem Decl.mentioned_of_references {d : Decl} (h : name ∈ d.references active) :
    name ∈ d.mentioned active := by
  cases d with
  | type d => exact absurd h List.not_mem_nil
  | fn d =>
    refine mem_append_of_imp h (fun h => ?_) id
    split at h
    · exact Expr.mem_variables_of_free d.body _ h
    · exact Expr.mem_variables_of_free d.body _ h
  | active d =>
    refine mem_append_of_imp h (fun h => ?_) id
    exact Expr.mem_variables_of_free d.body _ (List.mem_filter.1 h).1

end

end RowCheck
