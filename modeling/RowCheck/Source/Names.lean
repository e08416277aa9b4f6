import RowCheck.SortedSet
import RowCheck.Source.Expr
import RowCheck.Text.Uppercase

/-!
The names an expression depends on: its free variables, and the constructors its patterns mention.
-/
namespace RowCheck

mutual

/-- The names a pattern binds, left to right. -/
def Pattern.bindings : Pattern → List String
  | .wild _ | .lit _ _ => []
  | .var _ name => [name]
  | .tuple _ items => Pattern.bindingsList items
  | .ctor _ _ args => Pattern.bindingsList args

def Pattern.bindingsList : List Pattern → List String
  | [] => []
  | p :: ps => p.bindings ++ Pattern.bindingsList ps

end

mutual

/-- The constructor names a pattern mentions. A capitalized variable may name a case without fields,
so it is among them. -/
def Pattern.constructors : Pattern → List String
  | .wild _ | .lit _ _ => []
  | .var _ name => if Text.isCapitalized name then [name] else []
  | .tuple _ items => Pattern.constructorsList items
  | .ctor _ name args => name :: Pattern.constructorsList args

def Pattern.constructorsList : List Pattern → List String
  | [] => []
  | p :: ps => p.constructors ++ Pattern.constructorsList ps

end

mutual

/-- The variables that occur free in an expression, given the names bound around it. A name is bound
by a parameter, by a `let` in its body, or by a pattern in its arm. -/
def Expr.free (bound : List String) : Expr → List String
  | .lit _ _ => []
  | .var _ name => if name ∈ bound then [] else [name]
  | .call _ func args => func.free bound ++ Expr.freeList bound args
  | .lam _ params body => body.free (params.map (·.name.text) ++ bound)
  | .letIn _ name _ value body => value.free bound ++ body.free (name.text :: bound)
  | .seq _ items | .tuple _ items => Expr.freeList bound items
  | .construct _ _ args => Expr.freeList bound args
  | .cond _ c t e => c.free bound ++ t.free bound ++ e.free bound
  | .matchOn _ scrutinee arms => scrutinee.free bound ++ Expr.freeArms bound arms
  | .binary _ _ _ l r => l.free bound ++ r.free bound
  | .unary _ _ _ e => e.free bound
  | .borrow _ _ e | .deref _ e => e.free bound
  | .assign _ target value => target.free bound ++ value.free bound

def Expr.freeList (bound : List String) : List Expr → List String
  | [] => []
  | e :: es => e.free bound ++ Expr.freeList bound es

def Expr.freeArm (bound : List String) : Arm → List String
  | .mk p (some g) b => g.free (p.bindings ++ bound) ++ b.free (p.bindings ++ bound)
  | .mk p none b => b.free (p.bindings ++ bound)

def Expr.freeArms (bound : List String) : List Arm → List String
  | [] => []
  | a :: as => Expr.freeArm bound a ++ Expr.freeArms bound as

end

/-- The set of variables that occur free in an expression. -/
def Expr.freeVars (e : Expr) : SortedSet String :=
  .ofList (e.free [])

mutual

/-- The constructor names used by the patterns of an expression. -/
def Expr.matched : Expr → List String
  | .lit _ _ | .var _ _ => []
  | .call _ func args => func.matched ++ Expr.matchedList args
  | .lam _ _ body => body.matched
  | .letIn _ _ _ value body => value.matched ++ body.matched
  | .seq _ items | .tuple _ items => Expr.matchedList items
  | .construct _ _ args => Expr.matchedList args
  | .cond _ c t e => c.matched ++ t.matched ++ e.matched
  | .matchOn _ scrutinee arms => scrutinee.matched ++ Expr.matchedArms arms
  | .binary _ _ _ l r => l.matched ++ r.matched
  | .unary _ _ _ e => e.matched
  | .borrow _ _ e | .deref _ e => e.matched
  | .assign _ target value => target.matched ++ value.matched

def Expr.matchedList : List Expr → List String
  | [] => []
  | e :: es => e.matched ++ Expr.matchedList es

def Expr.matchedArm : Arm → List String
  | .mk p (some g) b => p.constructors ++ g.matched ++ b.matched
  | .mk p none b => p.constructors ++ b.matched

def Expr.matchedArms : List Arm → List String
  | [] => []
  | a :: as => Expr.matchedArm a ++ Expr.matchedArms as

end

/-- The set of constructor names used by the patterns of an expression. -/
def Expr.matchedConstructors (e : Expr) : SortedSet String :=
  .ofList e.matched

end RowCheck
