import RowCheck.Source.Expr
import RowCheck.Types.Registry
import RowCheck.Match.Decision

/-!
Checked declarations. Calls and lambdas take one argument. Every node holds its type and the
effects of evaluating it; ownership and the decision trees of matches are filled in by the later
parts of a check.
-/
namespace RowCheck

/-- How a value is held and handed over. -/
structure Holding where
  mode : Mode
  pass : Pass
  deriving DecidableEq, Repr, Inhabited

/-- What is known of a node. The effects are those of evaluating it, not those of calling its
value. -/
structure Info where
  span : Span
  ty : Ty
  effects : Row
  holding : Option Holding
  deriving DecidableEq, Repr, Inhabited

/-- A name bound by a lambda or a `let`. -/
structure Binder where
  name : String
  span : Span
  ty : Ty
  mode : Option Mode
  deriving DecidableEq, Repr, Inhabited

/-- A pattern whose constructor names are resolved. -/
inductive TPattern where
  | wild (span : Span) (ty : Ty)
  | bind (span : Span) (ty : Ty) (name : String) (mode : Option Mode)
  | lit (span : Span) (ty : Ty) (value : Literal)
  | tuple (span : Span) (ty : Ty) (items : List TPattern)
  | variant (span : Span) (ty : Ty) (typeName name : String) (args : List TPattern)
  /-- A case of an active pattern. The arguments match the fields of the case. -/
  | active (span : Span) (ty : Ty) (pattern case : String) (args : List TPattern)
  deriving Repr, Inhabited

namespace TPattern

def span : TPattern → Span
  | wild s _ | bind s .. | lit s .. | tuple s .. | variant s .. | active s .. => s

def ty : TPattern → Ty
  | wild _ t | bind _ t .. | lit _ t _ | tuple _ t _ | variant _ t .. | active _ t .. => t

mutual

/-- The names a pattern binds, left to right, with their types and positions. -/
def bindings : TPattern → List (String × Ty × Span)
  | wild .. | lit .. => []
  | bind s t name _ => [(name, t, s)]
  | tuple _ _ items => bindingsList items
  | variant _ _ _ _ args => bindingsList args
  | active _ _ _ _ args => bindingsList args

def bindingsList : List TPattern → List (String × Ty × Span)
  | [] => []
  | p :: ps => p.bindings ++ bindingsList ps

end

mutual

/-- Whether a pattern is seen to match every value from its form alone. -/
def isIrrefutable : TPattern → Bool
  | wild .. | bind .. => true
  | tuple _ _ items => isIrrefutableList items
  | lit .. | variant .. | active .. => false

def isIrrefutableList : List TPattern → Bool
  | [] => true
  | p :: ps => p.isIrrefutable && isIrrefutableList ps

end

end TPattern

mutual

/-- A checked expression. -/
inductive TExpr where
  | lit (info : Info) (value : Literal)
  | var (info : Info) (name : String)
  | call (info : Info) (func arg : TExpr)
  | lam (info : Info) (param : Binder) (body : TExpr)
  | letIn (info : Info) (binder : Binder) (value body : TExpr)
  | seq (info : Info) (items : List TExpr)
  | cond (info : Info) (condition onTrue onFalse : TExpr)
  | matchOn (info : Info) (scrutinee : TExpr) (arms : List TArm) (tree : Option DecisionTree)
  | tuple (info : Info) (items : List TExpr)
  | construct (info : Info) (typeName variant : String) (args : List TExpr)
  | binary (info : Info) (op : BinOp) (left right : TExpr)
  | unary (info : Info) (op : UnOp) (operand : TExpr)
  | borrow (info : Info) (kind : BorrowKind) (target : TExpr)
  | deref (info : Info) (target : TExpr)
  | assign (info : Info) (target value : TExpr)
  /-- A node whose check has failed. -/
  | failed (info : Info)

/-- A checked arm of a match. -/
inductive TArm where
  | mk (pattern : TPattern) (guard : Option TExpr) (body : TExpr)

end

deriving instance Repr, Inhabited for TExpr
deriving instance Repr, Inhabited for TArm

namespace TArm

def pattern : TArm → TPattern
  | mk p _ _ => p

def guard : TArm → Option TExpr
  | mk _ g _ => g

def body : TArm → TExpr
  | mk _ _ b => b

end TArm

namespace TExpr

def info : TExpr → Info
  | lit i _ | var i _ | call i .. | lam i .. | letIn i .. | seq i _ | cond i .. | matchOn i ..
  | tuple i _ | construct i .. | binary i .. | unary i .. | borrow i .. | deref i _ | assign i ..
  | failed i => i

/-- The expression with what is known of its node replaced. -/
def mapInfo (g : Info → Info) : TExpr → TExpr
  | lit i v => lit (g i) v
  | var i x => var (g i) x
  | call i f a => call (g i) f a
  | lam i p b => lam (g i) p b
  | letIn i x v b => letIn (g i) x v b
  | seq i items => seq (g i) items
  | cond i c t e => cond (g i) c t e
  | matchOn i s arms tree => matchOn (g i) s arms tree
  | tuple i items => tuple (g i) items
  | construct i t v args => construct (g i) t v args
  | binary i op l r => binary (g i) op l r
  | unary i op e => unary (g i) op e
  | borrow i k e => borrow (g i) k e
  | deref i e => deref (g i) e
  | assign i t v => assign (g i) t v
  | failed i => failed (g i)

@[simp] theorem info_mapInfo (g : Info → Info) (e : TExpr) : (e.mapInfo g).info = g e.info := by
  cases e <;> rfl

def ty (e : TExpr) : Ty := e.info.ty

def effects (e : TExpr) : Row := e.info.effects

def span (e : TExpr) : Span := e.info.span

mutual

/-- The number of nodes of an expression. Patterns are not counted. -/
def size : TExpr → Nat
  | lit .. | var .. | failed _ => 1
  | call _ f a => 1 + f.size + a.size
  | lam _ _ b => 1 + b.size
  | letIn _ _ v b => 1 + v.size + b.size
  | seq _ items | tuple _ items => 1 + sizeList items
  | construct _ _ _ args => 1 + sizeList args
  | cond _ c t e => 1 + c.size + t.size + e.size
  | matchOn _ s arms _ => 1 + s.size + sizeArms arms
  | binary _ _ l r => 1 + l.size + r.size
  | unary _ _ e => 1 + e.size
  | borrow _ _ e => 1 + e.size
  | deref _ e => 1 + e.size
  | assign _ t v => 1 + t.size + v.size

def sizeList : List TExpr → Nat
  | [] => 0
  | e :: es => e.size + sizeList es

def sizeArm : TArm → Nat
  | .mk _ (some g) b => g.size + b.size
  | .mk _ none b => b.size

def sizeArms : List TArm → Nat
  | [] => 0
  | a :: as => sizeArm a + sizeArms as

end

mutual

/-- The decision trees of an expression, that of a match before those within it. -/
def trees : TExpr → List DecisionTree
  | lit .. | var .. | failed _ => []
  | call _ f a => f.trees ++ a.trees
  | lam _ _ b => b.trees
  | letIn _ _ v b => v.trees ++ b.trees
  | seq _ items | tuple _ items => treesList items
  | construct _ _ _ args => treesList args
  | cond _ c t e => c.trees ++ t.trees ++ e.trees
  | matchOn _ s arms tree => tree.toList ++ s.trees ++ treesArms arms
  | binary _ _ l r => l.trees ++ r.trees
  | unary _ _ e => e.trees
  | borrow _ _ e => e.trees
  | deref _ e => e.trees
  | assign _ t v => t.trees ++ v.trees

def treesList : List TExpr → List DecisionTree
  | [] => []
  | e :: es => e.trees ++ treesList es

def treesArm : TArm → List DecisionTree
  | .mk _ (some g) b => g.trees ++ b.trees
  | .mk _ none b => b.trees

def treesArms : List TArm → List DecisionTree
  | [] => []
  | a :: as => treesArm a ++ treesArms as

end

end TExpr

/-- A checked function or value. The body is the whole chain of lambdas, and the type is the type
of the body before it is generalized. -/
structure TFunction where
  name : String
  span : Span
  ty : Ty
  effects : Row
  body : TExpr
  deriving Repr, Inhabited

/-- A checked declaration. -/
inductive TDecl where
  | fn (function : TFunction)
  /-- An active pattern: the function that classifies, and its definition. -/
  | active (function : TFunction) (definition : ActivePattern)
  | type (definition : SumType)
  deriving Repr, Inhabited

namespace TDecl

def name : TDecl → String
  | fn f => f.name
  | active f _ => f.name
  | type d => d.name

def function? : TDecl → Option TFunction
  | fn f => some f
  | active f _ => some f
  | type _ => none

/-- The declaration with its function replaced. -/
def mapFunction (d : TDecl) (g : TFunction → TFunction) : TDecl :=
  match d with
  | fn f => fn (g f)
  | active f p => active (g f) p
  | type t => type t

end TDecl

end RowCheck
