import RowCheck.Source.Span
import RowCheck.Source.Operator

/-!
The trees a front end hands over: written types and effect rows, patterns, expressions and
declarations. Functions and calls may have several parameters; every node carries its span.
-/
namespace RowCheck

/-- An effect row as it is written: `[io, mut]` or `[io | e]`. -/
structure RowExpr where
  span : Span
  labels : List Name
  tail : Option Name
  deriving DecidableEq, Repr, Inhabited

/-- A type as it is written. -/
inductive TypeExpr where
  | named (span : Span) (name : String) (args : List TypeExpr)
  | var (span : Span) (name : String)
  | tuple (span : Span) (items : List TypeExpr)
  | ref (span : Span) (unique : Bool) (inner : TypeExpr)
  | fn (span : Span) (param result : TypeExpr) (effects : Option RowExpr)
  deriving Repr, Inhabited

def TypeExpr.span : TypeExpr → Span
  | .named s .. | .var s .. | .tuple s .. | .ref s .. | .fn s .. => s

/-- A pattern whose constructor names are not resolved yet. -/
inductive Pattern where
  | wild (span : Span)
  | var (span : Span) (name : String)
  | lit (span : Span) (value : Literal)
  | tuple (span : Span) (items : List Pattern)
  | ctor (span : Span) (name : String) (args : List Pattern)
  deriving Repr, Inhabited

/-- A parameter of a function, with its written type if it has one. -/
structure Param where
  name : Name
  type : Option TypeExpr
  deriving Repr, Inhabited

def Pattern.span : Pattern → Span
  | .wild s | .var s .. | .lit s .. | .tuple s .. | .ctor s .. => s

mutual

/-- An expression. `binary` and `unary` keep where their operator is written. -/
inductive Expr where
  | lit (span : Span) (value : Literal)
  | var (span : Span) (name : String)
  | call (span : Span) (func : Expr) (args : List Expr)
  | lam (span : Span) (params : List Param) (body : Expr)
  | letIn (span : Span) (name : Name) (type : Option TypeExpr) (value body : Expr)
  | seq (span : Span) (items : List Expr)
  | cond (span : Span) (condition onTrue onFalse : Expr)
  | matchOn (span : Span) (scrutinee : Expr) (arms : List Arm)
  | tuple (span : Span) (items : List Expr)
  | construct (span : Span) (name : Name) (args : List Expr)
  | binary (span : Span) (op : BinOp) (opSpan : Span) (left right : Expr)
  | unary (span : Span) (op : UnOp) (opSpan : Span) (operand : Expr)
  | borrow (span : Span) (unique : Bool) (target : Expr)
  | deref (span : Span) (target : Expr)
  | assign (span : Span) (target value : Expr)

/-- One arm of a match: a pattern, a guard if it has one, and a body. -/
inductive Arm where
  | mk (pattern : Pattern) (guard : Option Expr) (body : Expr)

end

deriving instance Repr, Inhabited for Expr
deriving instance Repr, Inhabited for Arm

def Arm.pattern : Arm → Pattern
  | .mk p _ _ => p

def Arm.guard : Arm → Option Expr
  | .mk _ g _ => g

def Arm.body : Arm → Expr
  | .mk _ _ b => b

def Expr.span : Expr → Span
  | .lit s .. | .var s .. | .call s .. | .lam s .. | .letIn s .. | .seq s .. | .cond s ..
  | .matchOn s .. | .tuple s .. | .construct s .. | .binary s .. | .unary s .. | .borrow s ..
  | .deref s .. | .assign s .. => s

/-- A case of a sum type or of an active pattern, with the written types of its fields. -/
structure VariantDecl where
  name : Name
  fields : List TypeExpr
  deriving Repr, Inhabited

/-- A function, or a value when there are no parameters. -/
structure FnDecl where
  span : Span
  name : Name
  params : List Param
  result : Option TypeExpr
  /-- The effects the innermost arrow may perform; inferred when absent. -/
  effects : Option RowExpr
  body : Expr
  deriving Repr, Inhabited

/-- A sum type with its parameters and variants. -/
structure TypeDecl where
  span : Span
  name : Name
  params : List Name
  variants : List VariantDecl
  deriving Repr, Inhabited

/-- A user-defined classification for use inside patterns. It declares a function to a result type
of the same name, whose variants are the cases; a partial one has an unnamed further case for
values it does not classify. -/
structure ActiveDecl where
  span : Span
  name : Name
  cases : List VariantDecl
  total : Bool
  param : Param
  body : Expr
  deriving Repr, Inhabited

inductive Decl where
  | fn (decl : FnDecl)
  | type (decl : TypeDecl)
  | active (decl : ActiveDecl)
  deriving Repr, Inhabited

/-- The name a declaration binds among values, if any. -/
def Decl.valueName? : Decl → Option Name
  | .fn d => some d.name
  | .active d => some d.name
  | .type _ => none

/-- A source file: its declarations in order. -/
abbrev Module := List Decl

end RowCheck
