import RowCheck.Source.Expr
import RowCheck.Text.Quoted
import RowCheck.Decimal.Shortest
import RowCheck.Unify.Constraint

/-!
Traces: which rule gave which expression its type, and how.
-/
namespace RowCheck

inductive InferRule where
  | literal
  | varLookup
  | lambda
  | call
  | letIn
  | letGen
  | cond
  | matchOn
  | binaryOp
  | tuple
  | construct
  | borrow
  | assign
  | generalize
  deriving DecidableEq, Repr, Inhabited

def InferRule.name : InferRule → String
  | literal => "literal"
  | varLookup => "var_lookup"
  | lambda => "lambda"
  | call => "call"
  | letIn => "let"
  | letGen => "let_gen"
  | cond => "if"
  | matchOn => "match"
  | binaryOp => "binary_op"
  | tuple => "tuple"
  | construct => "construct"
  | borrow => "borrow"
  | assign => "assign"
  | generalize => "generalize"

/-- A recorded step of inference. -/
structure InferStep where
  expr : String
  type : String
  rule : InferRule
  detail : String
  span : Span
  deriving DecidableEq, Repr, Inhabited

/-- All that is recorded for one group of declarations. -/
structure GroupTrace where
  declarations : List String
  unify : List UnifyStep
  infer : List InferStep
  deriving DecidableEq, Repr, Inhabited

def Literal.text : Literal → String
  | .int n => toString n
  | .float bits => Decimal.text bits
  | .bool b => if b then "true" else "false"
  | .string s => Text.quoted s
  | .unit => "()"

/-- A short name for an expression, from its outermost form. -/
def Expr.summary : Expr → String
  | .lit _ value => value.text
  | .var _ name => name
  | .call _ func _ => func.summary ++ " ..."
  | .lam .. => "fun"
  | .letIn _ name .. => "let " ++ name.text
  | .seq .. => "seq"
  | .cond .. => "if"
  | .matchOn .. => "match"
  | .tuple .. => "tuple"
  | .construct _ name _ => name.text
  | .binary _ op .. => op.symbol
  | .unary .. => "unary"
  | .borrow _ unique _ => if unique then "&mut" else "&"
  | .deref .. => "*"
  | .assign .. => ":="

end RowCheck
