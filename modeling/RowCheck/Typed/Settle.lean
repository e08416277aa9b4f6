import RowCheck.Typed.Expr
import RowCheck.Types.Substitution

/-!
Settling a checked expression once its pass is over: solved variables are replaced, and the
effects of each node are gathered from its own and those of its parts. Evaluating a function
performs nothing, so the effects of its body stay within it.
-/
namespace RowCheck

mutual

def TPattern.settle (s : Substitution) : TPattern → TPattern
  | .wild span t => .wild span (s.apply t)
  | .bind span t name _ => .bind span (s.apply t) name (some (s.apply t).mode)
  | .lit span t value => .lit span (s.apply t) value
  | .tuple span t items => .tuple span (s.apply t) (TPattern.settleList s items)
  | .variant span t type name args =>
    .variant span (s.apply t) type name (TPattern.settleList s args)
  | .active span t pattern case args =>
    .active span (s.apply t) pattern case (TPattern.settleList s args)

def TPattern.settleList (s : Substitution) : List TPattern → List TPattern
  | [] => []
  | p :: ps => p.settle s :: TPattern.settleList s ps

end

def Binder.settle (s : Substitution) (b : Binder) : Binder :=
  { b with ty := s.apply b.ty, mode := some (s.apply b.ty).mode }

/-- The settled node, given the effects of its parts in order. -/
def Info.settle (s : Substitution) (parts : List Row) (i : Info) : Info :=
  { i with ty := s.apply i.ty, effects := parts.foldl Row.union (s.findRow i.effects) }

/-- The effects of the parts of an arm in order. -/
def TArm.effects : TArm → List Row
  | .mk _ (some g) b => [g.effects, b.effects]
  | .mk _ none b => [b.effects]

namespace TExpr

mutual

def settle (s : Substitution) : TExpr → TExpr
  | lit i v => lit (i.settle s []) v
  | var i x => var (i.settle s []) x
  | failed i => failed (i.settle s [])
  | call i f a =>
    let f := f.settle s
    let a := a.settle s
    call (i.settle s [f.effects, a.effects]) f a
  | lam i b e => lam (i.settle s []) (b.settle s) (e.settle s)
  | letIn i b v e =>
    let v := v.settle s
    let e := e.settle s
    letIn (i.settle s [v.effects, e.effects]) (b.settle s) v e
  | seq i items =>
    let items := settleList s items
    seq (i.settle s (items.map effects)) items
  | tuple i items =>
    let items := settleList s items
    tuple (i.settle s (items.map effects)) items
  | construct i t v args =>
    let args := settleList s args
    construct (i.settle s (args.map effects)) t v args
  | cond i c t e =>
    let c := c.settle s
    let t := t.settle s
    let e := e.settle s
    cond (i.settle s [c.effects, t.effects, e.effects]) c t e
  | matchOn i e arms tree =>
    let e := e.settle s
    let arms := settleArms s arms
    matchOn (i.settle s (e.effects :: arms.flatMap TArm.effects)) e arms tree
  | binary i op a b =>
    let a := a.settle s
    let b := b.settle s
    binary (i.settle s [a.effects, b.effects]) op a b
  | unary i op a =>
    let a := a.settle s
    unary (i.settle s [a.effects]) op a
  | borrow i k a =>
    let a := a.settle s
    borrow (i.settle s [a.effects]) k a
  | deref i a =>
    let a := a.settle s
    deref (i.settle s [a.effects]) a
  | assign i a b =>
    let a := a.settle s
    let b := b.settle s
    assign (i.settle s [a.effects, b.effects]) a b

def settleList (s : Substitution) : List TExpr → List TExpr
  | [] => []
  | e :: es => e.settle s :: settleList s es

def settleArm (s : Substitution) : TArm → TArm
  | .mk p (some g) b => .mk (p.settle s) (some (g.settle s)) (b.settle s)
  | .mk p none b => .mk (p.settle s) none (b.settle s)

def settleArms (s : Substitution) : List TArm → List TArm
  | [] => []
  | a :: as => settleArm s a :: settleArms s as

end

end TExpr

end RowCheck
