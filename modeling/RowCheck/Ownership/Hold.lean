import RowCheck.Typed.Expr

/-!
How each value is held and handed over. A reference is passed as a reference, a value that is
copied as a copy, and any other value is moved, unless it is only inspected.
-/
namespace RowCheck

/-- What becomes of a value: it is handed over, or only inspected. -/
inductive Demand where
  | value
  | read
  deriving DecidableEq, Repr, Inhabited

def Holding.of (t : Ty) (d : Demand) : Holding where
  mode := t.mode
  pass :=
    match t with
    | .ref .. => .reference
    | _ => if t.isCopy then .copy else if d = .read then .reference else .move

def Info.hold (d : Demand) (i : Info) : Info :=
  { i with holding := some (.of i.ty d) }

def Binder.hold (b : Binder) : Binder :=
  { b with mode := some b.ty.mode }

/-- A scrutinee is handed over if an arm binds a part of it that is not copied. -/
def TArm.scrutineeDemand (arms : List TArm) : Demand :=
  if arms.any (fun a => a.pattern.bindings.any (fun b => !b.2.1.isCopy)) then .value else .read

namespace TExpr

mutual

/-- Fill in how the values of an expression are held, given what becomes of its own value. The
parts of something that cannot be assigned to are left alone where it is assigned to. -/
def hold (d : Demand) : TExpr → TExpr
  | lit i v => lit (i.hold d) v
  | var i x => var (i.hold d) x
  | failed i => failed (i.hold d)
  | call i f a => call (i.hold d) (f.hold .read) (a.hold .value)
  | lam i p b => lam (i.hold d) p.hold (b.hold .value)
  | letIn i x v b => letIn (i.hold d) x.hold (v.hold .value) (b.hold d)
  | seq i items => seq (i.hold d) (holdSeq d items)
  | cond i c t e => cond (i.hold d) (c.hold .read) (t.hold d) (e.hold d)
  | matchOn i s arms tree =>
    matchOn (i.hold d) (s.hold (TArm.scrutineeDemand arms)) (holdArms d arms) tree
  | tuple i items => tuple (i.hold d) (holdList items)
  | construct i t v args => construct (i.hold d) t v (holdList args)
  | binary i op a b => binary (i.hold d) op (a.hold .read) (b.hold .read)
  | unary i op a => unary (i.hold d) op (a.hold .read)
  | borrow i k (.var j x) => borrow (i.hold d) k (.var (j.hold .read) x)
  | borrow i k (.deref j e) => borrow (i.hold d) k (.deref (j.hold .read) (e.hold .read))
  | borrow i k e => borrow (i.hold d) k (e.hold .value)
  | deref i e => deref (i.hold d) (e.hold .read)
  | assign i (.deref j e) v =>
    assign (i.hold d) (.deref (j.hold .read) (e.hold .read)) (v.hold .value)
  | assign i t v => assign (i.hold d) (t.mapInfo (Info.hold .read)) (v.hold .value)

def holdList : List TExpr → List TExpr
  | [] => []
  | e :: es => e.hold .value :: holdList es

/-- All values of a sequence but the last are only inspected. -/
def holdSeq (d : Demand) : List TExpr → List TExpr
  | [] => []
  | [e] => [e.hold d]
  | e :: f :: es => e.hold .read :: holdSeq d (f :: es)

def holdArm (d : Demand) : TArm → TArm
  | .mk p (some g) b => .mk p (some (g.hold .read)) (b.hold d)
  | .mk p none b => .mk p none (b.hold d)

def holdArms (d : Demand) : List TArm → List TArm
  | [] => []
  | a :: as => holdArm d a :: holdArms d as

end

end TExpr

end RowCheck
