import RowCheck.Match.Compile
import RowCheck.Match.Uncovered
import RowCheck.Diagnostic

/-!
Checking the matches of a declaration: each gets its decision tree, an arm that no value selects is
warned of, and a match that misses a value is an error.
-/
namespace RowCheck

/-- A compiled match: its tree, the arms that no value selects, and a value that no arm covers. -/
structure CompiledMatch where
  tree : DecisionTree
  unreachable : List Nat
  uncovered : Option Witness
  deriving Repr, Inhabited

namespace Registries

/-- Compile a match on a scrutinee of a given type. An arm is its pattern and whether it has a
guard. -/
def compileMatch (r : Registries) (scrutinee : Ty) (arms : List (TPattern × Bool)) :
    CompiledMatch :=
  let tree := (Matrix.ofArms scrutinee arms).compile r
  { tree
    unreachable := (List.range arms.length).filter (fun arm => !decide (arm ∈ tree.reachableArms))
    uncovered := r.uncovered? tree scrutinee }

end Registries

/-- What an arm is to the compiler of matches. -/
def TArm.clause : TArm → TPattern × Bool
  | .mk pattern guard _ => (pattern, guard.isSome)

/-- The help for a match that does not cover a witness. -/
def Witness.help (w : Witness) : String :=
  match w.unmatched? with
  | some pattern =>
    s!"`{pattern}` is a partial active pattern; add a fallback arm such as `_` for values it " ++
      "does not match"
  | none => s!"add an arm for `{w.text}`, or a wildcard arm `_`"

/-- The faults of one match, given the positions of the match and of its scrutinee. -/
def CompiledMatch.faults (m : CompiledMatch) (arms : List TArm) (span scrutinee : Span) :
    List Diagnostic :=
  let unreachable := (arms.zipIdx.filter (fun a => decide (a.2 ∈ m.unreachable))).map (fun a =>
    ((Diagnostic.warning .unreachableArm "unreachable match arm" a.1.pattern.span).withLabel
      span "in this match").withHelp
      "earlier arms already match every value this pattern matches")
  let uncovered := m.uncovered.toList.map (fun w =>
    ((Diagnostic.error .nonExhaustiveMatch
      s!"non-exhaustive match: `{w.text}` is not covered" span).withLabel
      scrutinee "the matched value").withHelp w.help)
  unreachable ++ uncovered

namespace TExpr

mutual

/-- Give every match its decision tree, and collect the faults of the matches, those of a match
before those within it. A match on a value whose check has failed is left alone. -/
def compileMatches (r : Registries) : TExpr → TExpr × List Diagnostic
  | lit i v => (lit i v, [])
  | var i n => (var i n, [])
  | failed i => (failed i, [])
  | call i f a =>
    let (f, df) := f.compileMatches r
    let (a, da) := a.compileMatches r
    (call i f a, df ++ da)
  | lam i p b =>
    let (b, db) := b.compileMatches r
    (lam i p b, db)
  | letIn i x v b =>
    let (v, dv) := v.compileMatches r
    let (b, db) := b.compileMatches r
    (letIn i x v b, dv ++ db)
  | seq i items =>
    let (items, ds) := compileMatchesList r items
    (seq i items, ds)
  | tuple i items =>
    let (items, ds) := compileMatchesList r items
    (tuple i items, ds)
  | construct i t v args =>
    let (args, ds) := compileMatchesList r args
    (construct i t v args, ds)
  | cond i c t e =>
    let (c, dc) := c.compileMatches r
    let (t, dt) := t.compileMatches r
    let (e, de) := e.compileMatches r
    (cond i c t e, dc ++ dt ++ de)
  | matchOn i s arms tree =>
    let (tree, own) :=
      if s.ty.containsError then (tree, [])
      else
        let m := r.compileMatch s.ty (arms.map TArm.clause)
        (some m.tree, m.faults arms i.span s.span)
    let (s, ds) := s.compileMatches r
    let (arms, da) := compileMatchesArms r arms
    (matchOn i s arms tree, own ++ ds ++ da)
  | binary i op a b =>
    let (a, da) := a.compileMatches r
    let (b, db) := b.compileMatches r
    (binary i op a b, da ++ db)
  | unary i op a =>
    let (a, da) := a.compileMatches r
    (unary i op a, da)
  | borrow i k a =>
    let (a, da) := a.compileMatches r
    (borrow i k a, da)
  | deref i a =>
    let (a, da) := a.compileMatches r
    (deref i a, da)
  | assign i a b =>
    let (a, da) := a.compileMatches r
    let (b, db) := b.compileMatches r
    (assign i a b, da ++ db)

def compileMatchesList (r : Registries) : List TExpr → List TExpr × List Diagnostic
  | [] => ([], [])
  | e :: es =>
    let (e, d) := e.compileMatches r
    let (es, ds) := compileMatchesList r es
    (e :: es, d ++ ds)

def compileMatchesArm (r : Registries) : TArm → TArm × List Diagnostic
  | .mk p (some g) b =>
    let (g, dg) := g.compileMatches r
    let (b, db) := b.compileMatches r
    (.mk p (some g) b, dg ++ db)
  | .mk p none b =>
    let (b, db) := b.compileMatches r
    (.mk p none b, db)

def compileMatchesArms (r : Registries) : List TArm → List TArm × List Diagnostic
  | [] => ([], [])
  | a :: as =>
    let (a, d) := compileMatchesArm r a
    let (as, ds) := compileMatchesArms r as
    (a :: as, d ++ ds)

end

end TExpr

/-- Compile the matches of a declaration. -/
def TDecl.compileMatches (r : Registries) (d : TDecl) : TDecl × List Diagnostic :=
  match d with
  | .fn f =>
    let (body, ds) := f.body.compileMatches r
    (.fn { f with body }, ds)
  | .active f p =>
    let (body, ds) := f.body.compileMatches r
    (.active { f with body } p, ds)
  | .type t => (.type t, [])

end RowCheck
