import RowCheck.Dependency.Graph

/-!
The strongly connected components of a dependency graph, by one depth-first search. A node is the
first of its component to be visited if no node reached from it leads back further; the component
is then what lies on the stack above it.
-/
namespace RowCheck

/-- The state of a search: the order numbers of the visited nodes, the nodes whose component is not
complete (the last visited first), and the complete components. -/
structure Search where
  order : SortedMap Nat Nat
  stack : List Nat
  components : List (List Nat)
  deriving Inhabited

abbrev SearchM := StateM Search

namespace DependencyGraph

/-- Give a node the next order number and put it on the stack. -/
def enter (n : Nat) : SearchM Nat := do
  let s ← get
  let number := s.order.entries.length
  set { s with order := s.order.insert n number, stack := n :: s.stack }
  return number

/-- Take the component of its first node off the stack. -/
def complete (n : Nat) : SearchM Unit :=
  modify (fun s =>
    { s with
      stack := (s.stack.dropWhile (fun k => k != n)).drop 1
      components := s.components ++ [s.stack.takeWhile (fun k => k != n) ++ [n]] })

/-- The least order number that some nodes lead back to, where `low` is the least so far. `visit`
does so for a node not visited yet. -/
def lowest (visit : Nat → SearchM Nat) : List Nat → Nat → SearchM Nat
  | [], low => return low
  | k :: ks, low => do
    let s ← get
    match s.order.get? k with
    | none =>
      let below ← visit k
      lowest visit ks (min low below)
    | some number =>
      lowest visit ks (if k ∈ s.stack then min low number else low)

/-- Visit a node and all that it leads to, at most `fuel` nodes deep. The answer is the least order
number that it leads back to. -/
def visit (g : DependencyGraph) : Nat → Nat → SearchM Nat
  | 0, _ => return 0
  | fuel + 1, n => do
    let number ← enter n
    let low ← lowest (g.visit fuel) (g.next n) number
    if low = number then complete n
    return low

/-- Visit those of some nodes that have not been visited. No node is visited twice, so the number of
nodes bounds the depth. -/
def visitAll (g : DependencyGraph) : List Nat → SearchM Unit
  | [] => pure ()
  | n :: ns => do
    match (← get).order.get? n with
    | none => let _ ← g.visit g.size n
    | some _ => pure ()
    g.visitAll ns

/-- The strongly connected components. A component comes after all those it leads to. -/
def components (g : DependencyGraph) : List (List Nat) :=
  ((g.visitAll (List.range g.size)).run ⟨∅, [], []⟩).2.components

/-- The number of a node's component. -/
def componentOf (components : List (List Nat)) (n : Nat) : Nat :=
  components.findIdx (fun c => decide (n ∈ c))

/-- The depth of each component: one more than the greatest depth of the components it leads to,
zero if there are none. -/
def depths (g : DependencyGraph) (components : List (List Nat)) : List Nat :=
  components.zipIdx.foldl (fun depths c =>
    let below := ((c.1.flatMap g.next).map (componentOf components)).filter (fun k => k != c.2)
    depths ++ [(below.map (fun k => (depths[k]?).getD 0 + 1)).foldl max 0]) []

/-- The components as groups of declarations, by depth. The groups of one level do not depend on
each other, only on those of the levels before. -/
def levels (g : DependencyGraph) : List (List (List Nat)) :=
  let components := g.components
  let depths := g.depths components
  let groups := (components.map (fun c => (c.map g.decl).mergeSort (· ≤ ·))).zip depths
  let height := (depths.map (· + 1)).foldl max 0
  (List.range height).map (fun level =>
    ((groups.filter (fun p => decide (p.2 = level))).map (·.1)).mergeSort
      (fun a b => !b.lex a (fun i j => decide (i < j))))

end DependencyGraph

end RowCheck
