import RowCheck.Source.Names
import RowCheck.Types.Registry

/-!
The dependency graph of a module. Its nodes are the declarations that bind a value, of those with
one name only the first; an edge leads from a declaration to one that it uses.
-/
namespace RowCheck

/-- A graph on the nodes below the number of `nodes`. A node stands for a declaration by its index
in the module; `edges` gives the nodes that each node leads to, in ascending order. -/
structure DependencyGraph where
  nodes : List Nat
  edges : List (List Nat)
  deriving DecidableEq, Repr, Inhabited

/-- The names that a declaration uses: its free variables, and the active patterns whose cases its
patterns mention. -/
def Decl.references (active : ActiveRegistry) : Decl → List String
  | .fn d =>
    (if d.params.isEmpty then d.body else .lam d.span d.params d.body).free [] ++
      (d.body.matched.filterMap active.ofCase?).map (·.name)
  | .active d =>
    (d.body.free []).filter (fun name => name != d.param.name.text) ++
      (d.body.matched.filterMap active.ofCase?).map (·.name)
  | .type _ => []

namespace DependencyGraph

/-- The declarations that bind a value under a name not seen before, with their indices. -/
def firstValues (seen : List String) : List (Decl × Nat) → List (String × Nat × Decl)
  | [] => []
  | (d, index) :: rest =>
    match d.valueName? with
    | none => firstValues seen rest
    | some name =>
      if name.text ∈ seen then firstValues seen rest
      else (name.text, index, d) :: firstValues (name.text :: seen) rest

def ofModule (m : Module) (active : ActiveRegistry) : DependencyGraph :=
  let values := firstValues [] m.zipIdx
  let names := values.map (·.1)
  { nodes := values.map (·.2.1)
    edges := values.map (fun v =>
      (SortedSet.ofList ((v.2.2.references active).filterMap names.idxOf?)).toList) }

def size (g : DependencyGraph) : Nat := g.nodes.length

/-- The nodes that a node leads to. -/
def next (g : DependencyGraph) (n : Nat) : List Nat := (g.edges[n]?).getD []

/-- The declaration that a node stands for. -/
def decl (g : DependencyGraph) (n : Nat) : Nat := (g.nodes[n]?).getD 0

end DependencyGraph

end RowCheck
