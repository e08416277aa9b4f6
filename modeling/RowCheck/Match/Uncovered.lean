import RowCheck.Match.Shape
import RowCheck.Match.Witness

/-!
Finding a value that no arm covers. It is read off a way through the decision tree that ends
without an arm: every switch on the way fixes the constructor at one occurrence, and what the way
leaves open may be anything.
-/
namespace RowCheck

/-- The constructors that a way through a tree fixes, in order. -/
abbrev TreePath := List (Occurrence × Constructor)

namespace TreePath

/-- The constructor fixed at an occurrence, the last one if there are several. -/
def at? (path : TreePath) (o : Occurrence) : Option Constructor :=
  (path.reverse.find? (fun e => decide (e.1 = o))).map (·.2)

/-- The first active pattern applied to an occurrence on the way. -/
def appliedTo? (path : TreePath) (o : Occurrence) : Option String :=
  path.findSome? (fun e =>
    match e.1 with
    | .active parent pattern => if parent = o then some pattern else none
    | _ => none)

end TreePath

namespace Registries

/-- The type of the value at an occurrence, as far as the way to it tells. -/
def typeAt (r : Registries) (scrutinee : Ty) (path : TreePath) : Occurrence → Ty
  | .root => scrutinee
  | .active _ pattern => .named pattern []
  | .field parent index =>
    let t := r.typeAt scrutinee path parent
    match t with
    | .tuple items => (items[index]?).getD .error
    | _ =>
      match path.at? parent with
      | some c => ((r.fieldTypes t c)[index]?).getD .error
      | none => .error

/-- The first integer of a range that is not listed: from zero up, then from minus one down. Of
one more than there are listed, one is not. -/
def missingInt? (range : Int × Int) (listed : List Constructor) : Option Constructor :=
  let candidates := List.range (listed.length + 1)
  let up := (candidates.map (fun (n : Nat) => (n : Int))).filter (fun n => decide (n ≤ range.2))
  let down := (candidates.map (fun (n : Nat) => -(n : Int) - 1)).filter
    (fun n => decide (range.1 ≤ n))
  ((up ++ down).map (fun n => Constructor.literal (.int n))).find? (fun c => !decide (c ∈ listed))

/-- A constructor of a type that is not listed. -/
def missing? (r : Registries) (t : Ty) (listed : List Constructor) : Option Constructor :=
  match r.signature? t with
  | some all => all.find? (fun c => !decide (c ∈ listed))
  | none =>
    match t with
    | .prim p => p.range?.bind (fun range => missingInt? range listed)
    | _ => none

mutual

/-- A way through a tree that ends without an arm, behind the way to the tree. -/
def failPath (r : Registries) (scrutinee : Ty) (path : TreePath) : DecisionTree → Option TreePath
  | .fail => some path
  | .leaf .. => none
  | .guard _ _ otherwise => r.failPath scrutinee path otherwise
  | .switch o cases none => r.failPathInCases scrutinee path o cases
  | .switch o cases (some tree) =>
    match r.failPathInCases scrutinee path o cases with
    | some found => some found
    | none =>
      match r.missing? (r.typeAt scrutinee path o) (cases.map (·.1)) with
      | some c => r.failPath scrutinee (path ++ [(o, c)]) tree
      | none => r.failPath scrutinee path tree

def failPathInCases (r : Registries) (scrutinee : Ty) (path : TreePath) (o : Occurrence) :
    List (Constructor × DecisionTree) → Option TreePath
  | [] => none
  | (c, tree) :: rest =>
    match r.failPath scrutinee (path ++ [(o, c)]) tree with
    | some found => some found
    | none => r.failPathInCases scrutinee path o rest

end

/-- The witness for a value built with a constructor that the way fixes, given witnesses for what
lies deeper. At the result of an active pattern it is a value which the pattern classifies so. -/
def witnessOf (r : Registries) (deeper : Occurrence → Ty → Witness) (o : Occurrence) (t : Ty)
    (c : Constructor) : Witness :=
  let args := (r.fieldTypes t c).zipIdx.map (fun f => deeper (.field o f.2) f.1)
  match c with
  | .literal key => .literal key
  | .tuple _ => .tuple args
  | .variant _ name _ =>
    match o with
    | .active _ pattern => .active pattern name args
    | _ => .variant name args

mutual

/-- The witness at an occurrence. Where the way fixes nothing, a tuple is opened item by item, a
value to which an active pattern was applied is known by its result, and all else may be anything.
-/
def witnessAt (r : Registries) (path : TreePath) (deeper : Occurrence → Ty → Witness)
    (o : Occurrence) : Ty → Witness
  | .tuple items =>
    match path.at? o with
    | some c => r.witnessOf deeper o (.tuple items) c
    | none => .tuple (r.witnessesAt path deeper o 0 items)
  | t =>
    match path.at? o with
    | some c => r.witnessOf deeper o t c
    | none =>
      match path.appliedTo? o with
      | none => .wild
      | some pattern =>
        match path.at? (.active o pattern) with
        | some c => r.witnessOf deeper (.active o pattern) (.named pattern []) c
        | none => .wild

def witnessesAt (r : Registries) (path : TreePath) (deeper : Occurrence → Ty → Witness)
    (o : Occurrence) (index : Nat) : List Ty → List Witness
  | [] => []
  | t :: ts =>
    r.witnessAt path deeper (.field o index) t :: r.witnessesAt path deeper o (index + 1) ts

end

/-- The witness at an occurrence, where at most `n` of the constructors that the way fixes lie one
within the other. -/
def witnessWithin (r : Registries) (path : TreePath) : Nat → Occurrence → Ty → Witness
  | 0 => fun _ _ => .wild
  | n + 1 => r.witnessAt path (r.witnessWithin path n)

/-- A value that no arm covers, if the tree can fail. -/
def uncovered? (r : Registries) (tree : DecisionTree) (scrutinee : Ty) : Option Witness :=
  (r.failPath scrutinee [] tree).map (fun path =>
    r.witnessWithin path (path.length + 1) .root scrutinee)

end Registries
end RowCheck
