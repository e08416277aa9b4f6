import RowCheck.Match.Shape
import RowCheck.Typed.Expr

/-!
Compiling a match to a decision tree. A row of the matrix is an arm, a column is a value found in
the scrutinee. The first column in which the first row tests something is either extended by the
result of an active pattern, or decided by its constructors; each step makes the patterns left to
test fewer.
-/
namespace RowCheck

/-- A pattern as a cell of the matrix. -/
inductive Cell where
  /-- Matches anything, and binds it if there is a name. -/
  | wild (name : Option String)
  | test (constructor : Constructor) (args : List Cell)
  | active (pattern case : String) (args : List Cell)
  deriving Repr, Inhabited

namespace Cell

mutual

def ofPattern : TPattern → Cell
  | .wild .. => wild none
  | .bind _ _ name _ => wild (some name)
  | .lit _ _ value => test (.literal value.key) []
  | .tuple _ _ items => test (.tuple items.length) (ofPatterns items)
  | .variant _ _ type name args => test (.variant type name args.length) (ofPatterns args)
  | .active _ _ pattern case args => active pattern case (ofPatterns args)

def ofPatterns : List TPattern → List Cell
  | [] => []
  | p :: ps => ofPattern p :: ofPatterns ps

end

def isWild : Cell → Bool
  | wild _ => true
  | test .. | active .. => false

mutual

/-- How much there is to test in a cell. Applying an active pattern counts for one more than
testing its result. -/
def weight : Cell → Nat
  | wild _ => 0
  | test _ args => 1 + weightList args
  | active _ _ args => 2 + weightList args

def weightList : List Cell → Nat
  | [] => 0
  | c :: cs => c.weight + weightList cs

end

/-- A cell split at an active pattern: what is left to test of the value itself, and of the
result. -/
def applied (pattern : String) : Cell → List Cell
  | active p case args =>
    if p = pattern then [wild none, test (.variant pattern case args.length) args]
    else [active p case args, wild none]
  | cell => [cell, wild none]

theorem weightList_append (l m : List Cell) :
    weightList (l ++ m) = weightList l + weightList m := by
  induction l with
  | nil => simp [weightList]
  | cons c cs ih => simp [weightList, ih, Nat.add_assoc]

end Cell

/-- A value found in the scrutinee. -/
structure Column where
  occurrence : Occurrence
  ty : Ty
  deriving DecidableEq, Repr, Inhabited

/-- What is left to test of an arm, and what it has bound. -/
structure MatchRow where
  cells : List Cell
  arm : Nat
  guarded : Bool
  bindings : Bindings
  deriving Repr, Inhabited

structure Matrix where
  columns : List Column
  rows : List MatchRow
  deriving Repr, Inhabited

/-- A list with the item at a place replaced by a list. -/
def splice {α : Type} (l : List α) (i : Nat) (m : List α) : List α :=
  l.take i ++ m ++ l.drop (i + 1)

namespace MatchRow

def weight (r : MatchRow) : Nat := 1 + Cell.weightList r.cells

/-- The bindings of the cells that are names, by column. -/
def namesIn : List Cell → List Column → Bindings
  | .wild (some name) :: cells, column :: columns =>
    (name, column.occurrence) :: namesIn cells columns
  | _ :: cells, _ :: columns => namesIn cells columns
  | _, _ => []

/-- The cells without their names, as far as there are columns. -/
def forgetNames : List Cell → List Column → List Cell
  | .wild _ :: cells, _ :: columns => .wild none :: forgetNames cells columns
  | cell :: cells, _ :: columns => cell :: forgetNames cells columns
  | cells, _ => cells

/-- Turn the names among the cells into bindings. -/
def bindNames (columns : List Column) (r : MatchRow) : MatchRow :=
  { r with
    cells := forgetNames r.cells columns
    bindings := r.bindings ++ namesIn r.cells columns }

/-- The row for values built with `c`, which has `n` fields, in column `i`. -/
def specialize (i : Nat) (c : Constructor) (n : Nat) (r : MatchRow) : Option MatchRow :=
  match r.cells[i]? with
  | some (.test d args) => if d = c then some { r with cells := splice r.cells i args } else none
  | some (.wild _) => some { r with cells := splice r.cells i (List.replicate n (.wild none)) }
  | _ => none

/-- The row for values built with none of the constructors that are tested in column `i`. -/
def fallback (i : Nat) (r : MatchRow) : Option MatchRow :=
  match r.cells[i]? with
  | some (.wild _) => some { r with cells := splice r.cells i [] }
  | _ => none

/-- Move an application of `pattern` in column `i` to a test of its result in a new column behind.
-/
def expandActive (i : Nat) (pattern : String) (r : MatchRow) : MatchRow :=
  match r.cells[i]? with
  | none => r
  | some cell => { r with cells := splice r.cells i (cell.applied pattern) }

/-- The weights of rows together. -/
def weightList : List MatchRow → Nat
  | [] => 0
  | r :: rs => r.weight + weightList rs

end MatchRow

namespace Matrix

/-- What is left to test, and the number of rows. -/
def weight (m : Matrix) : Nat := MatchRow.weightList m.rows

def bindNames (m : Matrix) : Matrix :=
  { m with rows := m.rows.map (MatchRow.bindNames m.columns) }

/-- The first active pattern applied in column `i`. -/
def activeIn? (m : Matrix) (i : Nat) : Option String :=
  m.rows.findSome? (fun (r : MatchRow) =>
    match r.cells[i]? with
    | some (.active p _ _) => some p
    | _ => none)

/-- The constructors tested in column `i`, each where it first appears. -/
def heads (m : Matrix) (i : Nat) : List Constructor :=
  m.rows.foldl (fun seen (r : MatchRow) =>
    match r.cells[i]? with
    | some (.test c _) => if c ∈ seen then seen else seen ++ [c]
    | _ => seen) []

/-- The value in column `i`. -/
def columnAt (m : Matrix) (i : Nat) : Column :=
  (m.columns[i]?).getD ⟨.root, .error⟩

/-- The matrix for values built with `c` in column `i`, which is replaced by the fields. -/
def specialize (m : Matrix) (i : Nat) (c : Constructor) (fields : List Ty) : Matrix where
  columns := splice m.columns i
    (fields.zipIdx.map (fun f => ⟨.field (m.columnAt i).occurrence f.2, f.1⟩))
  rows := m.rows.filterMap (MatchRow.specialize i c fields.length)

/-- The matrix for values built with none of the constructors that are tested in column `i`. -/
def fallback (m : Matrix) (i : Nat) : Matrix where
  columns := splice m.columns i []
  rows := m.rows.filterMap (MatchRow.fallback i)

/-- Add a column for the result of `pattern` on column `i`. -/
def expandActive (m : Matrix) (i : Nat) (pattern : String) : Matrix where
  columns := splice m.columns i
    [m.columnAt i, ⟨.active (m.columnAt i).occurrence pattern, .named pattern []⟩]
  rows := m.rows.map (MatchRow.expandActive i pattern)

end Matrix

end RowCheck
