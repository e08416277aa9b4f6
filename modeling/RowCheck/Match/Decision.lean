import RowCheck.SortedSet
import RowCheck.Source.Operator
import RowCheck.Text.Quoted
import RowCheck.Decimal.Shortest

/-!
Decision trees: how a match finds its arm. A tree inspects values within the scrutinee, each at its
occurrence, and ends in an arm or fails.
-/
namespace RowCheck

/-- Where a value is found: the scrutinee, a field of a value found before, or the result of an
active pattern on a value found before. -/
inductive Occurrence where
  | root
  | field (parent : Occurrence) (index : Nat)
  | active (parent : Occurrence) (pattern : String)
  deriving DecidableEq, Repr, Inhabited

def Occurrence.text : Occurrence → String
  | root => "$"
  | field parent index => parent.text ++ "." ++ toString index
  | active parent pattern => pattern ++ "(" ++ parent.text ++ ")"

/-- A literal as something to compare with. Floats are compared by their text, so that a value
that is not a number equals itself and the two zeros differ. -/
inductive LiteralKey where
  | unit
  | bool (value : Bool)
  | int (value : Int)
  | float (text : String)
  | string (value : String)
  deriving DecidableEq, Repr, Inhabited

def Literal.key : Literal → LiteralKey
  | .unit => .unit
  | .bool b => .bool b
  | .int n => .int n
  | .float bits => .float (Decimal.text bits)
  | .string s => .string s

def LiteralKey.text : LiteralKey → String
  | unit => "()"
  | bool b => if b then "true" else "false"
  | int n => toString n
  | float t => t
  | string s => Text.quoted s

/-- What a value is tested for. The cases of an active pattern are variants of its result type. -/
inductive Constructor where
  | variant (type name : String) (arity : Nat)
  | tuple (arity : Nat)
  | literal (key : LiteralKey)
  deriving DecidableEq, Repr, Inhabited

def Constructor.arity : Constructor → Nat
  | variant _ _ n | tuple n => n
  | literal _ => 0

def Constructor.text : Constructor → String
  | variant _ name _ => name
  | tuple n => "tuple/" ++ toString n
  | literal key => key.text

/-- The names an arm binds, with where the values are found. -/
abbrev Bindings := List (String × Occurrence)

inductive DecisionTree where
  /-- The arm is selected. -/
  | leaf (arm : Nat) (bindings : Bindings)
  /-- The arm is selected if its guard holds. -/
  | guard (arm : Nat) (bindings : Bindings) (otherwise : DecisionTree)
  /-- The value at an occurrence decides. The fallback is for all constructors not listed. -/
  | switch (occurrence : Occurrence) (cases : List (Constructor × DecisionTree))
      (fallback : Option DecisionTree)
  | fail
  deriving Repr, Inhabited

namespace DecisionTree

mutual

/-- The arms that a tree selects or tries, each as often as it occurs. -/
def arms : DecisionTree → List Nat
  | leaf arm _ => [arm]
  | guard arm _ otherwise => arm :: otherwise.arms
  | switch _ cases (some fallback) => armsOfCases cases ++ fallback.arms
  | switch _ cases none => armsOfCases cases
  | fail => []

def armsOfCases : List (Constructor × DecisionTree) → List Nat
  | [] => []
  | (_, t) :: rest => t.arms ++ armsOfCases rest

end

/-- The set of arms that a tree selects or tries. -/
def reachableArms (t : DecisionTree) : SortedSet Nat := .ofList t.arms

mutual

/-- Whether some way through a tree ends without an arm. -/
def canFail : DecisionTree → Bool
  | fail => true
  | leaf .. => false
  | guard _ _ otherwise => otherwise.canFail
  | switch _ cases (some fallback) => canFailInCases cases || fallback.canFail
  | switch _ cases none => canFailInCases cases

def canFailInCases : List (Constructor × DecisionTree) → Bool
  | [] => false
  | (_, t) :: rest => t.canFail || canFailInCases rest

end

def bindingsText (bindings : Bindings) : String :=
  if bindings.isEmpty then ""
  else " (" ++ String.intercalate ", " (bindings.map (fun b => b.1 ++ " = " ++ b.2.text)) ++ ")"

def pad (indent : Nat) : String := String.ofList (List.replicate indent ' ')

mutual

/-- The lines of a tree. The content of a branch stands four places to the right of its switch, what
follows a guard two places. -/
def linesAt (indent : Nat) : DecisionTree → List String
  | leaf arm bindings => [pad indent ++ "arm " ++ toString arm ++ bindingsText bindings]
  | guard arm bindings otherwise =>
    (pad indent ++ "guard arm " ++ toString arm ++ bindingsText bindings) ::
      (pad indent ++ "else:") :: otherwise.linesAt (indent + 2)
  | switch occurrence cases (some fallback) =>
    (pad indent ++ "switch " ++ occurrence.text) :: linesOfCases indent cases ++
      (pad indent ++ "  default:") :: fallback.linesAt (indent + 4)
  | switch occurrence cases none =>
    (pad indent ++ "switch " ++ occurrence.text) :: linesOfCases indent cases
  | fail => [pad indent ++ "fail"]

def linesOfCases (indent : Nat) : List (Constructor × DecisionTree) → List String
  | [] => []
  | (c, t) :: rest =>
    (pad indent ++ "  case " ++ c.text ++ ":") :: t.linesAt (indent + 4) ++
      linesOfCases indent rest

end

/-- The text of a tree. Every line ends with a line break. -/
def text (t : DecisionTree) : String :=
  String.join ((t.linesAt 0).map (· ++ "\n"))

end DecisionTree

end RowCheck
