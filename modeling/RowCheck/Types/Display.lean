import RowCheck.Types.Scheme

/-!
How types, rows and schemes are written. Variables get letters in the order of their numbers, or
their bare number where no names are given.
-/
namespace RowCheck

/-- The names under which variables are written. -/
structure VarNames where
  types : SortedMap TyVar String
  rows : SortedMap RowVar String

namespace VarNames

/-- No names: variables are written by their numbers. -/
def none : VarNames := ⟨∅, ∅⟩

/-- The letters of the alphabet, then the letters with 1 behind them, and so on. -/
def letter (index : Nat) : String :=
  let c := String.singleton (Char.ofNat ('a'.toNat + index % 26))
  if index < 26 then c else c ++ toString (index / 26)

def rowLetter (index : Nat) : String :=
  if index = 0 then "e" else "e" ++ toString index

/-- Names for all variables of some types, in the order of their numbers. -/
def ofTypes (types : List Ty) : VarNames where
  types := .ofList ((SortedSet.ofList (types.flatMap Ty.vars)).toList.zipIdx.map
    (fun p => (p.1, letter p.2)))
  rows := .ofList ((SortedSet.ofList (types.flatMap Ty.rows)).toList.zipIdx.map
    (fun p => (p.1, rowLetter p.2)))

def typeVar (names : VarNames) (v : TyVar) : String :=
  (names.types.get? v).getD ("t" ++ toString v)

def rowVar (names : VarNames) (v : RowVar) : String :=
  (names.rows.get? v).getD ("e" ++ toString v)

end VarNames

/-- A row in brackets: the labels in ascending order, then the tail behind a bar. -/
def Row.textWith (names : VarNames) (r : Row) : String :=
  let labels := String.intercalate ", " r.labels.toList
  match r.tail with
  | none => "[" ++ labels ++ "]"
  | some v =>
    if r.labels.isEmpty then "[" ++ names.rowVar v ++ "]"
    else "[" ++ labels ++ " | " ++ names.rowVar v ++ "]"

/-- A row with its variable written by number. -/
def Row.text (r : Row) : String := r.textWith .none

/-- The arrow of a function type; a row without labels and tail is left out. -/
def Row.arrowText (names : VarNames) (r : Row) : String :=
  if r.isPure then " -> " else " -" ++ r.textWith names ++ "-> "

mutual

/-- A type, with an arrow in parentheses where `nested` asks for it: as the parameter of another
arrow and behind a reference. -/
def Ty.textAt (names : VarNames) (nested : Bool) : Ty → String
  | .prim p => p.name
  | .string => "String"
  | .unit => "Unit"
  | .error => "<error>"
  | .var v => names.typeVar v
  | .fn p r e =>
    let text := p.textAt names true ++ e.arrowText names ++ r.textAt names false
    if nested then "(" ++ text ++ ")" else text
  | .tuple items => "(" ++ String.intercalate ", " (Ty.textsAt names items) ++ ")"
  | .named name args =>
    if args.isEmpty then name
    else name ++ "<" ++ String.intercalate ", " (Ty.textsAt names args) ++ ">"
  | .ref kind inner => kind.sigil ++ inner.textAt names true

def Ty.textsAt (names : VarNames) : List Ty → List String
  | [] => []
  | t :: ts => t.textAt names false :: Ty.textsAt names ts

end

def Ty.textWith (names : VarNames) (t : Ty) : String := t.textAt names false

/-- A type with its variables written by number. -/
def Ty.text (t : Ty) : String := t.textWith .none

/-- A type with its variables named by letters. -/
def Ty.display (t : Ty) : String := t.textWith (.ofTypes [t])

/-- Two types with letters from one naming, so a variable they share has one name. -/
def Ty.displayPair (s t : Ty) : String × String :=
  let names := VarNames.ofTypes [s, t]
  (s.textWith names, t.textWith names)

/-- A scheme: its type with letters, then its bounds. -/
def Scheme.text (s : Scheme) : String :=
  let names := VarNames.ofTypes [s.ty]
  let bounds := s.numeric.toList.map (fun v => names.typeVar v ++ ": " ++ numBound)
  let body := s.ty.textWith names
  if bounds.isEmpty then body else body ++ " where " ++ String.intercalate ", " bounds

end RowCheck
