import RowCheck.Source.Span

/-!
Diagnostics: what is wrong with a program, and where. Every diagnostic has a category with a fixed
code, a primary position, and labels for the other positions involved.
-/
namespace RowCheck

inductive Severity where
  | error
  | warning
  | info
  deriving DecidableEq, Repr, Inhabited

def Severity.name : Severity → String
  | .error => "error"
  | .warning => "warning"
  | .info => "info"

/-- The part of a check that a category belongs to. -/
inductive Stage where
  | declaration
  | type
  | effect
  | ownership
  | pattern
  deriving DecidableEq, Repr, Inhabited

def Stage.name : Stage → String
  | .declaration => "declaration"
  | .type => "type"
  | .effect => "effect"
  | .ownership => "ownership"
  | .pattern => "pattern"

inductive Category where
  /-- Two types that must be equal differ. -/
  | typeMismatch
  /-- A name is not in scope. -/
  | unboundName
  /-- A type would have to contain itself. -/
  | occursCheckFailure
  /-- An effect row does not admit the effects performed. -/
  | effectMismatch
  | useAfterMove
  /-- A borrow outlives what it points into. -/
  | danglingBorrow
  /-- A value is changed through a shared reference. -/
  | aliasedMutation
  /-- A borrow overlaps another borrow or a use of the same binding. -/
  | conflictingBorrow
  | moveOutOfBorrow
  | nonExhaustiveMatch
  | unreachableArm
  | duplicateDefinition
  | invalidIdentifier
  | invalidActivePattern
  deriving DecidableEq, Repr, Inhabited

namespace Category

def all : List Category :=
  [typeMismatch, unboundName, occursCheckFailure, effectMismatch, useAfterMove, danglingBorrow,
   aliasedMutation, conflictingBorrow, moveOutOfBorrow, nonExhaustiveMatch, unreachableArm,
   duplicateDefinition, invalidIdentifier, invalidActivePattern]

def name : Category → String
  | typeMismatch => "type_mismatch"
  | unboundName => "unbound_name"
  | occursCheckFailure => "occurs_check_failure"
  | effectMismatch => "effect_mismatch"
  | useAfterMove => "use_after_move"
  | danglingBorrow => "dangling_borrow"
  | aliasedMutation => "aliased_mutation"
  | conflictingBorrow => "conflicting_borrow"
  | moveOutOfBorrow => "move_out_of_borrow"
  | nonExhaustiveMatch => "non_exhaustive_match"
  | unreachableArm => "unreachable_arm"
  | duplicateDefinition => "duplicate_definition"
  | invalidIdentifier => "invalid_identifier"
  | invalidActivePattern => "invalid_active_pattern"

def ofName? (text : String) : Option Category :=
  all.find? (fun c => c.name = text)

def code : Category → String
  | typeMismatch => "E0101"
  | unboundName => "E0102"
  | occursCheckFailure => "E0103"
  | effectMismatch => "E0201"
  | useAfterMove => "E0301"
  | danglingBorrow => "E0302"
  | aliasedMutation => "E0303"
  | conflictingBorrow => "E0304"
  | moveOutOfBorrow => "E0305"
  | nonExhaustiveMatch => "E0401"
  | unreachableArm => "W0402"
  | duplicateDefinition => "E0001"
  | invalidIdentifier => "E0002"
  | invalidActivePattern => "E0003"

def stage : Category → Stage
  | typeMismatch | unboundName | occursCheckFailure => .type
  | effectMismatch => .effect
  | useAfterMove | danglingBorrow | aliasedMutation | conflictingBorrow | moveOutOfBorrow =>
    .ownership
  | nonExhaustiveMatch | unreachableArm => .pattern
  | duplicateDefinition | invalidIdentifier | invalidActivePattern => .declaration

def description : Category → String
  | typeMismatch => "Two types required to be equal have different shapes."
  | unboundName => "A referenced variable, function, or constructor is undefined."
  | occursCheckFailure => "A type would have to contain itself."
  | effectMismatch => "A function performs an effect missing from its declared effect row."
  | useAfterMove => "An owned value is used after it has been moved."
  | danglingBorrow => "A borrow outlives the storage it points into."
  | aliasedMutation => "A value is mutated through a shared borrow."
  | conflictingBorrow =>
    "A borrow overlaps with a unique borrow, a move, or a mutation of the same binding."
  | moveOutOfBorrow => "A non-copy value is moved out from behind a reference."
  | nonExhaustiveMatch => "Pattern matching is missing one or more cases."
  | unreachableArm => "A match arm is fully covered by earlier arms."
  | duplicateDefinition => "A name is declared more than once."
  | invalidIdentifier => "A declared name is not a valid identifier."
  | invalidActivePattern => "An active pattern declaration is malformed."

/-- How a fault of this category is usually mended. -/
def exampleFix : Category → String
  | typeMismatch => "Adjust the expression or annotation so both types agree."
  | unboundName => "Define or import the missing name, or fix the spelling."
  | occursCheckFailure => "Break the self-reference, usually by introducing an algebraic type."
  | effectMismatch => "Add the missing effect label to the declared row."
  | useAfterMove => "Borrow the value instead of moving it, or clone it first."
  | danglingBorrow => "Return or store an owned value instead of a borrow of a local."
  | aliasedMutation => "Take a unique borrow (`&mut`) to mutate."
  | conflictingBorrow =>
    "End the earlier borrow before taking the new one, or restructure the uses."
  | moveOutOfBorrow => "Copy or clone the value instead of moving it."
  | nonExhaustiveMatch => "Add a wildcard or the missing pattern arms."
  | unreachableArm => "Remove the arm or reorder it before the covering arm."
  | duplicateDefinition => "Rename or remove one of the declarations."
  | invalidIdentifier => "Use letters, digits and `_`, not starting with a digit."
  | invalidActivePattern => "Declare at least one uniquely named case."

theorem ofName?_name (c : Category) : ofName? c.name = some c := by
  cases c <;> decide +kernel

theorem code_injective {c d : Category} (h : c.code = d.code) : c = d := by
  cases c <;> cases d <;> first | rfl | exact absurd h (by decide +kernel)

end Category

/-- A further position of a diagnostic, with what is to be seen there. -/
structure Label where
  location : Span
  message : String
  deriving DecidableEq, Repr, Inhabited

structure Diagnostic where
  severity : Severity
  category : Category
  message : String
  location : Option Span
  labels : List Label
  help : Option String
  deriving DecidableEq, Repr, Inhabited

namespace Diagnostic

def error (category : Category) (message : String) (location : Span) : Diagnostic :=
  ⟨.error, category, message, some location, [], none⟩

def warning (category : Category) (message : String) (location : Span) : Diagnostic :=
  ⟨.warning, category, message, some location, [], none⟩

def withLabel (d : Diagnostic) (location : Span) (message : String) : Diagnostic :=
  { d with labels := d.labels ++ [⟨location, message⟩] }

def withHelp (d : Diagnostic) (help : String) : Diagnostic :=
  { d with help := some help }

def isError (d : Diagnostic) : Bool :=
  d.severity = .error

/-- The same diagnostic as an error. -/
def deny (d : Diagnostic) : Diagnostic :=
  { d with severity := .error }

@[simp] theorem isError_deny (d : Diagnostic) : d.deny.isError = true := rfl

/-- All positions of a diagnostic, the primary one first. -/
def positions (d : Diagnostic) : List Span :=
  d.location.toList ++ d.labels.map (·.location)

/-- The text of a diagnostic: one line for the message, one for each label, one for the help. -/
def text (d : Diagnostic) : String :=
  let head := d.severity.name ++ "[" ++ d.category.code ++ "]: " ++ d.message
  let notes := d.labels.map (fun l =>
    "\n  note: " ++ l.message ++ " (" ++ toString l.location.start ++ ".." ++
      toString l.location.stop ++ ")")
  let help := match d.help with
    | some h => "\n  help: " ++ h
    | none => ""
  head ++ String.join notes ++ help

/-- Whether one diagnostic may stand before another: those without a position first, then by file,
start and end. -/
def precedes (d e : Diagnostic) : Bool :=
  match d.location, e.location with
  | none, _ => true
  | some _, none => false
  | some s, some t =>
    s.file < t.file ||
      s.file == t.file && (s.start < t.start || s.start == t.start && s.stop ≤ t.stop)

/-- Order diagnostics by position; those at one position keep their order. -/
def sort (ds : List Diagnostic) : List Diagnostic :=
  ds.mergeSort precedes

/-- The text that stands for a list of diagnostics: that of the first. -/
def summary (ds : List Diagnostic) : String :=
  match ds with
  | [] => ""
  | d :: _ => d.text

end Diagnostic

end RowCheck
