import RowCheck.Match.Decision
import RowCheck.Types.Registry

/-!
Witnesses: examples of values that no arm of a match covers.
-/
namespace RowCheck

inductive Witness where
  | wild
  | literal (key : LiteralKey)
  | tuple (items : List Witness)
  | variant (name : String) (args : List Witness)
  /-- A value that an active pattern classifies as a case. -/
  | active (pattern case : String) (args : List Witness)
  deriving Repr, Inhabited

namespace Witness

/-- Whether a witness needs no parentheses behind a constructor. -/
def isAtomic : Witness → Bool
  | variant _ args | active _ _ args => args.isEmpty
  | wild | literal _ | tuple _ => true

mutual

def text : Witness → String
  | wild => "_"
  | literal key => key.text
  | tuple items => "(" ++ String.intercalate ", " (texts items) ++ ")"
  | variant name args => name ++ argsText args
  | active pattern case args =>
    if case = noMatch then "_ (not matched by " ++ pattern ++ ")" else case ++ argsText args

def texts : List Witness → List String
  | [] => []
  | w :: ws => w.text :: texts ws

/-- The arguments of a constructor, each after a space. -/
def argsText : List Witness → String
  | [] => ""
  | w :: ws => (if w.isAtomic then " " ++ w.text else " (" ++ w.text ++ ")") ++ argsText ws

end

mutual

/-- The partial active pattern without a match that a witness rests on, the leftmost one if there
are several. -/
def unmatched? : Witness → Option String
  | active pattern case args => if case = noMatch then some pattern else unmatchedIn? args
  | variant _ args => unmatchedIn? args
  | tuple items => unmatchedIn? items
  | wild | literal _ => none

def unmatchedIn? : List Witness → Option String
  | [] => none
  | w :: ws =>
    match w.unmatched? with
    | some p => some p
    | none => unmatchedIn? ws

end

end Witness

end RowCheck
