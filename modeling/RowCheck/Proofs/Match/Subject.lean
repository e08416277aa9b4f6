import Mathlib.Data.List.Forall2
import RowCheck.Match.Shape
import RowCheck.Typed.Expr

/-!
What a match is about, said without its decision tree: values and their types, what the active
patterns give on them, which patterns accept them, and which arm comes first. A subject is a value
together with the result of every active pattern on every value found in it; evaluating a tree on a
subject looks values up by their occurrence.
-/
namespace RowCheck

/-- A value as far as patterns can tell values apart. A number or a text is its key; a function or
a reference has nothing that a pattern could test. -/
inductive Value where
  | literal (key : LiteralKey)
  | tuple (items : List Value)
  | variant (type name : String) (args : List Value)
  | sealed
  deriving Repr, Inhabited

namespace Value

/-- What a value is built with. -/
def constructor? : Value → Option Constructor
  | literal key => some (.literal key)
  | tuple items => some (.tuple items.length)
  | variant type name args => some (.variant type name args.length)
  | sealed => none

def parts : Value → List Value
  | tuple items => items
  | variant _ _ args => args
  | literal _ | sealed => []

end Value

/-- The value that a constructor builds from some parts. -/
def Constructor.build : Constructor → List Value → Value
  | variant type name _, parts => .variant type name parts
  | tuple _, parts => .tuple parts
  | literal key, _ => .literal key

/-! ## Types of values -/

/-- Which literals a type has. Integers have to lie in the range of their type. -/
inductive LiteralKey.Fits : LiteralKey → Ty → Prop
  | unit : Fits .unit .unit
  | bool (b : Bool) : Fits (.bool b) .bool
  | int {n low high : Int} {p : Primitive} : p.range? = some (low, high) → low ≤ n → n ≤ high →
      Fits (.int n) (.prim p)
  | f32 (text : String) : Fits (.float text) (.prim .f32)
  | f64 (text : String) : Fits (.float text) (.prim .f64)
  | string (text : String) : Fits (.string text) .string

/-- The values of a type that are built with a constructor have fields of these types. -/
inductive Registries.Builds (r : Registries) : Ty → Constructor → List Ty → Prop
  | literal {t : Ty} {key : LiteralKey} : key.Fits t → Builds r t (.literal key) []
  | tuple (items : List Ty) : Builds r (.tuple items) (.tuple items.length) items
  | variant {type name : String} {d : SumType} {v : Variant} (args : List Ty) :
      r.types.get? type = some d → d.variant? name = some v →
      Builds r (.named type args) (.variant type name v.fields.length) (d.fieldsAt v args)

/-- Whether no value of a type has a constructor: functions, references, and types that are known
by name only. -/
def Registries.isSealed (r : Registries) : Ty → Bool
  | .fn .. | .ref .. => true
  | .named name _ => (r.types.get? name).isNone
  | _ => false

/-- The values of a type. A variable, and the type of a failed expression, may stand for every
type. -/
inductive Registries.HasType (r : Registries) : Value → Ty → Prop
  | built {t : Ty} {c : Constructor} {types : List Ty} {parts : List Value} :
      r.Builds t c types → List.Forall₂ (HasType r) parts types → HasType r (c.build parts) t
  | sealed {t : Ty} : r.isSealed t = true → HasType r .sealed t
  | var (value : Value) (v : TyVar) : HasType r value (.var v)
  | error (value : Value) : HasType r value .error

/-! ## Subjects -/

/-- How a value is reached from the one it is found in. -/
inductive Access where
  | field (index : Nat)
  | active (pattern : String)
  deriving DecidableEq, Repr

/-- A value, and what each active pattern gives on each value found in it. The accesses lead from
the outermost value to the one that the pattern is applied to. -/
structure Subject where
  value : Value
  results : List Access → String → Value

namespace Subject

/-- The fields of a value as subjects of their own. -/
def fields (s : Subject) : List Subject :=
  s.value.parts.mapIdx (fun i v => ⟨v, fun path => s.results (.field i :: path)⟩)

/-- What an active pattern gives on a value, as a subject of its own. -/
def applied (s : Subject) (pattern : String) : Subject :=
  ⟨s.results [] pattern, fun path => s.results (.active pattern :: path)⟩

/-- Whether two subjects differ at most in what one active pattern gives on the outermost value. -/
structure SameBut (pattern : String) (s t : Subject) : Prop where
  value : s.value = t.value
  fields : s.fields = t.fields
  applied : ∀ p, p ≠ pattern → s.applied p = t.applied p

/-- The value at an occurrence, if there is one. -/
def at? (s : Subject) : Occurrence → Option Subject
  | .root => some s
  | .field parent index => (s.at? parent).bind (fun t => t.fields[index]?)
  | .active parent pattern => (s.at? parent).map (fun t => t.applied pattern)

/-- Whether a subject has a type: its value does, and every active pattern of the module gives
values of its result type. -/
structure Fits (r : Registries) (s : Subject) (t : Ty) : Prop where
  value : r.HasType s.value t
  results : ∀ path pattern, (r.active.get? pattern).isSome →
    r.HasType (s.results path pattern) (.named pattern [])

end Subject

/-! ## Patterns -/

namespace TPattern

/-- Whether a pattern is well-formed for the values of a type: constructors belong to the type and
have the registered number of arguments, and the arguments are well-formed for the fields. A case of
an active pattern is well-formed for every type. -/
inductive Fits (r : Registries) : TPattern → Ty → Prop
  | wild (span : Span) (own t : Ty) : Fits r (.wild span own) t
  | bind (span : Span) (own : Ty) (name : String) (mode : Option Mode) (t : Ty) :
      Fits r (.bind span own name mode) t
  | lit (span : Span) (own : Ty) {value : Literal} {t : Ty} :
      r.Builds t (.literal value.key) [] → Fits r (.lit span own value) t
  | tuple (span : Span) (own : Ty) {items : List TPattern} {t : Ty} {types : List Ty} :
      r.Builds t (.tuple items.length) types → List.Forall₂ (Fits r) items types →
      Fits r (.tuple span own items) t
  | variant (span : Span) (own : Ty) {type name : String} {args : List TPattern} {t : Ty}
      {types : List Ty} :
      r.Builds t (.variant type name args.length) types → List.Forall₂ (Fits r) args types →
      Fits r (.variant span own type name args) t
  | active (span : Span) (own : Ty) {pattern case : String} {args : List TPattern}
      {types : List Ty} (t : Ty) :
      (r.active.get? pattern).isSome →
      r.Builds (.named pattern []) (.variant pattern case args.length) types →
      List.Forall₂ (Fits r) args types →
      Fits r (.active span own pattern case args) t

mutual

/-- Whether a pattern accepts a subject. A case of an active pattern is tested on what the pattern
gives. -/
def accepts (s : Subject) : TPattern → Bool
  | wild .. | bind .. => true
  | lit _ _ value => decide (s.value.constructor? = some (.literal value.key))
  | tuple _ _ items =>
    decide (s.value.constructor? = some (.tuple items.length)) && acceptsAll s.fields items
  | variant _ _ type name args =>
    decide (s.value.constructor? = some (.variant type name args.length)) &&
      acceptsAll s.fields args
  | active _ _ pattern case args =>
    decide ((s.applied pattern).value.constructor? = some (.variant pattern case args.length)) &&
      acceptsAll (s.applied pattern).fields args

/-- Whether patterns accept subjects one by one, with none left over. -/
def acceptsAll : List Subject → List TPattern → Bool
  | s :: ss, p :: ps => p.accepts s && acceptsAll ss ps
  | [], [] => true
  | _, _ => false

end

mutual

/-- The names a pattern binds, with where their values are found, for values at an occurrence. -/
def places (o : Occurrence) : TPattern → Bindings
  | wild .. | lit .. => []
  | bind _ _ name _ => [(name, o)]
  | tuple _ _ items => placesFrom o 0 items
  | variant _ _ _ _ args => placesFrom o 0 args
  | active _ _ pattern _ args => placesFrom (.active o pattern) 0 args

/-- The names bound by the patterns for the fields of a value, from a field on. -/
def placesFrom (o : Occurrence) (index : Nat) : List TPattern → Bindings
  | [] => []
  | p :: ps => p.places (.field o index) ++ placesFrom o (index + 1) ps

end

end TPattern

/-! ## Arms -/

/-- Whether an arm would be selected by itself: its pattern accepts the subject, and its guard holds
if it has one. -/
def Selects (arms : List (TPattern × Bool)) (s : Subject) (holds : Nat → Bool) (i : Nat) : Prop :=
  ∃ p guarded, arms[i]? = some (p, guarded) ∧ p.accepts s = true ∧
    (guarded = true → holds i = true)

/-- Whether an arm is the first in source order to be selected. -/
def SelectsFirst (arms : List (TPattern × Bool)) (s : Subject) (holds : Nat → Bool) (i : Nat) :
    Prop :=
  Selects arms s holds i ∧ ∀ j < i, ¬ Selects arms s holds j

/-! ## Trees -/

/-- How evaluating a decision tree ends. -/
inductive Outcome where
  | selected (arm : Nat) (bindings : Bindings)
  | failed
  /-- There is no value at an occurrence, or a switch has no branch for it. -/
  | stuck
  deriving DecidableEq, Repr, Inhabited

namespace DecisionTree

mutual

/-- Evaluate a tree on a subject, given which guards hold. -/
def run (s : Subject) (holds : Nat → Bool) : DecisionTree → Outcome
  | leaf arm bindings => .selected arm bindings
  | guard arm bindings otherwise =>
    if holds arm then .selected arm bindings else otherwise.run s holds
  | switch o cases (some fallback) =>
    match s.at? o with
    | some found =>
      (runCases s holds found.value.constructor? cases).getD (fallback.run s holds)
    | none => .stuck
  | switch o cases none =>
    match s.at? o with
    | some found => (runCases s holds found.value.constructor? cases).getD .stuck
    | none => .stuck
  | fail => .failed

/-- Evaluate the case for a constructor, if there is one. -/
def runCases (s : Subject) (holds : Nat → Bool) (head : Option Constructor) :
    List (Constructor × DecisionTree) → Option Outcome
  | [] => none
  | (c, t) :: rest =>
    if head = some c then some (t.run s holds) else runCases s holds head rest

end

end DecisionTree

end RowCheck
