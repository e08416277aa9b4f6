import RowCheck.Dependency.Components
import RowCheck.Infer.Definitions
import RowCheck.Infer.Group
import RowCheck.Match.Check
import RowCheck.Ownership.Check

/-!
Checking a module. Its definitions are collected first; then the groups of declarations that
depend on each other are checked level by level, each against the schemes of the levels before. A
group without faults goes on to the checks of ownership and of matches.
-/
namespace RowCheck

/-- How a module is checked. Whether groups are checked side by side, and on how many threads,
makes no difference to the outcome. -/
structure CheckConfig where
  parallel : Bool
  threads : Option Nat
  traceInference : Bool
  denyWarnings : Bool
  deriving DecidableEq, Repr, Inhabited

/-- A value in a written configuration. -/
inductive ConfigValue where
  | null
  | bool (value : Bool)
  | natural (value : Nat)
  | other
  deriving DecidableEq, Repr, Inhabited

namespace CheckConfig

def default : CheckConfig := ⟨true, none, false, false⟩

/-- The names of the fields in order. -/
def fieldNames : List String := ["parallel", "threads", "trace_inference", "deny_warnings"]

/-- Set one field. Fields with unknown names are passed over. -/
def setField (c : CheckConfig) (name : String) (v : ConfigValue) : Option CheckConfig :=
  if name ∈ fieldNames then
    match name, v with
    | "parallel", .bool b => some { c with parallel := b }
    | "threads", .null => some { c with threads := none }
    | "threads", .natural n => if n < UInt64.size then some { c with threads := some n } else none
    | "trace_inference", .bool b => some { c with traceInference := b }
    | "deny_warnings", .bool b => some { c with denyWarnings := b }
    | _, _ => none
  else some c

/-- A configuration written as named fields. Fields that are missing have their defaults. -/
def ofFields? (fields : List (String × ConfigValue)) : Option CheckConfig :=
  fields.foldlM (fun c f => c.setField f.1 f.2) default

/-- A configuration written as a list of values, in the order of the fields. -/
def ofValues? (values : List ConfigValue) : Option CheckConfig :=
  if values.length ≤ fieldNames.length then ofFields? (fieldNames.zip values) else none

end CheckConfig

/-- A checked declaration. A type has no scheme. -/
structure CheckedDecl where
  name : String
  decl : TDecl
  scheme : Option Scheme
  deriving Inhabited

/-- The decision trees of a declaration. -/
def CheckedDecl.trees (d : CheckedDecl) : List DecisionTree :=
  match d.decl.function? with
  | some f => f.body.trees
  | none => []

/-- What checking a module yields: its declarations in source order, the schemes of its values, the
faults, and a trace for each group if steps are recorded. -/
structure CheckOutput where
  declarations : List CheckedDecl
  schemes : SortedMap String Scheme
  diagnostics : List Diagnostic
  traces : List GroupTrace
  deriving Inhabited

namespace CheckOutput

def hasErrors (o : CheckOutput) : Bool := o.diagnostics.any (·.isError)

def declaration? (o : CheckOutput) (name : String) : Option CheckedDecl :=
  o.declarations.find? (fun d => d.name = name)

/-- The outcome as a result: all diagnostics if one is an error. -/
def toExcept (o : CheckOutput) : Except (List Diagnostic) CheckOutput :=
  if o.hasErrors then .error o.diagnostics else .ok o

end CheckOutput

/-- Check the ownership and the matches of a typed declaration. -/
def TDecl.analyze (r : Registries) (d : TDecl) : TDecl × List Diagnostic :=
  let (d, ownership) := d.checkOwnership
  let (d, uncovered) := d.compileMatches r
  (d, ownership ++ uncovered)

/-- What one group contributes. Its declarations come with their indices in the module. -/
structure GroupOutput where
  first : Nat
  declarations : List (Nat × CheckedDecl)
  schemes : List (String × Scheme)
  diagnostics : List Diagnostic
  trace : Option GroupTrace
  deriving Inhabited

namespace Module

/-- Check one group, given by the indices of its declarations. A group that fails inference goes no
further. -/
def checkGroup (m : Module) (r : Registries) (config : CheckConfig) (env : TypeEnv)
    (group : List Nat) : GroupOutput :=
  let result := RowCheck.checkGroup r env config.traceInference
    (group.filterMap (fun index => m[index]?))
  let analyzed :=
    if result.hasErrors then result.decls.map (fun d => (d, [])) else result.decls.map (·.analyze r)
  let diagnostics := result.diagnostics ++ analyzed.flatMap (·.2)
  let schemes := SortedMap.ofList result.schemes
  { first := group.headD 0
    declarations := (group.zip analyzed).map (fun d =>
      (d.1, ⟨d.2.1.name, d.2.1, schemes.get? d.2.1.name⟩))
    schemes := result.schemes
    diagnostics :=
      if config.denyWarnings then diagnostics.map Diagnostic.deny else diagnostics
    trace := result.trace }

/-- Check the groups level by level. The groups of a level see the schemes of the levels before, and
nothing of each other. -/
def checkLevels (m : Module) (r : Registries) (config : CheckConfig) :
    List (List (List Nat)) → SortedMap String Scheme → List GroupOutput
  | [], _ => []
  | level :: levels, globals =>
    let outputs := level.map (checkGroup m r config (.ofGlobals globals))
    let globals := (outputs.flatMap (·.schemes)).foldl (fun g s => g.insert s.1 s.2) globals
    outputs ++ checkLevels m r config levels globals

/-- The types of a module: the first declaration of each name, if a type of that name is defined. -/
def typeDeclarations (m : Module) (r : Registries) (seen : List String) :
    List (Decl × Nat) → List (Nat × CheckedDecl)
  | [] => []
  | (.type d, index) :: rest =>
    if d.name.text ∈ seen then typeDeclarations m r seen rest
    else
      match r.types.get? d.name.text with
      | some t =>
        (index, ⟨t.name, .type t, none⟩) ::
          typeDeclarations m r (d.name.text :: seen) rest
      | none => typeDeclarations m r (d.name.text :: seen) rest
  | (_, _) :: rest => typeDeclarations m r seen rest

/-- Check a module, given the schemes of the names it may use from outside. -/
def check (m : Module) (ambient : SortedMap String Scheme) (config : CheckConfig) : CheckOutput :=
  let (r, faults) := m.registries
  let levels := (DependencyGraph.ofModule m r.active).levels
  let groups := (checkLevels m r config levels ambient).mergeSort (fun a b => a.first ≤ b.first)
  let declarations := typeDeclarations m r [] m.zipIdx ++ groups.flatMap (·.declarations)
  { declarations := (declarations.mergeSort (fun a b => a.1 ≤ b.1)).map (·.2)
    schemes := .ofList (groups.flatMap (·.schemes))
    diagnostics := faults ++ groups.flatMap (·.diagnostics)
    traces := groups.filterMap (·.trace) }

end Module

end RowCheck
