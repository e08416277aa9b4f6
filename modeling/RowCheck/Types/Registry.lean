import RowCheck.Types.Ty

/-!
The definitions a module declares: sum types by name and by constructor, active patterns by name
and by case. A constructor or a case belongs to the first definition that declares it.
-/
namespace RowCheck

/-- The case of a partial active pattern for values it does not classify. No arm names it. -/
def noMatch : String := "NoMatch"

structure Variant where
  name : String
  fields : List Ty
  deriving DecidableEq, Repr, Inhabited

/-- A sum type. The types of its fields mention its parameters. -/
structure SumType where
  name : String
  params : List TyVar
  variants : List Variant
  deriving DecidableEq, Repr, Inhabited

namespace SumType

def variant? (d : SumType) (name : String) : Option Variant :=
  d.variants.find? (fun v => v.name = name)

/-- What the parameters of a sum type stand for at given arguments. -/
def instantiation (d : SumType) (args : List Ty) : SortedMap TyVar Ty :=
  .ofList (d.params.zip args)

/-- The field types of a variant at given arguments. -/
def fieldsAt (d : SumType) (v : Variant) (args : List Ty) : List Ty :=
  v.fields.map (Ty.replace (d.instantiation args))

end SumType

/-- An active pattern. It classifies values into a sum type of the same name, whose variants are its
cases, and `noMatch` when it is not total. -/
structure ActivePattern where
  name : String
  cases : List String
  total : Bool
  deriving DecidableEq, Repr, Inhabited

def ActivePattern.resultType (p : ActivePattern) : String := p.name

/-- Sum types by name, and the names of the types that own each constructor. -/
structure TypeRegistry where
  types : SortedMap String SumType
  owners : SortedMap String String
  deriving Inhabited

namespace TypeRegistry

def empty : TypeRegistry := ⟨∅, ∅⟩

/-- Add a definition, replacing one of the same name. A constructor that has an owner keeps it, and
`noMatch` has none. -/
def insert (r : TypeRegistry) (d : SumType) : TypeRegistry where
  types := r.types.insert d.name d
  owners := d.variants.foldl
    (fun owners v => if v.name = noMatch then owners else owners.insertNew v.name d.name) r.owners

def get? (r : TypeRegistry) (name : String) : Option SumType := r.types.get? name

def contains (r : TypeRegistry) (name : String) : Bool := (r.get? name).isSome

/-- The type that owns a constructor, and the constructor's variant. -/
def constructor? (r : TypeRegistry) (name : String) : Option (SumType × Variant) := do
  let owner ← r.owners.get? name
  let d ← r.types.get? owner
  let v ← d.variant? name
  return (d, v)

/-- All definitions, by name. -/
def toList (r : TypeRegistry) : List SumType := r.types.values

end TypeRegistry

/-- Active patterns by name, and the names of the patterns that own each case. -/
structure ActiveRegistry where
  patterns : SortedMap String ActivePattern
  owners : SortedMap String String
  deriving Inhabited

namespace ActiveRegistry

def empty : ActiveRegistry := ⟨∅, ∅⟩

/-- Add a definition, replacing one of the same name. A case that has an owner keeps it. -/
def insert (r : ActiveRegistry) (p : ActivePattern) : ActiveRegistry where
  patterns := r.patterns.insert p.name p
  owners := p.cases.foldl (fun owners c => owners.insertNew c p.name) r.owners

def get? (r : ActiveRegistry) (name : String) : Option ActivePattern := r.patterns.get? name

/-- The pattern that owns a case. -/
def ofCase? (r : ActiveRegistry) (case : String) : Option ActivePattern := do
  let owner ← r.owners.get? case
  r.patterns.get? owner

/-- All definitions, by name. -/
def toList (r : ActiveRegistry) : List ActivePattern := r.patterns.values

end ActiveRegistry

/-- All that is known of a module before any body is checked. -/
structure Registries where
  types : TypeRegistry
  active : ActiveRegistry
  deriving Inhabited

def Registries.empty : Registries := ⟨.empty, .empty⟩

end RowCheck
