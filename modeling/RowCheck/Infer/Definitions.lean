import RowCheck.Infer.Resolve
import RowCheck.Source.Identifier

/-!
The definitions of a module, collected before any body is checked, so that bodies can use
constructors and cases declared anywhere. Faulty names, names declared twice and malformed active
patterns are reported; what is at fault is skipped, and collecting goes on.
-/
namespace RowCheck

/-- A type or an active pattern to be defined, with those of its variants or cases whose names are
free. -/
inductive Definition where
  | sum (name : String) (params : List String) (variants : List VariantDecl)
  | active (name : String) (total : Bool) (cases : List VariantDecl)
  deriving Inhabited

/-- The names declared so far, with where each is declared first, and the faults found.
Constructors and cases of active patterns share one namespace. -/
structure Claims where
  values : SortedMap String Span
  types : SortedMap String Span
  constructors : SortedMap String Span
  faults : List Diagnostic
  deriving Inhabited

namespace Claims

def empty : Claims := ⟨∅, ∅, ∅, []⟩

def report (d : Diagnostic) : StateM Claims Unit :=
  modify (fun c => { c with faults := c.faults ++ [d] })

def checkName (name : Name) : StateM Claims Unit :=
  match identifierError? name.text with
  | none => pure ()
  | some e =>
    report (.error .invalidIdentifier s!"invalid identifier `{name.text}`: {e.message}" name.span)

def reportDuplicate (what : String) (name : Name) (first : Span) : StateM Claims Unit :=
  report ((Diagnostic.error .duplicateDefinition
    s!"the {what} `{name.text}` is defined more than once" name.span).withLabel
    first "first defined here")

/-- Claim a name among values. The answer is whether it was free. -/
def claimValue (name : Name) : StateM Claims Bool := do
  let c ← get
  match c.values.get? name.text with
  | some first =>
    reportDuplicate "value" name first
    return false
  | none =>
    set { c with values := c.values.insert name.text name.span }
    return true

/-- Claim a name among types. The answer is whether it was free. -/
def claimType (name : Name) : StateM Claims Bool := do
  let c ← get
  match c.types.get? name.text with
  | some first =>
    reportDuplicate "type" name first
    return false
  | none =>
    set { c with types := c.types.insert name.text name.span }
    return true

/-- Claim the name of a variant or of a case. The answer is whether it may be declared. -/
def claimConstructor (name : Name) : StateM Claims Bool := do
  checkName name
  if name.text = noMatch then
    report (.error .invalidIdentifier
      s!"`{noMatch}` is reserved for partial active patterns" name.span)
    return false
  let c ← get
  match c.constructors.get? name.text with
  | some first =>
    reportDuplicate "constructor" name first
    return false
  | none =>
    set { c with constructors := c.constructors.insert name.text name.span }
    return true

/-- The variants whose names are free. -/
def usableVariants : List VariantDecl → StateM Claims (List VariantDecl)
  | [] => return []
  | v :: vs => do
    let free ← claimConstructor v.name
    let rest ← usableVariants vs
    return if free then v :: rest else rest

/-- The cases of an active pattern that may be declared, given the cases seen before and where. -/
def usableCases (pattern : Name) (seen : SortedMap String Span) :
    List VariantDecl → StateM Claims (List VariantDecl)
  | [] => return []
  | c :: cs => do
    if c.name.text = noMatch then
      report ((Diagnostic.error .invalidActivePattern
        s!"active pattern `{pattern.text}` cannot declare a case named `{noMatch}`"
        c.name.span).withHelp "declare the pattern as partial instead")
      usableCases pattern seen cs
    else
      match seen.get? c.name.text with
      | some first =>
        report ((Diagnostic.error .invalidActivePattern
          s!"active pattern `{pattern.text}` declares case `{c.name.text}` twice"
          c.name.span).withLabel first "first declared here")
        usableCases pattern seen cs
      | none =>
        let free ← claimConstructor c.name
        let rest ← usableCases pattern (seen.insert c.name.text c.name.span) cs
        return if free then c :: rest else rest

/-- Claim the names of all declarations. The answer is the declarations that define a type under a
name of their own. -/
def claimAll : List Decl → StateM Claims (List Decl)
  | [] => return []
  | .fn d :: ds => do
    checkName d.name
    let _ ← claimValue d.name
    claimAll ds
  | .type d :: ds => do
    checkName d.name
    for p in d.params do
      checkName p
    let free ← claimType d.name
    let rest ← claimAll ds
    return if free then .type d :: rest else rest
  | .active d :: ds => do
    checkName d.name
    let _ ← claimValue d.name
    let free ← claimType d.name
    let rest ← claimAll ds
    return if free then .active d :: rest else rest

/-- What is to be defined for the declarations that own their names. An active pattern without
usable cases is skipped. -/
def usableDefinitions : List Decl → StateM Claims (List Definition)
  | [] => return []
  | .fn _ :: ds => usableDefinitions ds
  | .type d :: ds => do
    let variants ← usableVariants d.variants
    return .sum d.name.text (d.params.map (·.text)) variants :: (← usableDefinitions ds)
  | .active d :: ds => do
    let cases ← if d.cases.isEmpty then do
        report (.error .invalidActivePattern
          s!"active pattern `{d.name.text}` declares no cases" d.name.span)
        pure []
      else usableCases d.name ∅ d.cases
    let rest ← usableDefinitions ds
    return if cases.isEmpty then rest else .active d.name.text d.total cases :: rest

end Claims

/-- The name and the number of parameters of the type that a declaration defines. This is all that
written types need to know of it. -/
def TypeRegistry.outline (r : TypeRegistry) : Decl → TypeRegistry
  | .fn _ => r
  | .type d => r.insert ⟨d.name.text, List.range d.params.length, []⟩
  | .active d => r.insert ⟨d.name.text, [], []⟩

/-- Variants with their fields resolved, within the parameters of their type. -/
def VariantDecl.resolveAll (types : TypeRegistry) (params : List (String × Ty)) :
    List VariantDecl → UnifyM (List Variant)
  | [] => return []
  | v :: vs => do
    let fields ← (TypeExpr.resolveList types v.fields).run' (.ofParams params)
    return ⟨v.name.text, fields⟩ :: (← VariantDecl.resolveAll types params vs)

/-- Define types and active patterns in order. The parameters of a type are its first variables. -/
def Registries.define (outlines : TypeRegistry) :
    List Definition → Registries → UnifyM Registries
  | [], r => return r
  | .sum name params variants :: ds, r => do
    let variants ← VariantDecl.resolveAll outlines
      (params.zipIdx.map (fun p => (p.1, Ty.var p.2))) variants
    let types := r.types.insert ⟨name, List.range params.length, variants⟩
    Registries.define outlines ds { r with types }
  | .active name total cases :: ds, r => do
    let variants ← VariantDecl.resolveAll outlines [] cases
    let variants := if total then variants else variants ++ [⟨noMatch, []⟩]
    let types := r.types.insert ⟨name, [], variants⟩
    let active := r.active.insert ⟨name, cases.map (·.name.text), total⟩
    Registries.define outlines ds { types, active }

/-- The types and active patterns of a module, and the faults of their declarations: first those of
names, then those of written types. -/
def Module.registries (m : Module) : Registries × List Diagnostic :=
  let (owners, claims) := (Claims.claimAll m).run .empty
  let (definitions, claims) := (Claims.usableDefinitions owners).run claims
  let outlines := owners.foldl TypeRegistry.outline .empty
  let (registries, u) := (Registries.define outlines definitions .empty).run .empty
  (registries, claims.faults ++ u.errors)

end RowCheck
