import RowCheck.Match.Decision
import RowCheck.Types.Registry

/-!
The constructors that the values of a type are built with, and the types of their fields.
-/
namespace RowCheck
namespace Registries

/-- Every constructor of a type in the order of its declaration, if there are finitely many. -/
def signature? (r : Registries) : Ty → Option (List Constructor)
  | .prim .bool => some [.literal (.bool true), .literal (.bool false)]
  | .unit => some [.literal .unit]
  | .tuple items => some [.tuple items.length]
  | .named name _ =>
    (r.types.get? name).map (fun d =>
      d.variants.map (fun v => .variant d.name v.name v.fields.length))
  | _ => none

/-- The types of the fields that a constructor gives access to on a value of type `t`. Where the
two do not fit, the fields have the type of a failed expression. -/
def fieldTypes (r : Registries) (t : Ty) : Constructor → List Ty
  | .literal _ => []
  | .tuple n =>
    match t with
    | .tuple items => if items.length = n then items else List.replicate n .error
    | _ => List.replicate n .error
  | .variant type name n =>
    match r.types.get? type with
    | none => List.replicate n .error
    | some d =>
      match d.variant? name with
      | none => List.replicate n .error
      | some v =>
        match t with
        | .named other args =>
          if other = type then d.fieldsAt v args
          else d.fieldsAt v (List.replicate d.params.length .error)
        | _ => d.fieldsAt v (List.replicate d.params.length .error)

end Registries
end RowCheck
