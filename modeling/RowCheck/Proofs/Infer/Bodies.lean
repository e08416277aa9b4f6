import RowCheck.Infer.Definitions

/-!
The definitions of a module do not depend on the bodies of its declarations: what is collected before
any body is checked, faults included, is the same when bodies are exchanged.
-/
namespace RowCheck

/-- A declaration with another body. The definition of a type has none. -/
def Decl.withBody (body : Expr) : Decl → Decl
  | .fn d => .fn { d with body }
  | .active d => .active { d with body }
  | .type d => .type d

/-- A module with another body for the declaration at an index. -/
def Module.withBody (m : Module) (index : Nat) (body : Expr) : Module :=
  m.modify index (Decl.withBody body)

namespace Decl

variable (body : Expr) (d : Decl)

@[simp] theorem withBody_withBody (other : Expr) :
    (d.withBody other).withBody body = d.withBody body := by
  cases d <;> rfl

@[simp] theorem valueName?_withBody : (d.withBody body).valueName? = d.valueName? := by
  cases d <;> rfl

end Decl

variable (body : Expr)

theorem Claims.claimAll_map_withBody (ds : List Decl) (c : Claims) :
    claimAll (ds.map (Decl.withBody body)) c =
      ((claimAll ds c).1.map (Decl.withBody body), (claimAll ds c).2) := by
  induction ds generalizing c with
  | nil => rfl
  | cons d ds ih =>
    have hrest : ∀ (free : Bool) (c : Claims), (do
          let rest ← claimAll (ds.map (Decl.withBody body))
          return if free then d.withBody body :: rest else rest : StateM Claims (List Decl)) c =
        ((if free then d :: (claimAll ds c).1 else (claimAll ds c).1).map (Decl.withBody body),
          (claimAll ds c).2) := by
      intro free c
      simp only [bind, StateT.bind, ih]
      cases free <;> rfl
    cases d with
    | fn d => exact ih _
    | type d | active d => exact hrest _ _

theorem Claims.usableDefinitions_map_withBody (ds : List Decl) :
    usableDefinitions (ds.map (Decl.withBody body)) = usableDefinitions ds := by
  induction ds with
  | nil => rfl
  | cons d ds ih =>
    cases d with
    | fn d => exact ih
    | type d | active d => simp only [List.map_cons, Decl.withBody, usableDefinitions, ih]

theorem TypeRegistry.foldl_outline_map_withBody (ds : List Decl) (r : TypeRegistry) :
    (ds.map (Decl.withBody body)).foldl outline r = ds.foldl outline r := by
  rw [List.foldl_map]
  congr 1
  funext r d
  cases d <;> rfl

namespace Module

theorem registries_map_withBody (m : Module) :
    Module.registries (m.map (Decl.withBody body)) = m.registries := by
  unfold registries
  simp only [StateT.run, Claims.claimAll_map_withBody, Claims.usableDefinitions_map_withBody,
    TypeRegistry.foldl_outline_map_withBody]
  rfl

/-- A module defines the same whatever the body of one of its declarations. -/
theorem registries_withBody (m : Module) (index : Nat) :
    (m.withBody index body).registries = m.registries := by
  have hmap : (m.withBody index body).map (Decl.withBody body) = m.map (Decl.withBody body) := by
    refine List.ext_getElem? fun i => ?_
    rw [withBody, List.getElem?_map, List.getElem?_map, List.getElem?_modify,
      Option.map_eq_map, Option.map_map]
    congr 1
    funext d
    by_cases h : index = i <;> simp [h]
  rw [← registries_map_withBody body, hmap, registries_map_withBody]

end Module
end RowCheck
