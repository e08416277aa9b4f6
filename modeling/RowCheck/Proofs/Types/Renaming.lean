import Mathlib.Data.List.Basic
import RowCheck.Proofs.Types.Ty

/-!
Types with their type variables and row variables renamed.
-/
namespace RowCheck

/-- A row with its tail renamed. -/
def Row.renamed (g : RowVar → RowVar) (r : Row) : Row := { r with tail := r.tail.map g }

theorem Row.renamed_eq_self {g : RowVar → RowVar} {r : Row} (hg : ∀ v, r.tail = some v → g v = v) :
    r.renamed g = r := by
  rw [renamed, Option.map_congr hg]
  simp

@[simp] theorem Row.renamed_id (r : Row) : r.renamed id = r := renamed_eq_self fun _ _ => rfl

namespace Ty

/-- A type with its variables renamed. -/
def renamed (f : TyVar → TyVar) (g : RowVar → RowVar) (t : Ty) : Ty :=
  t.mapVars (fun v => .var (f v)) (Row.renamed g)

variable {f f' : TyVar → TyVar} {g g' : RowVar → RowVar}

@[simp] theorem vars_renamed (t : Ty) : (t.renamed f g).vars = t.vars.map f := by
  induction t using Ty.induction with
  | fn p r e hp hr => simpa [renamed, mapVars, vars] using congr_arg₂ (· ++ ·) hp hr
  | tuple items ih | named _ items ih =>
    simp only [renamed, mapVars, mapVarsList_eq_map, vars, varsList_eq, List.flatMap_map,
      List.map_flatMap]
    exact List.flatMap_congr ih
  | ref _ inner ih => exact ih
  | _ => rfl

theorem mem_effects_renamed {t : Ty} {e : Row} :
    e ∈ (t.renamed f g).effects ↔ ∃ d ∈ t.effects, e = d.renamed g := by
  rw [renamed, mem_effects_mapVars]
  simp [effects]

theorem mem_rows_renamed {t : Ty} {w : RowVar} :
    w ∈ (t.renamed f g).rows ↔ ∃ v ∈ t.rows, w = g v := by
  simp only [mem_rows, mem_effects_renamed]
  constructor
  · rintro ⟨_, ⟨d, hd, rfl⟩, hw⟩
    obtain ⟨v, hv, rfl⟩ := Option.map_eq_some_iff.1 hw
    exact ⟨v, ⟨d, hd, hv⟩, rfl⟩
  · rintro ⟨v, ⟨d, hd, hv⟩, rfl⟩
    exact ⟨_, ⟨d, hd, rfl⟩, by simp [Row.renamed, hv]⟩

theorem renamed_congr {t : Ty} (hf : ∀ v ∈ t.vars, f v = f' v) (hg : ∀ v ∈ t.rows, g v = g' v) :
    t.renamed f g = t.renamed f' g' := by
  refine mapVars_congr (fun v hv => by rw [hf v hv]) fun e he => ?_
  rw [Row.renamed, Row.renamed, Option.map_congr fun v hv => hg v (mem_rows.2 ⟨e, he, hv⟩)]

@[simp] theorem renamed_id (t : Ty) : t.renamed id id = t :=
  mapVars_eq_self (fun _ _ => rfl) fun e _ => by simp [Row.renamed]

theorem renamed_renamed (t : Ty) :
    (t.renamed f g).renamed f' g' = t.renamed (f' ∘ f) (g' ∘ g) := by
  rw [renamed, renamed, mapVars_mapVars]
  refine mapVars_congr (fun _ _ => rfl) fun e _ => ?_
  simp [Row.renamed]

theorem renamed_eq_self {t : Ty} (hf : ∀ v ∈ t.vars, f v = v) (hg : ∀ v ∈ t.rows, g v = v) :
    t.renamed f g = t :=
  (renamed_congr hf hg).trans (renamed_id t)

/-- Replacing the variables that are bound to others renames them. -/
theorem substitute_eq_renamed {types : SortedMap TyVar Ty} {rows : SortedMap RowVar RowVar} {t : Ty}
    (hf : ∀ v ∈ t.vars, (types.get? v).getD (.var v) = .var (f v))
    (hg : ∀ v ∈ t.rows, (rows.get? v).getD v = g v) : t.substitute types rows = t.renamed f g := by
  refine mapVars_congr hf fun e he => ?_
  rw [Row.renamed, Option.map_congr fun v hv => hg v (mem_rows.2 ⟨e, he, hv⟩)]

end Ty
end RowCheck
