import Mathlib.Data.Finset.Card
import Mathlib.Data.Finset.Filter
import Mathlib.Logic.Relation
import Mathlib.Order.Interval.Finset.Nat

/-!
Relations on numbers without cycles: following edges ends after as many of them as there are numbers
with an edge.
-/
namespace RowCheck

open Relation

/-- Whether no number is reached from itself. -/
def Loopless (E : Nat → Nat → Prop) : Prop := ∀ v, ¬ TransGen E v v

namespace Loopless

variable {E E' : Nat → Nat → Prop}

/-- The number of numbers that can be reached goes down along every edge. -/
theorem exists_rank (h : Loopless E) {n : Nat} (hn : ∀ v w, E v w → v < n) :
    ∃ rank : Nat → Nat, (∀ v w, E v w → rank w < rank v) ∧ ∀ v, rank v ≤ n := by
  classical
  refine ⟨fun v => ((Finset.range n).filter (ReflTransGen E v)).card, fun v w hvw => ?_, fun v => ?_⟩
  · refine Finset.card_lt_card ⟨fun x hx => ?_, fun hsub => ?_⟩
    · obtain ⟨hlt, hx⟩ := Finset.mem_filter.1 hx
      exact Finset.mem_filter.2 ⟨hlt, .head hvw hx⟩
    · have hv : v ∈ (Finset.range n).filter (ReflTransGen E v) :=
        Finset.mem_filter.2 ⟨Finset.mem_range.2 (hn v w hvw), .refl⟩
      exact h v (.head' hvw (Finset.mem_filter.1 (hsub hv)).2)
  · exact (Finset.card_filter_le _ _).trans (Finset.card_range n).le

/-- Facts may be proved from the numbers behind the edges. -/
theorem induction (h : Loopless E) {n : Nat} (hn : ∀ v w, E v w → v < n) {P : Nat → Prop}
    (step : ∀ v, (∀ w, E v w → P w) → P v) (v : Nat) : P v := by
  obtain ⟨rank, hrank, -⟩ := h.exists_rank hn
  induction hv : rank v using Nat.strong_induction_on generalizing v with
  | _ k ih => exact step v fun w hw => ih _ (hv ▸ hrank v w hw) w rfl

/-- Edges that all lead to larger numbers make no cycle. -/
theorem of_lt (h : ∀ v w, E v w → v < w) : Loopless E := by
  have along : ∀ {v w}, TransGen E v w → v < w := by
    intro v w hvw
    induction hvw with
    | single hw => exact h _ _ hw
    | tail _ hw ih => exact ih.trans (h _ _ hw)
  exact fun v hv => Nat.lt_irrefl v (along hv)

/-- Shortcuts make no cycle. -/
theorem of_shortcuts (h : Loopless E) (hE : ∀ v w, E' v w → TransGen E v w) : Loopless E' := by
  have along : ∀ {v w}, TransGen E' v w → TransGen E v w := by
    intro v w hvw
    induction hvw with
    | single hw => exact hE _ _ hw
    | tail _ hw ih => exact ih.trans (hE _ _ hw)
  exact fun v hv => h v (along hv)

/-- New edges from a number make no cycle if none of them leads back to it. -/
theorem link (h : Loopless E) {v : Nat} (hE : ∀ x y, E' x y → x ≠ v → E x y)
    (hnew : ∀ w, E' v w → ¬ ReflTransGen E w v) : Loopless E' := by
  -- on a way to `v` that ends there for the first time, all edges are old
  have old : ∀ {x}, ReflTransGen E' x v → ReflTransGen E x v := by
    intro x hx
    induction hx using ReflTransGen.head_induction_on with
    | refl => exact .refl
    | @head x y hxy _ ih =>
      by_cases hxv : x = v
      · exact hxv ▸ .refl
      · exact .head (hE x y hxy hxv) ih
  have through : ∀ {x y}, TransGen E' x y →
      TransGen E x y ∨ ReflTransGen E' x v ∧ TransGen E' v y := by
    intro x y hxy
    induction hxy with
    | @single y hxy =>
      by_cases hxv : x = v
      · exact .inr ⟨hxv ▸ .refl, hxv ▸ .single hxy⟩
      · exact .inl (.single (hE x y hxy hxv))
    | @tail y z hxy hyz ih =>
      rcases ih with ih | ⟨hxv, hvy⟩
      · by_cases hyv : y = v
        · exact .inr ⟨hyv ▸ hxy.to_reflTransGen, hyv ▸ .single hyz⟩
        · exact .inl (ih.tail (hE y z hyz hyv))
      · exact .inr ⟨hxv, hvy.tail hyz⟩
  intro x hx
  rcases through hx with hx | ⟨hxv, hvx⟩
  · exact h x hx
  · obtain ⟨w, hvw, hwx⟩ := TransGen.head'_iff.1 hvx
    exact hnew w hvw (old (hwx.trans hxv))

end Loopless

end RowCheck
