import RowCheck.Proofs.Types.Refines

/-!
Looking up the head of a type. It binds every variable on the chain that starts there to the end of the
chain, while all other types go on to be read by way of these variables. What types and rows stand for does
not change by it.
-/
namespace RowCheck

namespace Substitution

variable {s : Substitution}

/-- Variables that are bound to what mentions later ones only make no cycle. -/
theorem acyclic_of_lt (ht : ∀ v t, s.type? v = some t → ∀ w ∈ t.vars, v < w)
    (hr : ∀ v b, s.row? v = some b → ∀ w ∈ b.tail, v < w) : s.Acyclic where
  types := .of_lt fun v _ ⟨t, hv, hw⟩ => ht v t hv _ hw
  rows := .of_lt fun v _ ⟨b, hv, hw⟩ => hr v b hv _ hw

/-- The variable that a chain starts at stands for what its end stands for. -/
theorem Chain.apply_eq {v : TyVar} {vs : List TyVar} {t : Ty} (hc : s.Chain v vs t)
    (h : s.Acyclic) : s.apply t = s.apply (.var v) := by
  induction hc with
  | unbound _ => rfl
  | stop hv _ => exact (h.apply_var hv).symm
  | next hv _ ih => exact ih.trans (h.apply_var hv).symm

/-- Binding the variables of a chain to its end changes nothing of what types stand for. Any type may be read
by way of the chain, so this rests on both substitutions having made the same equations, and not on the
chain alone. -/
theorem Chain.apply_compress_eq {v : TyVar} {vs : List TyVar} {t : Ty} (hc : s.Chain v vs t)
    (h : s.Acyclic) (u : Ty) : (s.compress vs t).apply u = s.apply u :=
  (hc.refines_compress h).apply_eq_apply h (fun _ hw => hc.type?_compress_of_unbound hw)
    (fun _ hw => (row?_compress ..).trans hw) u

/-- Looking up the head of a type gives an unbound variable or a type that is no variable, which stands for
what the type stands for. The substitution that it leaves behind has no cycle either, and every type and
every row stands for the same as before. -/
theorem find_invisible (h : s.Acyclic) (t : Ty) :
    (∀ v, (s.find t).1 = .var v → s.type? v = none) ∧
    s.apply (s.find t).1 = s.apply t ∧
    (s.find t).2.Acyclic ∧
    (∀ u, (s.find t).2.apply u = s.apply u) ∧
    ∀ r, (s.find t).2.findRow r = s.findRow r := by
  rcases find_eq h t with ⟨v, vs, rfl, hc, he⟩ | ⟨hne, he⟩
  · rw [he]
    exact ⟨fun w hw => Chain.unbound_head (hw ▸ hc), hc.apply_eq h, hc.acyclic_compress h,
      hc.apply_compress_eq h, findRow_congr (rows_compress ..)⟩
  · rw [he]
    exact ⟨fun v hv => absurd hv (hne v), rfl, h, fun _ => rfl, fun _ => rfl⟩

/-- A chain of three variables to a function with an open row, and a tuple that is read by way of two of
them. -/
def chained : Substitution where
  types := #[some (.tuple [.var 1, .ref .shared (.var 2)]), some (.var 2), some (.var 3),
    some (.fn (.var 4) .unit ⟨.ofList ["io"], some 0⟩), none]
  rows := #[some ⟨.ofList ["log"], some 1⟩, none]

/-- The chain is cut short, and the tuple stands for the same as before. -/
theorem chained_cut_short :
    chained.type? 1 = some (.var 2) ∧
    (chained.find (.var 1)).2.type? 1 = some (.fn (.var 4) .unit ⟨.ofList ["io"], some 0⟩) ∧
    chained.apply (chained.find (.var 1)).1 = chained.apply (.var 1) ∧
    (chained.find (.var 1)).2.apply (.var 0) = chained.apply (.var 0) ∧
    (chained.find (.var 1)).2.findRow (.ofVar 0) = ⟨.ofList ["log"], some 1⟩ := by
  have hac : chained.Acyclic := by
    refine acyclic_of_lt (fun v t hv => ?_) (fun v b hv => ?_)
    · have hlt : v < 5 := lt_size_of_type? hv
      have hall : ∀ v < 5, ∀ t ∈ chained.type? v, ∀ w ∈ t.vars, v < w := by decide +kernel
      exact hall v hlt t hv
    · have hlt : v < 2 := lt_size_of_row? hv
      have hall : ∀ v < 2, ∀ b ∈ chained.row? v, ∀ w ∈ b.tail, v < w := by decide +kernel
      exact hall v hlt b hv
  obtain ⟨-, hhead, -, htypes, hrows⟩ := find_invisible hac (.var 1)
  exact ⟨by decide +kernel, by decide +kernel, hhead, htypes _,
    (hrows _).trans (by decide +kernel)⟩

end Substitution

end RowCheck
