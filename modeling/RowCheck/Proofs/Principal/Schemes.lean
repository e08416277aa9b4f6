import RowCheck.Proofs.Infer.Locals
import RowCheck.Proofs.Principal.Actions

/-!
Schemes of the functional core, and the environments that hold them. A use of a scheme may have each of
its types and no other. What is assumed of names and what an environment holds are compared under an
assignment of types to the variables of the pass.
-/
namespace RowCheck

/-- Whether a scheme is one of the functional core: it has no bounds, no label occurs in it and no type
of a failed expression. -/
structure Scheme.Plain (s : Scheme) : Prop where
  numeric : s.numeric = ∅
  bare : ∀ e ∈ s.ty.effects, e.labels = ∅
  proper : s.ty.containsError = false

/-- Whether a scheme is one of the functional core without free variables. -/
structure Scheme.PlainClosed (s : Scheme) : Prop extends s.Plain where
  types : s.ClosesTypes
  rows : ∀ e ∈ s.ty.effects, ∀ v, e.tail = some v → v ∈ s.rowVars

/-- Whether the free variables of a scheme are live. -/
structure Scheme.Sits (D : TyVar → Prop) (u : Unifier) (s : Scheme) : Prop extends s.Plain where
  free : ∀ v ∈ s.ty.vars, v ∉ s.typeVars → v < u.typeCount ∧ ¬ D v
  below : s.Below u.rowCount

namespace Scheme

variable {D : TyVar → Prop} {u u' : Unifier} {s : Scheme}

theorem PlainClosed.sits (h : s.PlainClosed) (D : TyVar → Prop) (u : Unifier) : s.Sits D u :=
  ⟨h.toPlain, fun v hv hfree => absurd (h.types v hv) hfree, fun e he v hv => .inl (h.rows e he v hv)⟩

theorem sits_mono {t : Ty} : (mono t).Sits D u ↔ u.Owns D t :=
  ⟨fun h => ⟨⟨fun v hv => h.free v hv List.not_mem_nil, h.bare, h.proper⟩, below_mono_iff.1 h.below⟩,
    fun h => ⟨⟨rfl, h.live.effects, h.live.proper⟩, fun v hv _ => h.live.vars v hv,
      below_mono_iff.2 h.below⟩⟩

theorem Sits.pursues (h : s.Sits D u) (hu : Unifier.Pursues D u u') : s.Sits D u' :=
  ⟨h.toPlain, fun v hv hfree => ⟨(h.free v hv hfree).1.trans_le hu.count, (h.free v hv hfree).2⟩,
    h.below.mono hu.rows⟩

end Scheme

namespace Unifier

variable {D : TyVar → Prop} {u u' : Unifier} {f : TyVar → Ty}

/-! ## Uses -/

/-- The copies of quantified variables may be assigned any types. -/
theorem freshCopies_idles (hu : u.Tidy D) (span : Span) (vs : List TyVar) :
    Idles D u (freshCopies ∅ span vs u).2 ∧ (freshCopies ∅ span vs u).1.map (·.1) = vs ∧
      (∀ c ∈ (freshCopies ∅ span vs u).1, (freshCopies ∅ span vs u).2.Owns D c.2) ∧
      ∀ g f : TyVar → Ty, ∃ f', (∀ v < u.typeCount, f' v = f v) ∧
        ∀ c ∈ (freshCopies ∅ span vs u).1, c.2.under f' = g c.1 := by
  induction vs generalizing u with
  | nil => exact ⟨hu.idles, rfl, nofun, fun g f => ⟨f, fun _ _ => rfl, nofun⟩⟩
  | cons v vs ih =>
    obtain ⟨hfresh, hcount, h₁⟩ := freshTypeVar_idles hu
    obtain ⟨h₂, hkeys, howns, hassign⟩ := ih h₁.tidy
    have hrun : freshCopies ∅ span (v :: vs) u =
        ((v, .var u.typeCount) :: (freshCopies ∅ span vs (freshTypeVar u).2).1,
          (freshCopies ∅ span vs (freshTypeVar u).2).2) := rfl
    have hlt : u.typeCount < (freshTypeVar u).2.typeCount := by omega
    rw [hrun]
    refine ⟨h₁.trans h₂, by rw [List.map_cons, hkeys], ?_, fun g f => ?_⟩
    · rw [List.forall_mem_cons]
      refine ⟨⟨Ty.live_var.2 ⟨hlt.trans_le h₂.count, hu.not_dead⟩,
        Ty.below_of_effects_eq_nil rfl⟩, howns⟩
    · obtain ⟨f', hbelow, hcopies⟩ := hassign g (Function.update f u.typeCount (g v))
      refine ⟨f', fun w hw => ?_, ?_⟩
      · rw [hbelow w (hw.trans hlt), Function.update_of_ne hw.ne]
      · rw [List.forall_mem_cons]
        refine ⟨?_, hcopies⟩
        rw [Ty.under_var, hbelow _ hlt, Function.update_self]

theorem freshRowCopies_idles (hu : u.Tidy D) (vs : List RowVar) :
    Idles D u (freshRowCopies vs u).2 := by
  induction vs generalizing u with
  | nil => exact hu.idles
  | cons v vs ih => exact (freshRowVar_idles hu).trans (ih (freshRowVar_idles hu).tidy)

/-- The copies that are made for some keys are found under them, and nothing else is. -/
theorem get?_copies {copies : List (TyVar × Ty)} {vs : List TyVar} (hkeys : copies.map (·.1) = vs)
    (v : TyVar) : (v ∈ vs → ∃ t, (v, t) ∈ copies ∧ (SortedMap.ofList copies).get? v = some t) ∧
      (v ∉ vs → (SortedMap.ofList copies).get? v = none) := by
  constructor
  · intro hv
    obtain ⟨t, ht⟩ := Option.isSome_iff_exists.1 (SortedMap.isSome_get?_ofList (hkeys ▸ hv))
    exact ⟨t, SortedMap.mem_of_get?_ofList ht, ht⟩
  · refine fun hv => Option.eq_none_iff_forall_ne_some.2 fun t ht => hv ?_
    exact hkeys ▸ List.mem_map_of_mem (f := (·.1)) (SortedMap.mem_of_get?_ofList ht)

/-- A copy of a scheme of which the quantified variables are replaced by live types is live. -/
theorem live_substitute {s : Scheme} (hs : s.Sits D u) (hu : u.typeCount ≤ u'.typeCount)
    {copies : List (TyVar × Ty)} (hkeys : copies.map (·.1) = s.typeVars)
    (howns : ∀ c ∈ copies, u'.Owns D c.2) (rows : SortedMap RowVar RowVar) :
    (s.ty.substitute (.ofList copies) rows).Live D u'.typeCount := by
  have hlive : ∀ v ∈ s.ty.vars, (((SortedMap.ofList copies).get? v).getD (.var v)).Live D
      u'.typeCount := fun v hv => by
    by_cases hq : v ∈ s.typeVars
    · obtain ⟨t, ht, hget⟩ := (get?_copies hkeys v).1 hq
      rw [hget]
      exact (howns _ ht).live
    · rw [(get?_copies hkeys v).2 hq]
      exact Ty.live_var.2 ⟨(hs.free v hv hq).1.trans_le hu, (hs.free v hv hq).2⟩
  refine ⟨fun w hw => ?_, fun e he => ?_, Ty.mapVars_proper.2 ⟨hs.proper, fun v hv =>
    (hlive v hv).proper⟩⟩
  · obtain ⟨v, hv, hw⟩ := Ty.mem_vars_mapVars.1 hw
    exact (hlive v hv).vars w hw
  · rcases Ty.mem_effects_mapVars.1 he with ⟨v, hv, he⟩ | ⟨d, hd, rfl⟩
    · exact (hlive v hv).effects e he
    · exact hs.bare d hd

/-- A use of a scheme has one of its types, and may be assigned each of them. -/
theorem instantiate_idles (hu : u.Tidy D) {s : Scheme} (hs : s.Sits D u) (span : Span) :
    Idles D u (s.instantiate span u).2 ∧ (s.instantiate span u).2.Owns D (s.instantiate span u).1 ∧
      (∀ f, s.AdmitsAt f ((s.instantiate span u).1.under f)) ∧
      ∀ f t, s.AdmitsAt f t →
        ∃ f', (∀ v < u.typeCount, f' v = f v) ∧ (s.instantiate span u).1.under f' = t := by
  obtain ⟨-, hbelow⟩ := instantiate_does hu.toValid hs.below span
  by_cases hmono : s.isMono = true
  · have hrun : s.instantiate span u = (s.ty, u) := by
      rw [Scheme.instantiate, if_pos hmono]
      rfl
    simp only [Scheme.isMono, Bool.and_eq_true, List.isEmpty_iff] at hmono
    rw [hrun] at hbelow ⊢
    refine ⟨hu.idles, ⟨⟨fun v hv => hs.free v hv (by simp [hmono.1]), hs.bare, hs.proper⟩, hbelow⟩,
      fun f => ⟨f, fun _ _ _ => rfl, rfl⟩, fun f t ht => ⟨f, fun _ _ => rfl, ?_⟩⟩
    obtain ⟨g, hg, rfl⟩ := ht
    exact Ty.under_congr fun v hv => (hg v hv (by simp [hmono.1])).symm
  · obtain ⟨h₁, hkeys, howns, hassign⟩ := freshCopies_idles hu span s.typeVars
    have h₂ := freshRowCopies_idles h₁.tidy s.rowVars
    have hrun : s.instantiate span u = (s.ty.substitute (.ofList (freshCopies ∅ span s.typeVars u).1)
        (.ofList (freshRowCopies s.rowVars (freshCopies ∅ span s.typeVars u).2).1),
        (freshRowCopies s.rowVars (freshCopies ∅ span s.typeVars u).2).2) := by
      rw [Scheme.instantiate, if_neg hmono, hs.numeric]
      rfl
    have hget := get?_copies hkeys
    have hlive := live_substitute hs (h₁.trans h₂).count hkeys
      (fun c hc => (howns c hc).pursues h₂.toPursues)
    rw [hrun] at hbelow ⊢
    refine ⟨h₁.trans h₂, ⟨hlive _, hbelow⟩, fun f => ?_, fun f t ht => ?_⟩
    · refine ⟨_, fun v hv hq => ?_, Ty.under_mapVars s.ty _ _⟩
      rw [(hget v).2 hq]
      rfl
    · obtain ⟨g, hg, rfl⟩ := ht
      obtain ⟨f', hagree, hcopies⟩ := hassign g f
      refine ⟨f', hagree, (Ty.under_mapVars s.ty _ _).trans (Ty.under_congr fun v hv => ?_)⟩
      by_cases hq : v ∈ s.typeVars
      · obtain ⟨t, ht, hget⟩ := (hget v).1 hq
        rw [hget]
        exact hcopies _ ht
      · rw [(hget v).2 hq, hg v hv hq]
        exact hagree v (hs.free v hv hq).1

end Unifier
end RowCheck
