import Mathlib.Logic.Equiv.Basic
import RowCheck.Proofs.Types.Renaming
import RowCheck.Proofs.Unify.Turns

/-!
Solving equations with their sides exchanged. A turn then binds another one of two variables, or the
same variable from the other side, so that the states differ by a renaming of type variables: the two
variables change places. Rows come to stand for the same.
-/
namespace RowCheck

open Equation

namespace Ty

variable {f : TyVar → TyVar}

theorem renamed_put {π : Equiv.Perm TyVar} (x : Ty) (v : TyVar) (t : Ty) :
    (x.put v t).renamed π id = (x.renamed π id).put (π v) (t.renamed π id) := by
  simp only [renamed, put, mapVars_mapVars, Row.renamed_id, id_eq]
  refine mapVars_congr (fun w _ => ?_) fun e _ => rfl
  simp only [mapVars, π.apply_eq_iff_eq]
  split
  · rfl
  · rfl

/-- Replacing a variable by another one is the same as replacing the other one by it, with the two
exchanged. -/
theorem renamed_put_swap {π : Equiv.Perm TyVar} (x : Ty) (v w : TyVar) :
    (x.put v (.var w)).renamed ((Equiv.swap v w).trans π) id =
      (x.renamed π id).put (π w) (.var (π v)) := by
  simp only [renamed, put, mapVars_mapVars, Row.renamed_id, id_eq]
  refine mapVars_congr (fun y _ => ?_) fun e _ => rfl
  simp only [mapVars, π.apply_eq_iff_eq]
  by_cases hv : y = v
  · subst hv
    by_cases hw : y = w
    · simp [hw, mapVars]
    · simp [hw, mapVars]
  · by_cases hw : y = w
    · simp [hw, mapVars]
    · simp [hv, hw, mapVars, Equiv.swap_apply_of_ne_of_ne hv hw]

theorem renamed_eq_var {π : Equiv.Perm TyVar} {t : Ty} {v : TyVar} :
    t.renamed π id = .var (π v) ↔ t = .var v := by
  cases t with
  | var w => simp [renamed, mapVars]
  | _ => simp [renamed, mapVars]

end Ty

@[simp] theorem Unifier.refusesNumeric_renamed {f : TyVar → TyVar} (t : Ty) :
    refusesNumeric (t.renamed f id) = refusesNumeric t := by
  cases t with
  | _ => rfl

namespace Unifier

variable {u u' w w' : Unifier} {π : Equiv.Perm TyVar} {v x : TyVar} {a a' b b' t t' : Ty}

/-- A state that mirrors another one: types stand in it for the same up to a renaming of type variables,
their bounds are the same up to this renaming, and rows stand for the same. -/
structure Mirrors (π : Equiv.Perm TyVar) (u w : Unifier) : Prop where
  apply : ∀ t, w.apply t = (u.apply t).renamed π id
  rows : w.substitution.rows = u.substitution.rows
  numeric : ∀ v, (w.numeric.get? (π v)).isSome = (u.numeric.get? v).isSome
  errors : w.errors.length = u.errors.length

theorem Mirrors.refl (u : Unifier) : Mirrors (.refl TyVar) u u where
  apply t := (Ty.renamed_id (u.apply t)).symm
  rows := rfl
  numeric _ := rfl
  errors := rfl

theorem Mirrors.findRow (h : Mirrors π u w) (e : Row) : w.findRow e = u.findRow e :=
  Substitution.findRow_congr h.rows e

theorem Mirrors.rowCount (h : Mirrors π u w) : w.rowCount = u.rowCount :=
  congrArg Array.size h.rows

theorem Mirrors.alike (h : Mirrors π u w) (hu : u.Alike u') (hw : w.Alike w') : Mirrors π u' w' where
  apply t := by rw [hw.apply, hu.apply, h.apply]
  rows := by rw [hw.rows, hu.rows, h.rows]
  numeric v := by rw [hw.numeric, hu.numeric, h.numeric]
  errors := by rw [hw.errors, hu.errors, h.errors]

theorem Mirrors.unbound (h : Mirrors π u w) (hw : w.Valid) (hv : u.apply (.var v) = .var v) :
    w.apply (.var (π v)) = .var (π v) := by
  have happly : w.apply (.var v) = .var (π v) := by
    rw [h.apply, hv]
    rfl
  rw [← happly]
  exact hw.acyclic.apply_apply _

/-- In both states a variable is bound to what looks the same. -/
theorem Mirrors.binds (h : Mirrors π u w) (ht : w.apply t' = (u.apply t).renamed π id)
    (hb : u.Binds u' v t) (hb' : w.Binds w' (π v) t') : Mirrors π u' w' where
  apply y := by rw [hb'.apply, hb.apply, h.apply, ht, Ty.renamed_put]
  rows := by rw [hb'.rows, hb.rows, h.rows]
  numeric y := by
    rw [Bool.eq_iff_iff, hb'.numeric, hb.numeric, h.numeric, h.numeric, ht, Ty.renamed_eq_var,
      π.injective.ne_iff]
  errors := by rw [hb'.errors, hb.errors, h.errors, h.numeric, ht, refusesNumeric_renamed]

/-- Of two variables each state binds another one. -/
theorem Mirrors.exchange (h : Mirrors π u w) (hw : w.Valid) (hv : u.apply (.var v) = .var v)
    (hx : u.apply (.var x) = .var x) (hne : v ≠ x) (hb : u.Binds u' v (.var x))
    (hb' : w.Binds w' (π x) (.var (π v))) : Mirrors ((Equiv.swap v x).trans π) u' w' where
  apply y := by rw [hb'.apply, hb.apply, h.apply, h.unbound hw hv, hx, Ty.renamed_put_swap]
  rows := by rw [hb'.rows, hb.rows, h.rows]
  numeric y := by
    rw [Bool.eq_iff_iff, hb'.numeric, hb.numeric, h.unbound hw hv, hx, h.numeric]
    by_cases hyv : y = v
    · subst hyv
      simp [hne, hne.symm]
    · by_cases hyx : y = x
      · subst hyx
        simp [h.numeric, hne, or_comm, hyv]
      · have hswap : (Equiv.swap v x) y = y := Equiv.swap_apply_of_ne_of_ne hyv hyx
        simp [hswap, h.numeric, hyv, hyx, Ne.symm hyv, Ne.symm hyx]
  errors := by rw [hb'.errors, hb.errors, h.errors, h.unbound hw hv, hx]; simp [refusesNumeric]

end Unifier

/-! ## Rows -/

namespace Substitution

variable {s s' : Substitution}

theorem rows_ext (hn : s'.rows.size = s.rows.size) (h : ∀ v, s'.row? v = s.row? v) :
    s'.rows = s.rows := by
  refine Array.ext hn fun i hi hi' => ?_
  simpa [row?, hi, hi'] using h i

/-- Two rows come to be equal in the same way from either side. -/
theorem level_swap (hs : s'.rows = s.rows) {r q : Row} (hr : r.Below s.rows.size)
    (hq : q.Below s.rows.size) : (s'.level q r).map rows = (s.level r q).map rows := by
  obtain ⟨types, bound₀⟩ := s
  obtain ⟨types', bound⟩ := s'
  obtain rfl : bound = bound₀ := hs
  unfold level
  dsimp only
  cases htr : r.tail with
  | none => cases htq : q.tail with
    | none =>
      dsimp only
      rw [Bool.and_comm]
      split
      · rfl
      · rfl
    | some w =>
      dsimp only
      split
      · rfl
      · rfl
  | some v => cases htq : q.tail with
    | none =>
      dsimp only
      split
      · rfl
      · rfl
    | some w =>
      dsimp only
      by_cases hvw : v = w
      · rw [if_pos hvw, if_pos hvw.symm, Bool.and_comm]
        split
        · rfl
        · rfl
      · rw [if_neg hvw, if_neg (Ne.symm hvw)]
        have hlt : ∀ {ts : Array (Option Ty)} {x : RowVar}, x < bound.size →
            x < (freshRow ⟨ts, bound⟩).2.rows.size := fun hx => by
          simpa [freshRow] using Nat.lt_succ_of_lt hx
        have hv := hr v htr
        have hw := hq w htq
        refine congrArg some (rows_ext ?_ fun y => ?_)
        · rw [size_rows_bindRow, size_rows_bindRow (hlt hw), size_rows_bindRow,
            size_rows_bindRow (hlt hv)]
          · rfl
          · rw [size_rows_bindRow (hlt hv)]
            exact hlt hw
          · rw [size_rows_bindRow (hlt hw)]
            exact hlt hv
        · simp only [row?_bindRow, row?_freshRow]
          by_cases hy : v = y
          · rw [if_pos hy, if_neg fun h => hvw (hy.trans h.symm), if_pos hy]
          · rw [if_neg hy, if_neg hy]
            rfl

end Substitution

namespace Unifier

variable {u u' w w' : Unifier} {π : Equiv.Perm TyVar}

theorem Mirrors.sameApart (h : Mirrors π u w) (hu : u.Valid) (hw : w.Valid) (hg : u.Grows u')
    (hg' : w.Grows w') (hs : SameApart u u') (hs' : SameApart w w')
    (hr : w'.substitution.rows = u'.substitution.rows) : Mirrors π u' w' where
  apply t := by
    rw [hg'.apply_of_types hw hs'.type?, hg.apply_of_types hu hs.type?, h.apply, Ty.renamed,
      Ty.renamed, Ty.mapVars_mapVars, Ty.mapVars_mapVars]
    refine Ty.mapVars_congr (fun _ _ => rfl) fun e _ => ?_
    rw [Row.renamed_id, Row.renamed_id]
    exact Substitution.findRow_congr hr e
  rows := hr
  numeric v := by rw [hs'.eqs.2.1, hs.eqs.2.1, h.numeric]
  errors := by rw [hs'.eqs.2.2.2, hs.eqs.2.2.2, h.errors]

theorem Mirrors.solveRows (h : Mirrors π u w) (hu : u.Valid) (hw : w.Valid) {e e' f f' : Row}
    (he : e.Below u.rowCount) (hf : f.Below u.rowCount) (he' : e'.Below u.rowCount)
    (hf' : f'.Below u.rowCount) (hee : w.findRow e' = w.findRow e)
    (hff : w.findRow f' = w.findRow f) :
    Mirrors π ((solveRows e f).run u).2 ((solveRows f' e').run w).2 ∧
      ((solveRows f' e').run w).1.isOk = ((solveRows e f).run u).1.isOk := by
  have hdoes := solveRows_solves hu he hf
  have hdoes' := solveRows_solves hw (h.rowCount ▸ hf') (h.rowCount ▸ he')
  have hyields := solveRows_yields u e f
  have hyields' := solveRows_yields w f' e'
  have hswap := Substitution.level_swap h.rows (hu.substitution.findRow_below he)
    (hu.substitution.findRow_below hf)
  rw [hee, hff, h.findRow, h.findRow] at hyields'
  have mirrored := h.sameApart hu hw hdoes.1.toGrows hdoes'.1.toGrows
    ((solveRows_changesRows e f).moves u) ((solveRows_changesRows f' e').moves w)
  unfold Unifier.findRow at hyields hyields'
  cases hl : u.substitution.level (u.substitution.findRow e) (u.substitution.findRow f) with
  | none =>
    rw [hl] at hyields hswap
    rw [Option.map_none, Option.map_eq_none_iff] at hswap
    rw [hswap] at hyields'
    refine ⟨mirrored ?_, hyields'.1.trans hyields.1.symm⟩
    exact (congrArg _ hyields'.2).trans (h.rows.trans (congrArg _ hyields.2).symm)
  | some s =>
    rw [hl] at hyields hswap
    obtain ⟨s', hs', hrows⟩ := Option.map_eq_some_iff.1 hswap
    rw [hs'] at hyields'
    refine ⟨mirrored ?_, ?_⟩
    · exact (congrArg _ hyields'.2).trans (hrows.trans (congrArg _ hyields.2).symm)
    · rw [hyields'.1, hyields.1]

end Unifier
end RowCheck
