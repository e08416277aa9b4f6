import Mathlib.Data.Set.Function
import RowCheck.Proofs.Types.Renaming
import RowCheck.Proofs.Unify.Descent

/-!
A copy of a type, with other variables in the place of some of its own, is made equal to the type without
an error. Each new variable is bound to the one that it was made for, and two rows come to share a tail.
-/
namespace RowCheck

open Equation

/-- Whether a renaming puts other variables in the place of some of the variables of a type, and leaves
the rest. -/
structure Ty.Copied (t : Ty) (f : TyVar → TyVar) (h : RowVar → RowVar) : Prop where
  vars : ∀ v ∈ t.vars, f v ∈ t.vars → f v = v
  varsInj : Set.InjOn f {v | v ∈ t.vars}
  rows : ∀ v ∈ t.rows, h v ∈ t.rows → h v = v
  rowsInj : Set.InjOn h {v | v ∈ t.rows}

theorem Ty.Plain.renamed {t : Ty} (ht : t.Plain) (f : TyVar → TyVar) (h : RowVar → RowVar) :
    (t.renamed f h).Plain := by
  cases t with
  | var v => exact absurd rfl (ht.ne_var v)
  | error => exact absurd rfl ht.ne_error
  | _ => simp [Ty.renamed, Ty.mapVars]

namespace Unifier

variable {u u' : Unifier} {t : Ty} {f : TyVar → TyVar} {h : RowVar → RowVar} {v : TyVar}

/-- The variables of a type and of its copy on the way to being made equal: the variables of the type are
unbound, and each new one is unbound or stands for that which it was made for. -/
structure Copies (u : Unifier) (t : Ty) (f : TyVar → TyVar) (h : RowVar → RowVar) : Prop where
  valid : u.Valid
  vars : ∀ v ∈ t.vars, u.apply (.var v) = .var v ∧
    (u.apply (.var (f v)) = .var v ∨ u.apply (.var (f v)) = .var (f v))
  below : ∀ r ∈ t.rows, r < u.rowCount ∧ h r < u.rowCount
  rows : ∀ r ∈ t.rows, u.findRow (.ofVar (h r)) = u.findRow (.ofVar r) ∨
    u.substitution.row? r = none ∧ u.substitution.row? (h r) = none

theorem Copies.alike (hc : u.Copies t f h) (hadv : u.Advances u') (hs : u.Alike u') :
    u'.Copies t f h where
  valid := hadv.valid
  vars v hv := by
    simp only [hs.apply]
    exact hc.vars v hv
  below r hr := ((hc.below r hr).imp (·.trans_le hadv.rows) (·.trans_le hadv.rows))
  rows r hr := by
    simp only [hs.findRow, Substitution.row?, hs.rows]
    exact hc.rows r hr

/-- Whether equations are solved without an error, with the variables still on their way. -/
def Clears (u : Unifier) (t : Ty) (f : TyVar → TyVar) (h : RowVar → RowVar)
    (es : List Equation) : Prop :=
  ∃ u', Solving es u (.ok ()) u' ∧ u'.Copies t f h ∧ u'.errors.length = u.errors.length

theorem Copies.nil (hc : u.Copies t f h) : u.Clears t f h [] := ⟨u, .done, hc, rfl⟩

theorem Clears.cons {e : Equation} {es : List Equation} (he : u.Clears t f h [e])
    (hes : ∀ u' : Unifier, u'.Copies t f h → u'.Clears t f h es) : u.Clears t f h (e :: es) := by
  obtain ⟨u₁, hrun, hc, herr⟩ := he
  obtain ⟨u₂, hrun', hc', herr'⟩ := hes u₁ hc
  exact ⟨u₂, hrun.append hrun', hc', herr'.trans herr⟩

theorem Clears.of_step {e : Equation} {es : List Equation} (hstep : e.step.run u = (.ok es, u'))
    (herr : u'.errors.length = u.errors.length) (hes : u'.Clears t f h es) :
    u.Clears t f h [e] := by
  obtain ⟨u₂, hrun, hc, herr'⟩ := hes
  exact ⟨u₂, .next hstep (by simpa using hrun), hc, herr'.trans herr⟩

/-- An action that leaves no equations comes to its state. -/
theorem clears_of_done {e : Equation} (hr : (e.step.run u).1 = .ok [])
    (hc : (e.step.run u).2.Copies t f h)
    (herr : (e.step.run u).2.errors.length = u.errors.length) : u.Clears t f h [e] :=
  .of_step (Prod.ext hr rfl) herr hc.nil

/-- A new variable that is bound to the one that it was made for is on its way no more. -/
theorem Copies.binds (hc : u.Copies t f h) (ht : t.Copied f h) (hv : v ∈ t.vars) (hne : f v ≠ v)
    (hadv : u.Advances u') (hb : u.Binds u' (f v) (.var v)) : u'.Copies t f h where
  valid := hadv.valid
  vars w hw := by
    have hnew : w ≠ f v := fun e => hne (ht.vars v hv (e ▸ hw))
    obtain ⟨hself, hcopy⟩ := hc.vars w hw
    simp only [hb.apply, hself, (hc.vars v hv).1]
    refine ⟨if_neg hnew, ?_⟩
    rcases hcopy with hcopy | hcopy
    · rw [hcopy]
      exact .inl (if_neg hnew)
    · rw [hcopy]
      by_cases hwv : w = v
      · subst hwv
        exact .inl (if_pos rfl)
      · exact .inr (if_neg fun e => hwv (ht.varsInj hw hv e))
  below r hr := (hc.below r hr).imp (·.trans_le hadv.rows) (·.trans_le hadv.rows)
  rows r hr := by
    simp only [findRow, Substitution.findRow_congr hb.rows, Substitution.row?, hb.rows]
    exact hc.rows r hr

/-- A new variable is bound to the one that it was made for, unless it already is. -/
theorem Copies.clears_var (hc : u.Copies t f h) (ht : t.Copied f h) (hv : v ∈ t.vars) :
    u.Clears t f h [.types (.var (f v)) (.var v)] := by
  have hvar : ∀ w : TyVar, (Ty.var w).Below u.rowCount := fun w => Ty.below_of_effects_eq_nil rfl
  obtain ⟨a, b, u₁, hstep, hadv, hs, ha, hb⟩ := step_types hc.valid (hvar (f v)) (hvar v)
  have hc₁ := hc.alike hadv hs
  obtain ⟨hself, hcopy⟩ := hc₁.vars v hv
  obtain rfl : b = .var v := hb.self.eq_var (hb.apply.trans hself)
  have cleared (hr : ((turn a (.var v)).run u₁).1 = .ok [])
      (hc' : ((turn a (.var v)).run u₁).2.Copies t f h)
      (herr : ((turn a (.var v)).run u₁).2.errors.length = u₁.errors.length) :
      u.Clears t f h [.types (.var (f v)) (.var v)] := by
    rw [← hstep] at hr hc' herr
    exact clears_of_done hr hc' (herr.trans hs.errors)
  by_cases hbound : u₁.apply (.var (f v)) = .var v
  · obtain rfl : a = .var v := ha.self.eq_var (ha.apply.trans hbound)
    obtain ⟨hadv', hr, hs'⟩ := turn_self hc₁.valid v
    exact cleared hr (hc₁.alike hadv' hs') hs'.errors
  · have hfree := hcopy.resolve_left hbound
    obtain rfl : a = .var (f v) := ha.self.eq_var (ha.apply.trans hfree)
    have hne : f v ≠ v := fun e => hbound (by rw [e, hself])
    have hturn := turn_var_left hc₁.valid hfree (t := .var v) hb.below (by simp)
      fun e => hne (Ty.var.inj e).symm
    obtain ⟨hadv', ⟨hm, -⟩ | ⟨-, hr, hbinds⟩⟩ := hturn
    · rw [hself] at hm
      exact absurd (List.mem_singleton.1 hm) hne
    · refine cleared hr (hc₁.binds ht hv hne hadv' hbinds) ?_
      rw [hbinds.errors, hself]
      simp [refusesNumeric]

theorem Copies.congr (hc : u.Copies t f h) (hu : u'.Valid)
    (hs : u'.substitution = u.substitution) : u'.Copies t f h where
  valid := hu
  vars v hv := by
    simp only [apply, hs]
    exact hc.vars v hv
  below r hr := by
    rw [rowCount, hs]
    exact hc.below r hr
  rows r hr := by
    rw [findRow, findRow, hs]
    exact hc.rows r hr

/-- Two rows that come to share a tail are on their way no more. -/
theorem Copies.sharesTail (hc : u.Copies t f h) (ht : t.Copied f h) {r : RowVar} (hr : r ∈ t.rows)
    (hne : h r ≠ r) (hadv : u.Advances u') (hs : SameApart u u') {b : Row}
    (hrows : ∀ x, u'.substitution.row? x =
      if r = x ∨ h r = x then some b else u.substitution.row? x) : u'.Copies t f h where
  valid := hadv.valid
  vars v hv := by
    have happly (x : TyVar) {y : TyVar} (hx : u.apply (.var x) = .var y) :
        u'.apply (.var x) = .var y := by
      rw [hadv.toGrows.apply_of_types hc.valid hs.type?, hx]
      rfl
    exact (hc.vars v hv).imp (happly v) (.imp (happly (f v)) (happly (f v)))
  below x hx := (hc.below x hx).imp (·.trans_le hadv.rows) (·.trans_le hadv.rows)
  rows x hx := by
    rcases hc.rows x hx with heq | ⟨hu, hu'⟩
    · left
      rw [← hadv.toGrows.findRow hc.valid, heq, hadv.toGrows.findRow hc.valid]
    · by_cases hxr : x = r
      · subst hxr
        left
        rw [findRow, hadv.valid.acyclic.findRow_ofVar ((hrows _).trans (if_pos (.inr rfl))),
          findRow, hadv.valid.acyclic.findRow_ofVar ((hrows _).trans (if_pos (.inl rfl)))]
      · right
        have hx' : h r ≠ x := fun e => hne (ht.rows r hr (e ▸ hx))
        have hhx : h x ≠ h r := fun e => hxr (ht.rowsInj hx hr e)
        have hhx' : h x ≠ r := fun e => hxr ((ht.rows x hx (e ▸ hr)).symm.trans e)
        rw [hrows, hrows, if_neg (by tauto), if_neg (by tauto)]
        exact ⟨hu, hu'⟩

/-- A row and its copy are made equal. -/
theorem Copies.clears_row (hc : u.Copies t f h) (ht : t.Copied f h) {e : Row}
    (he : ∀ r, e.tail = some r → r ∈ t.rows) : u.Clears t f h [.rows (e.renamed h) e] := by
  have hbelow : e.Below u.rowCount := fun r hr => (hc.below r (he r hr)).1
  have hbelow' : (e.renamed h).Below u.rowCount := fun r hr => by
    obtain ⟨x, hx, rfl⟩ := Option.map_eq_some_iff.1 hr
    exact (hc.below x (he x hx)).2
  have hadv := (solveRows_solves hc.valid hbelow' hbelow).1
  have hsame := (solveRows_changesRows (e.renamed h) e).moves u
  have hyields := solveRows_yields u (e.renamed h) e
  have cleared (hr : ((solveRows (e.renamed h) e).run u).1 = .ok ())
      (hc' : ((solveRows (e.renamed h) e).run u).2.Copies t f h) :
      u.Clears t f h [.rows (e.renamed h) e] := by
    have hstep : (Equation.rows (e.renamed h) e).step.run u = _ := run_leave ..
    rw [hr] at hstep
    exact .of_step hstep (congrArg List.length hsame.eqs.2.2.2) hc'.nil
  have same (heq : u.findRow (e.renamed h) = u.findRow e) :
      u.Clears t f h [.rows (e.renamed h) e] := by
    rw [heq, Substitution.level_self] at hyields
    exact cleared hyields.1 (hc.congr hadv.valid hyields.2)
  cases htail : e.tail with
  | none => exact same (congrArg u.findRow (Row.renamed_eq_self fun r hr => by simp [htail] at hr))
  | some r =>
    have htail' : (e.renamed h).tail = some (h r) := by simp [Row.renamed, htail]
    rcases hc.rows r (he r htail) with heq | ⟨hu, hu'⟩
    · refine same ?_
      rw [findRow, findRow, Substitution.findRow_eq_extend htail', Substitution.findRow_eq_extend htail]
      exact congrArg (Row.extend · e.labels) heq
    · by_cases hne : h r = r
      · refine same (congrArg u.findRow (Row.renamed_eq_self fun x hx => ?_))
        obtain rfl := Option.some.inj (htail.symm.trans hx)
        exact hne
      · let b : Row := ⟨e.labels.diff e.labels, some u.rowCount⟩
        have hlevel : u.substitution.level (u.findRow (e.renamed h)) (u.findRow e) =
            some ((u.substitution.freshRow.2.bindRow (h r) b).bindRow r b) := by
          rw [findRow, findRow, Substitution.findRow_unbound htail' hu',
            Substitution.findRow_unbound htail hu, Substitution.level, htail', htail]
          exact if_neg hne
        rw [hlevel] at hyields
        refine cleared hyields.1 (hc.sharesTail ht (he r htail) hne hadv hsame (b := b) fun x => ?_)
        rw [hyields.2, Substitution.row?_bindRow, Substitution.row?_bindRow,
          Substitution.row?_freshRow, ite_or]

variable {es : List Equation}

theorem find_plain {a : Ty} (ha : a.Plain) (u : Unifier) : find a u = (a, u) := by
  cases a with
  | var v => exact absurd rfl (ha.ne_var v)
  | _ => rfl

/-- A type that is no variable is taken apart together with its copy. -/
theorem Copies.clears_parts (hc : u.Copies t f h) {x : Ty} (hx : x.Plain)
    (hparts : parts (x.renamed f h) x = some es)
    (hes : ∀ u' : Unifier, u'.Copies t f h → u'.Clears t f h es) :
    u.Clears t f h [.types (x.renamed f h) x] := by
  have hstep : (Equation.types (x.renamed f h) x).step.run u = (turn (x.renamed f h) x).run u :=
    (find_run (find_plain (hx.renamed f h) u)).trans (find_run (find_plain hx u))
  obtain ⟨hadv, hs, -, hr⟩ := turn_plain hc.valid (hx.renamed f h) hx
  exact .of_step (hstep.trans (Prod.ext (hr es hparts) rfl)) hs.errors (hes _ (hc.alike hadv hs))

theorem Copies.clears_each (hc : u.Copies t f h) {items : List Ty}
    (hitems : ∀ x ∈ items, ∀ u' : Unifier, u'.Copies t f h →
      u'.Clears t f h [.types (x.renamed f h) x]) :
    u.Clears t f h (List.zipWith .types (items.map (Ty.renamed f h)) items) := by
  induction items generalizing u with
  | nil => exact hc.nil
  | cons x items ih =>
    rw [List.forall_mem_cons] at hitems
    exact (hitems.1 u hc).cons fun u' hc' => ih hc' hitems.2

/-- Each part of a type is made equal to its copy. -/
theorem Copies.clears_types (ht : t.Copied f h) (x : Ty) (hvars : ∀ v ∈ x.vars, v ∈ t.vars)
    (hrows : ∀ e ∈ x.effects, ∀ r, e.tail = some r → r ∈ t.rows) (u : Unifier)
    (hc : u.Copies t f h) : u.Clears t f h [.types (x.renamed f h) x] := by
  induction x using Ty.induction generalizing u with
  | prim p => exact hc.clears_parts (by simp) (if_pos rfl) fun _ hc' => hc'.nil
  | string => exact hc.clears_parts (by simp) rfl fun _ hc' => hc'.nil
  | unit => exact hc.clears_parts (by simp) rfl fun _ hc' => hc'.nil
  | error =>
    obtain ⟨hadv, hr, hs⟩ := turn_error_left hc.valid .error
    exact clears_of_done hr (hc.alike hadv hs) hs.errors
  | var v => exact hc.clears_var ht (hvars v (List.mem_singleton_self v))
  | ref k inner ih =>
    exact hc.clears_parts (by simp) (if_pos rfl) fun u' => ih hvars hrows u'
  | fn p r e hp hr =>
    simp only [Ty.vars, List.mem_append, or_imp, forall_and] at hvars
    simp only [Ty.effects, List.mem_cons, List.mem_append, or_imp, forall_and, forall_eq] at hrows
    refine hc.clears_parts (by simp) rfl fun u₁ hc₁ => ?_
    refine (hp hvars.1 hrows.2.1 u₁ hc₁).cons fun u₂ hc₂ => ?_
    exact (hr hvars.2 hrows.2.2 u₂ hc₂).cons fun u₃ hc₃ => hc₃.clears_row ht hrows.1
  | tuple items ih | named _ items ih =>
    simp only [Ty.vars, Ty.varsList_eq, List.mem_flatMap] at hvars
    simp only [Ty.effects, Ty.effectsList_eq, List.mem_flatMap] at hrows
    have hitems : ∀ y ∈ items, ∀ u' : Unifier, u'.Copies t f h →
        u'.Clears t f h [.types (y.renamed f h) y] := fun y hy =>
      ih y hy (fun v hv => hvars v ⟨y, hy, hv⟩) fun e he => hrows e ⟨y, hy, he⟩
    refine hc.clears_parts (by simp) (if_pos ?_) fun u' hc' => ?_
    · simp [Ty.mapVarsList_eq_map]
    · rw [Ty.mapVarsList_eq_map]
      exact hc'.clears_each hitems

/-- Requiring that a type is equal to its copy reports nothing. -/
theorem Copies.unify (hc : u.Copies t f h) (ht : t.Copied f h) (why : Provenance) :
    (unify (t.renamed f h) t why u).2.errors = u.errors := by
  have hbelow : t.Below u.rowCount := fun e he r hr => (hc.below r (Ty.mem_rows.2 ⟨e, he, hr⟩)).1
  have hbelow' : (t.renamed f h).Below u.rowCount := fun e he r hr => by
    obtain ⟨x, hx, rfl⟩ := Ty.mem_rows_renamed.1 (Ty.mem_rows.2 ⟨e, he, hr⟩)
    exact (hc.below x hx).2
  obtain ⟨u', hrun, -, herr⟩ := hc.clears_types ht t (fun _ hv => hv)
    (fun e he r hr => Ty.mem_rows.2 ⟨e, he, hr⟩) u
  obtain ⟨hok, hstate⟩ := hrun.unique (solve_works hc.valid hbelow' hbelow)
  rcases unify_outcome u (t.renamed f h) t why with ⟨he, -⟩ | ⟨-, hr⟩
  · have hadv := (unify_does hc.valid hbelow' hbelow why).1
    refine (hadv.errors.eq_of_length ?_).symm
    rw [he, ← hstate, herr]
  · rw [← hok] at hr
    cases hr

end Unifier
end RowCheck
