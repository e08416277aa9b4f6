import RowCheck.Proofs.Principal.Declarative
import RowCheck.Proofs.Principal.Live
import RowCheck.Proofs.Unify.Errors

/-!
Assignments of types to the variables of a pass. A state allows an assignment if that agrees with all
that the state has bound. An equation that was solved holds under every assignment that is still
allowed, and an assignment under which an equation holds is still allowed once it was solved.
-/
namespace RowCheck

namespace Ty

variable {f g : TyVar → Ty}

/-- A type under an assignment, without its effects. -/
def under (f : TyVar → Ty) (t : Ty) : Ty := (Reading.erasing f).read t

@[simp] theorem under_var (v : TyVar) : (var v).under f = f v := rfl

@[simp] theorem under_string : string.under f = string := rfl

@[simp] theorem under_unit : unit.under f = unit := rfl

@[simp] theorem under_prim (p : Primitive) : (prim p).under f = prim p := rfl

@[simp] theorem under_fn (p r : Ty) (e : Row) :
    (fn p r e).under f = arrow (p.under f) (r.under f) := rfl

@[simp] theorem under_tuple (items : List Ty) :
    (tuple items).under f = tuple (items.map (under f)) := Reading.read_tuple ..

@[simp] theorem under_named (name : String) (args : List Ty) :
    (named name args).under f = named name (args.map (under f)) := Reading.read_named ..

@[simp] theorem under_ref (k : BorrowKind) (t : Ty) : (ref k t).under f = ref k (t.under f) := rfl

theorem under_literal (value : Literal) : value.ty.under f = value.ty := by
  cases value <;> rfl

theorem under_congr {t : Ty} (h : ∀ v ∈ t.vars, f v = g v) : t.under f = t.under g :=
  mapVars_congr h fun _ _ => rfl

theorem under_mapVars (t : Ty) (g : TyVar → Ty) (r : Row → Row) :
    (t.mapVars g r).under f = t.under fun v => (g v).under f :=
  mapVars_mapVars t

theorem mapVars_under (t : Ty) : (t.under f).mapVars g id = t.under fun v => (f v).mapVars g id :=
  mapVars_mapVars t

theorem mem_vars_under {t : Ty} {w : TyVar} :
    w ∈ (t.under f).vars ↔ ∃ v ∈ t.vars, w ∈ (f v).vars := mem_vars_mapVars

theorem curried_cons (p : Ty) (ps : List Ty) (t : Ty) :
    curried (p :: ps) t .pure = arrow p (curried ps t .pure) := by
  cases ps <;> rfl

end Ty

namespace Scheme

variable {f g : TyVar → Ty} {s : Scheme}

/-- Whether a type is that of a scheme with types put in for the quantified variables, where the free
ones stand for what they are assigned. -/
def AdmitsAt (f : TyVar → Ty) (s : Scheme) (t : Ty) : Prop :=
  ∃ g : TyVar → Ty, (∀ v ∈ s.ty.vars, v ∉ s.typeVars → g v = f v) ∧ t = s.ty.under g

/-- Only what the free variables stand for matters. -/
theorem AdmitsAt.congr {t : Ty} (h : s.AdmitsAt f t)
    (hfg : ∀ v ∈ s.ty.vars, v ∉ s.typeVars → f v = g v) : s.AdmitsAt g t := by
  obtain ⟨k, hk, rfl⟩ := h
  exact ⟨k, fun v hv hfree => (hk v hv hfree).trans (hfg v hv hfree), rfl⟩

theorem admitsAt_mono {t u : Ty} : (mono u).AdmitsAt f t ↔ t = u.under f := by
  constructor
  · rintro ⟨g, hg, rfl⟩
    exact Ty.under_congr fun v hv => hg v hv List.not_mem_nil
  · exact fun h => ⟨f, fun _ _ _ => rfl, h⟩

theorem admits_mono {t u : Ty} : (mono u).Admits t ↔ t = u := by
  have hself : ∀ σ : TyVar → Ty, (∀ v, σ v = .var v) → u.mapVars σ id = u := fun σ h =>
    Ty.mapVars_eq_self (fun v _ => h v) fun _ _ => rfl
  constructor
  · rintro ⟨σ, hσ, rfl⟩
    exact hself σ fun v => hσ v List.not_mem_nil
  · exact fun h => ⟨.var, fun _ _ => rfl, h.trans (hself _ fun _ => rfl).symm⟩

end Scheme

namespace Unifier

variable {D D' : TyVar → Prop} {u u' u'' : Unifier} {f g : TyVar → Ty}

/-- Whether an assignment agrees with all that a state has bound. -/
def Allows (u : Unifier) (f : TyVar → Ty) : Prop := (Reading.erasing f).Fits u.substitution

theorem allows_iff : u.Allows f ↔ ∀ v t, u.substitution.type? v = some t → f v = t.under f :=
  ⟨fun h => h.type, fun h => ⟨h, fun _ => rfl⟩⟩

/-- A type has one reading with what it stands for. -/
theorem Allows.under_apply (h : u.Allows f) (hu : u.Valid) (t : Ty) :
    (u.apply t).under f = t.under f := h.read_apply hu.acyclic t

theorem Allows.of_types (h : u.Allows f)
    (ht : ∀ v, u'.substitution.type? v = u.substitution.type? v) : u'.Allows f :=
  allows_iff.2 fun v t hv => allows_iff.1 h v t (ht v ▸ hv)

/-- Assigning types to unbound variables says what the bound ones must be. -/
theorem Valid.allows (hu : u.Valid) (g : TyVar → Ty) :
    u.Allows fun v => (u.apply (.var v)).under g := by
  refine allows_iff.2 fun v t hv => ?_
  show (u.apply (.var v)).under g = _
  rw [apply, hu.acyclic.apply_var hv, Substitution.apply_eq_mapVars, Ty.under_mapVars]
  rfl

theorem under_apply_var (g : TyVar → Ty) (t : Ty) :
    (t.under fun v => (u.apply (.var v)).under g) = (u.apply t).under g :=
  (Ty.under_mapVars t ..).symm

/-- What variables are assigned that are not made yet does not matter. -/
theorem Allows.congr (h : u.Allows f) (hu : u.Tidy D) (hfg : ∀ v < u.typeCount, g v = f v) :
    u.Allows g := by
  refine allows_iff.2 fun v t hv => ?_
  rw [hfg v (Substitution.lt_size_of_type? hv), allows_iff.1 h v t hv]
  exact Ty.under_congr fun w hw => (hfg w (hu.made v t hv w hw)).symm

/-- Whether a type is live in a state and its rows are made. -/
structure Owns (D : TyVar → Prop) (u : Unifier) (t : Ty) : Prop where
  live : t.Live D u.typeCount
  below : t.Below u.rowCount

/-- A later state that leaves dead variables as they are and keeps all equations. -/
structure Pursues (D : TyVar → Prop) (u u' : Unifier) : Prop extends Spares D u u' where
  rows : u.rowCount ≤ u'.rowCount
  refines : u.substitution.Refines u'.substitution

theorem Tidy.pursues (h : u.Tidy D) : Pursues D u u :=
  ⟨h.spares, Nat.le_refl _, h.acyclic.refines_self⟩

theorem Pursues.trans (h : Pursues D u u') (h' : Pursues D u' u'') : Pursues D u u'' :=
  ⟨h.toSpares.trans h'.toSpares, h.rows.trans h'.rows,
    h.refines.trans h.tidy.acyclic h'.refines⟩

theorem Pursues.allows (h : Pursues D u u') (hu : u.Tidy D) (hf : u'.Allows f) : u.Allows f :=
  hf.of_refines h.refines hu.acyclic h.tidy.acyclic

theorem Owns.pursues {t : Ty} (h : u.Owns D t) (hu : Pursues D u u') : u'.Owns D t :=
  ⟨h.live.mono hu.count, h.below.mono hu.rows⟩

/-- What was dead for a while may be live again. -/
theorem Pursues.anti (h : Pursues D' u u') (hu : u.Tidy D) (hD : ∀ v, D v → D' v) :
    Pursues D u u' := by
  have hbound : ∀ v t, (Ty.var v).Live D u'.typeCount → u'.substitution.type? v = some t →
      t.Live D u'.typeCount := by
    intro v t hv ht
    by_cases hd : D' v
    · rw [h.dead v hd] at ht
      have hlt : v < u.typeCount := Substitution.lt_size_of_type? ht
      exact (hu.bound v t (Ty.live_var.2 ⟨hlt, (Ty.live_var.1 hv).2⟩) ht).mono h.count
    · exact (h.tidy.bound v t (Ty.live_var.2 ⟨(Ty.live_var.1 hv).1, hd⟩) ht).anti hD
  exact ⟨⟨⟨⟨h.tidy.toValid, h.tidy.numeric, h.tidy.rows, hbound⟩,
    fun v hv => (hu.dead v hv).trans_le h.count, h.tidy.made, h.tidy.waiting⟩, h.count,
    fun v hv => h.dead v (hD v hv)⟩, h.rows, h.refines⟩

/-- A later state that has found nothing out. -/
structure Idles (D : TyVar → Prop) (u u' : Unifier) : Prop extends Pursues D u u' where
  errors : u'.errors = u.errors
  allows' : ∀ f, u.Allows f → u'.Allows f

theorem Idles.trans (h : Idles D u u') (h' : Idles D u' u'') : Idles D u u'' :=
  ⟨h.toPursues.trans h'.toPursues, h'.errors.trans h.errors, fun f hf => h'.allows' f (h.allows' f hf)⟩

theorem Tidy.idles (h : u.Tidy D) : Idles D u u := ⟨h.pursues, rfl, fun _ => id⟩

/-! ## Equations -/

/-- An equation that was solved holds under every assignment that is allowed. -/
theorem unify_pursues (hu : u.Tidy D) {a b : Ty} (ha : u.Owns D a) (hb : u.Owns D b)
    (why : Provenance) (he : (unify a b why u).2.errors = u.errors) :
    Pursues D u (unify a b why u).2 ∧
      ∀ f, (unify a b why u).2.Allows f → a.under f = b.under f := by
  have hstays := solve_staysIn hu.toHolds ha.live hb.live ha.below hb.below
  have hagree : u.Solves (solve a b) (fun _ u' => Agree u u' a b) :=
    .get_bind (solveWithin_solves _ u a b hu.toValid ha.below hb.below)
  obtain ⟨hadv, hdone⟩ := unify_of_solves a b why
    (P := fun u' => StaysIn (.live D u.typeCount) u u' ∧ Agree u u' a b)
    ⟨hstays.1, fun r hr => ⟨hstays.2 r hr, hagree.2 r hr⟩⟩
  obtain ⟨hstay, hsame⟩ := hdone he
  refine ⟨⟨hstay.spares hu, hadv.rows, hadv.refines⟩, fun f hf => ?_⟩
  have heq := (hsame (hu.live_apply ha.live).proper (hu.live_apply hb.live).proper).2
  rw [← hf.under_apply hadv.valid a, heq, hf.under_apply hadv.valid]

/-- An assignment under which an equation holds is allowed once it was solved. -/
theorem unify_allows (hu : u.Tidy D) {a b : Ty} (ha : u.Owns D a) (hb : u.Owns D b)
    (why : Provenance) (hf : u.Allows f) (heq : a.under f = b.under f) :
    (unify a b why u).2.errors = u.errors ∧ (unify a b why u).2.Allows f := by
  have hmeets := solve_meets (meetsRows_live f D u.typeCount) hu.toHolds hf ha.live hb.live ha.below
    hb.below heq (by simp [Stock.live, solveBound, Nat.add_assoc])
  have hstays := (solve_staysIn hu.toHolds ha.live hb.live ha.below hb.below).2 () hmeets.1
  exact hmeets.unify why ▸ ⟨hstays.errors, hmeets.2⟩

end Unifier
end RowCheck
