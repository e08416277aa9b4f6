import RowCheck.Proofs.Unify.Equations

/-!
What a turn comes to: one of two types is absorbed, a variable is bound, or the types are taken apart.
Whatever a turn does, it binds some of the variables that are left in the two types, to types over
these variables.
-/
namespace RowCheck

open Equation

/-- Whether a type is neither a variable nor the type of a failed expression. -/
@[mk_iff]
structure Ty.Plain (t : Ty) : Prop where
  ne_var : ∀ v, t ≠ .var v
  ne_error : t ≠ .error

attribute [simp] Ty.plain_iff

theorem Ty.error_or_var_or_plain (t : Ty) : t = .error ∨ (∃ v, t = .var v) ∨ t.Plain := by
  cases t with
  | error => exact .inl rfl
  | var v => exact .inr (.inl ⟨v, rfl⟩)
  | _ => exact .inr (.inr (by simp))

theorem Ty.Plain.apply {t : Ty} (h : t.Plain) (u : Unifier) : (u.apply t).Plain := by
  cases t with
  | var v => exact absurd rfl (h.ne_var v)
  | error => exact absurd rfl h.ne_error
  | _ => simp

namespace Unifier

variable {u u' u'' : Unifier} {a b t : Ty} {v : TyVar}

/-! ## Turns -/

theorem turn_error_left (hu : u.Valid) (b : Ty) :
    u.Does (turn .error b).run (fun r u' => r = .ok [] ∧ u.Alike u') :=
  (note_alike hu ..).run_lift_bind fun _ _ h ha => .pure h.valid ⟨rfl, ha⟩

theorem turn_error_right (hu : u.Valid) (a : Ty) :
    u.Does (turn a .error).run (fun r u' => r = .ok [] ∧ u.Alike u') := by
  cases a with
  | error => exact turn_error_left hu _
  | _ => exact (note_alike hu ..).run_lift_bind fun _ _ h ha => .pure h.valid ⟨rfl, ha⟩

theorem turn_self (hu : u.Valid) (v : TyVar) :
    u.Does (turn (.var v) (.var v)).run (fun r u' => r = .ok [] ∧ u.Alike u') := by
  unfold turn
  dsimp only
  rw [if_pos rfl]
  exact (note_alike hu ..).run_lift_bind fun _ _ h ha => .pure h.valid ⟨rfl, ha⟩

/-- What a turn comes to that binds a variable: it fails where the variable occurs in the type. -/
def Links (u : Unifier) (v : TyVar) (t : Ty) (r : Except UnifyFailure (List Equation))
    (u' : Unifier) : Prop :=
  (v ∈ (u.apply t).vars ∧ r.isOk = false ∧ u.Alike u') ∨
    (v ∉ (u.apply t).vars ∧ r = .ok [] ∧ u.Binds u' v t)

theorem bindVar_links (hu : u.Valid) (hv : u.apply (.var v) = .var v) (ht : t.Below u.rowCount) :
    u.Does (do
      bindVar v t
      return [] : SolveM (List Equation)).run (u.Links v t) := by
  refine Does.bind (f := ExceptT.bindCont fun _ => pure [])
    (bindVar_binds hu (hu.acyclic.type?_eq_none_iff.2 hv) ht) fun r u' h hr => ?_
  rcases hr with ⟨hm, hr, ha⟩ | ⟨hm, rfl, hb⟩
  · cases r with
    | ok _ => cases hr
    | error why => exact .pure h.valid (.inl ⟨hm, rfl, ha⟩)
  · exact .pure h.valid (.inr ⟨hm, rfl, hb⟩)

theorem turn_var_left (hu : u.Valid) (hv : u.apply (.var v) = .var v) (ht : t.Below u.rowCount)
    (hne : t ≠ .error) (hself : t ≠ .var v) : u.Does (turn (.var v) t).run (u.Links v t) := by
  cases t with
  | error => exact absurd rfl hne
  | var w =>
    unfold turn
    dsimp only
    rw [if_neg fun e : v = w => hself (congrArg Ty.var e.symm)]
    exact bindVar_links hu hv ht
  | _ => exact bindVar_links hu hv ht

theorem turn_var_right (hu : u.Valid) (hv : u.apply (.var v) = .var v) (ht : t.Below u.rowCount)
    (hp : t.Plain) : u.Does (turn t (.var v)).run (u.Links v t) := by
  cases t with
  | error => exact absurd rfl hp.ne_error
  | var w => exact absurd rfl (hp.ne_var w)
  | _ => exact bindVar_links hu hv ht

theorem noteParts_alike (hu : u.Valid) (a b : Ty) :
    u.Does (noteParts a b).run (fun r u' => r = .ok () ∧ u.Alike u') := by
  have hdoes (detail : String) := note_alike hu .decompose a b detail
  cases a with
  | fn | tuple | named => exact ⟨(hdoes _).1, rfl, (hdoes _).2⟩
  | _ => exact .pure hu ⟨rfl, .refl u⟩

theorem turn_eq (ha : a.Plain) (hb : b.Plain) : turn a b =
    match parts a b with
    | some es => do
      noteParts a b
      return es
    | none => throw .mismatch := by
  unfold turn
  split
  · exact absurd rfl ha.ne_error
  · exact absurd rfl hb.ne_error
  · exact absurd rfl (ha.ne_var _)
  · exact absurd rfl (ha.ne_var _)
  · exact absurd rfl (hb.ne_var _)
  · rfl

theorem turn_plain (hu : u.Valid) (ha : a.Plain) (hb : b.Plain) :
    u.Does (turn a b).run (fun r u' => u.Alike u' ∧
      (parts a b = none → r.isOk = false) ∧ ∀ es, parts a b = some es → r = .ok es) := by
  rw [turn_eq ha hb]
  cases hparts : parts a b with
  | none => exact .pure hu ⟨.refl u, fun _ => rfl, by simp⟩
  | some es =>
    refine Does.bind (f := ExceptT.bindCont fun _ => pure es) (noteParts_alike hu a b)
      fun r u' h hr => ?_
    obtain ⟨rfl, halike⟩ := hr
    refine .pure h.valid ⟨halike, by simp, fun es' he => ?_⟩
    cases he
    rfl

/-! ## What a turn keeps -/

/-- Whether the row variables of a type were made and the type variables that are left in it are some of
given ones. -/
structure Ranges (u : Unifier) (V : Finset TyVar) (t : Ty) : Prop where
  below : t.Below u.rowCount
  vars : ∀ v ∈ (u.apply t).vars, v ∈ V

/-- Whether only some variables are bound. -/
def Covers (u : Unifier) (V : Finset TyVar) : Prop := ∀ v, u.apply (.var v) ≠ .var v → v ∈ V

/-- Whether a later state binds some variables only, and to types over them. -/
structure Confines (V : Finset TyVar) (u u' : Unifier) : Prop where
  vars : ∀ t, (∀ v ∈ (u.apply t).vars, v ∈ V) → ∀ v ∈ (u'.apply t).vars, v ∈ V
  unbound : ∀ v ∉ V, u.apply (.var v) = .var v → u'.apply (.var v) = .var v

variable {V : Finset TyVar}

theorem Confines.trans (h : Confines V u u') (h' : Confines V u' u'') : Confines V u u'' :=
  ⟨fun t ht => h'.vars t (h.vars t ht), fun v hv he => h'.unbound v hv (h.unbound v hv he)⟩

theorem Alike.confines (h : u.Alike u') (V : Finset TyVar) : Confines V u u' where
  vars t ht := h.apply t ▸ ht
  unbound _ _ hv := (h.apply _).trans hv

theorem Covers.confines (h : u.Covers V) (hk : Confines V u u') : u'.Covers V := fun v hv => by
  by_contra hn
  exact hv (hk.unbound v hn (by_contra fun he => hn (h v he)))

theorem Ranges.confines (h : u.Ranges V t) (hg : u.Grows u') (hk : Confines V u u') : u'.Ranges V t :=
  ⟨h.below.mono hg.rows, hk.vars t h.vars⟩

theorem Head.ranges {h : Ty} (hh : u.Head t h) (ht : u.Ranges V t) : u.Ranges V h :=
  ⟨hh.below, hh.apply.symm ▸ ht.vars⟩

theorem Binds.confines (h : u.Binds u' v t) (hv : v ∈ V) (ht : ∀ w ∈ (u.apply t).vars, w ∈ V) :
    Confines V u u' where
  vars x hx w hw := by
    rw [h.apply, Ty.put, Ty.mem_vars_mapVars] at hw
    obtain ⟨y, hy, hw⟩ := hw
    split at hw
    · exact ht w hw
    · exact List.mem_singleton.1 hw ▸ hx y hy
  unbound w hw he := by
    rw [h.apply, he]
    exact if_neg fun e : w = v => hw (e ▸ hv)

theorem Links.confines {r : Except UnifyFailure (List Equation)} (h : u.Links v t r u') (hv : v ∈ V)
    (ht : ∀ w ∈ (u.apply t).vars, w ∈ V) :
    Confines V u u' ∧ ∀ es, r = .ok es → es = [] := by
  rcases h with ⟨-, hr, ha⟩ | ⟨-, rfl, hb⟩
  · exact ⟨ha.confines V, fun es he => by simp [he, Except.isOk, Except.toBool] at hr⟩
  · exact ⟨hb.confines hv ht, fun es he => by cases he; rfl⟩

theorem Ranges.fn {p r : Ty} {e : Row} (h : u.Ranges V (.fn p r e)) :
    u.Ranges V p ∧ u.Ranges V r ∧ e.Below u.rowCount := by
  obtain ⟨hp, hr, he⟩ := Ty.below_fn.1 h.below
  have hvars := h.vars
  simp only [apply_fn, Ty.vars, List.mem_append, or_imp, forall_and] at hvars
  exact ⟨⟨hp, hvars.1⟩, ⟨hr, hvars.2⟩, he⟩

theorem Ranges.tuple {items : List Ty} (h : u.Ranges V (.tuple items)) {t : Ty} (ht : t ∈ items) :
    u.Ranges V t :=
  ⟨Ty.below_tuple.1 h.below t ht, fun v hv => h.vars v (by
    rw [apply_tuple, Ty.vars, Ty.varsList_eq, List.flatMap_map]
    exact List.mem_flatMap.2 ⟨t, ht, hv⟩)⟩

theorem Ranges.named {name : String} {args : List Ty} (h : u.Ranges V (.named name args)) {t : Ty}
    (ht : t ∈ args) : u.Ranges V t :=
  Ranges.tuple ⟨h.below, fun v hv => h.vars v (by
    rw [apply_tuple] at hv
    rw [apply_named]
    exact hv)⟩ ht

theorem Ranges.ref {kind : BorrowKind} (h : u.Ranges V (.ref kind t)) : u.Ranges V t := ⟨h.below, h.vars⟩

/-- Whether the sides of an equation mention only row variables that were made, and only some type
variables are left in them. -/
def RangesIn (u : Unifier) (V : Finset TyVar) : Equation → Prop
  | .types a b => u.Ranges V a ∧ u.Ranges V b
  | .rows e f => e.Below u.rowCount ∧ f.Below u.rowCount

theorem RangesIn.confines {e : Equation} (h : u.RangesIn V e) (hg : u.Grows u') (hk : Confines V u u') :
    u'.RangesIn V e := by
  cases e with
  | types a b => exact ⟨h.1.confines hg hk, h.2.confines hg hk⟩
  | rows e f => exact ⟨h.1.mono hg.rows, h.2.mono hg.rows⟩

theorem rangesIn_zipWith {as bs : List Ty} (has : ∀ t ∈ as, u.Ranges V t)
    (hbs : ∀ t ∈ bs, u.Ranges V t) : ∀ e ∈ List.zipWith Equation.types as bs, u.RangesIn V e := by
  intro e he
  rw [← List.map_uncurry_zip_eq_zipWith, List.mem_map] at he
  obtain ⟨⟨a, b⟩, hab, rfl⟩ := he
  exact ⟨has a (List.of_mem_zip hab).1, hbs b (List.of_mem_zip hab).2⟩

/-- The parts of types range where the types do. -/
theorem rangesIn_parts (ha : u.Ranges V a) (hb : u.Ranges V b) {es : List Equation}
    (h : parts a b = some es) : ∀ e ∈ es, u.RangesIn V e := by
  unfold parts at h
  split at h
  · obtain ⟨hp, hr, he⟩ := ha.fn
    obtain ⟨hp', hr', he'⟩ := hb.fn
    cases h
    simp only [List.forall_mem_cons]
    exact ⟨⟨hp, hp'⟩, ⟨hr, hr'⟩, ⟨he, he'⟩, by simp⟩
  · split at h
    · cases h
      exact rangesIn_zipWith (fun _ => ha.tuple) fun _ => hb.tuple
    · cases h
  · split at h
    · cases h
      exact rangesIn_zipWith (fun _ => ha.named) fun _ => hb.named
    · cases h
  · split at h
    · cases h
      exact List.forall_mem_singleton.2 ⟨ha.ref, hb.ref⟩
    · cases h
  · split at h
    · cases h
      simp
    · cases h
  · cases h
    simp
  · cases h
    simp
  · cases h

/-- What holds of the state and the equations that a step comes to. -/
def Leaves (V : Finset TyVar) (u : Unifier) (r : Except UnifyFailure (List Equation))
    (u' : Unifier) : Prop :=
  Confines V u u' ∧ ∀ es, r = .ok es → ∀ e ∈ es, u'.RangesIn V e

theorem turn_leaves (hu : u.Valid) (hha : u.Head a a) (hhb : u.Head b b) (ha : u.Ranges V a)
    (hb : u.Ranges V b) : u.Does (turn a b).run (Leaves V u) := by
  have idle {m : SolveM (List Equation)} (h : u.Does m.run fun r u' => r = .ok [] ∧ u.Alike u') :
      u.Does m.run (Leaves V u) :=
    h.imp fun r u' _ hl => ⟨hl.2.confines V, fun es he => by
      cases hl.1.symm.trans he
      simp⟩
  have links {m : SolveM (List Equation)} {v : TyVar} {t : Ty} (h : u.Does m.run (u.Links v t))
      (hv : u.Ranges V (.var v)) (hhv : u.apply (.var v) = .var v) (ht : u.Ranges V t) :
      u.Does m.run (Leaves V u) :=
    h.imp fun r u' _ hl => by
      obtain ⟨hk, hr⟩ := hl.confines (hv.vars v (by rw [hhv]; simp [Ty.vars])) ht.vars
      exact ⟨hk, fun es he => by simp [hr es he]⟩
  rcases a.error_or_var_or_plain with rfl | ⟨v, rfl⟩ | hpa
  · exact idle (turn_error_left hu b)
  · by_cases he : b = .error
    · subst he
      exact idle (turn_error_right hu _)
    · by_cases hv : b = .var v
      · subst hv
        exact idle (turn_self hu v)
      · exact links (turn_var_left hu (hha.unbound v rfl) hhb.below he hv) ha (hha.unbound v rfl) hb
  · rcases b.error_or_var_or_plain with rfl | ⟨v, rfl⟩ | hpb
    · exact idle (turn_error_right hu _)
    · exact links (turn_var_right hu (hhb.unbound v rfl) hha.below hpa) hb (hhb.unbound v rfl) ha
    · refine (turn_plain hu hpa hpb).imp fun r u' hadv h => ?_
      obtain ⟨hs, hnone, hsome⟩ := h
      refine ⟨hs.confines V, fun es he => ?_⟩
      cases hparts : parts a b with
      | none => exact absurd (hnone hparts) (by simp [he, Except.isOk, Except.toBool])
      | some es' =>
        cases he.symm.trans (hsome es' hparts)
        exact fun e hmem => (rangesIn_parts ha hb hparts e hmem).confines hadv.toGrows (hs.confines V)

/-- What types stand for where only rows have changed. -/
theorem Grows.apply_of_types (h : u.Grows u') (hu : u.Valid)
    (ht : ∀ v, u'.substitution.type? v = u.substitution.type? v) (x : Ty) :
    u'.apply x = (u.apply x).mapVars .var u'.findRow := by
  refine (h.apply hu x).symm.trans (Ty.mapVars_congr (t := u.apply x) (fun v hv => ?_) fun _ _ => rfl)
  refine Substitution.apply_unbound (s := u'.substitution) ?_
  rw [ht]
  exact hu.acyclic.type?_of_mem_vars_apply hv

theorem SameApart.confines (h : SameApart u u') (hu : u.Valid) (hg : u.Grows u') (V : Finset TyVar) :
    Confines V u u' where
  vars t ht v hv := by
    rw [hg.apply_of_types hu h.type?, Ty.mem_vars_mapVars] at hv
    obtain ⟨w, hw, hv⟩ := hv
    exact List.mem_singleton.1 hv ▸ ht w hw
  unbound _ _ hv := by rw [hg.apply_of_types hu h.type?, hv, Ty.mapVars]

theorem Head.self {h : Ty} (hh : u.Head t h) : u.Head h h := ⟨rfl, hh.unbound, hh.below⟩

theorem Head.eq_error (hh : u.Head t t) (h : u.apply t = .error) : t = .error := by
  rcases t.error_or_var_or_plain with rfl | ⟨v, rfl⟩ | hp
  · rfl
  · exact absurd ((hh.unbound v rfl).symm.trans h) (by simp)
  · exact absurd h (hp.apply u).ne_error

theorem Head.eq_var (hh : u.Head t t) (h : u.apply t = .var v) : t = .var v := by
  rcases t.error_or_var_or_plain with rfl | ⟨w, rfl⟩ | hp
  · exact absurd h (by simp)
  · exact (hh.unbound w rfl).symm.trans h
  · exact absurd h ((hp.apply u).ne_var v)

/-- A step of an equation between types is the turn of their heads. -/
theorem step_types (hu : u.Valid) (ha : a.Below u.rowCount) (hb : b.Below u.rowCount) :
    ∃ a' b' u', (Equation.types a b).step.run u = (turn a' b').run u' ∧ u.Advances u' ∧
      u.Alike u' ∧ u'.Head a a' ∧ u'.Head b b' := by
  obtain ⟨h₁, hs₁, hha⟩ := find_alike hu ha
  obtain ⟨h₂, hs₂, hhb⟩ := find_alike h₁.valid (hb.mono h₁.rows)
  exact ⟨_, _, _, rfl, h₁.trans h₂, hs₁.trans hs₂, (hha.alike hs₁).alike hs₂, hhb.alike hs₂⟩

theorem step_leaves (hu : u.Valid) {e : Equation} (he : u.RangesIn V e) :
    u.Does e.step.run (Leaves V u) := by
  cases e with
  | types a b =>
    obtain ⟨a', b', u₁, hstep, h₁, hs₁, hha, hhb⟩ := step_types hu he.1.below he.2.below
    have hk := hs₁.confines V
    have hturn := turn_leaves h₁.valid hha.self hhb.self (hha.ranges (he.1.confines h₁.toGrows hk))
      (hhb.ranges (he.2.confines h₁.toGrows hk))
    rw [Does, show (Equation.types a b).step.run u = _ from hstep]
    exact ⟨h₁.trans hturn.1, hk.trans hturn.2.1, hturn.2.2⟩
  | rows e f =>
    have hdoes := solveRows_solves hu he.1 he.2
    refine Does.bind (f := ExceptT.bindCont fun _ => pure []) (m := (solveRows e f).run)
      (Q := fun _ u' => Confines V u u') ⟨hdoes.1, ?_⟩ fun r u' h hk => ?_
    · exact ((solveRows_changesRows e f).moves u).confines hu hdoes.1.toGrows V
    · cases r with
      | ok _ =>
        refine .pure h.valid ⟨hk, fun es he => ?_⟩
        cases he
        simp
      | error why => exact .pure h.valid ⟨hk, by simp⟩

end Unifier

namespace Equation

open Unifier

variable {u u' : Unifier} {V : Finset TyVar} {es : List Equation} {r : Except UnifyFailure Unit}

theorem Solving.confines (h : Solving es u r u') (hu : u.Valid) (hes : ∀ e ∈ es, u.RangesIn V e) :
    u.Advances u' ∧ Confines V u u' := by
  induction h with
  | @done u => exact ⟨hu.advances, (Alike.refl u).confines V⟩
  | fail hstep =>
    obtain ⟨hadv, hk, -⟩ := step_leaves hu (hes _ List.mem_cons_self)
    rw [hstep] at hadv hk
    exact ⟨hadv, hk⟩
  | next hstep _ ih =>
    obtain ⟨hadv, hk, hmore⟩ := step_leaves hu (hes _ List.mem_cons_self)
    rw [hstep] at hadv hk hmore
    obtain ⟨hadv', hk'⟩ := ih hadv.valid fun e he => (List.mem_append.1 he).elim (hmore _ rfl e)
      fun he => (hes e (List.mem_cons_of_mem _ he)).confines hadv.toGrows hk
    exact ⟨hadv.trans hadv', hk.trans hk'⟩

end Equation
end RowCheck
