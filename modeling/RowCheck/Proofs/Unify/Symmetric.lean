import RowCheck.Proofs.Unify.Descent
import RowCheck.Proofs.Unify.Mirror
import RowCheck.Proofs.Unify.Runs

/-!
Unification is symmetric. Where an equation is solved, the equation with its sides exchanged is, and the
states that this leads to are the same up to a renaming of type variables.
-/
namespace RowCheck

open Equation

namespace Unifier

variable {u u' w w' : Unifier} {π : Equiv.Perm TyVar} {v x : TyVar} {a a' b b' t t' : Ty}

/-! ## Sides that stand for the same -/

/-- Whether two types stand for the same, and mention only row variables that were made. -/
structure Twins (w : Unifier) (a a' : Ty) : Prop where
  apply : w.apply a' = w.apply a
  left : a.Below w.rowCount
  right : a'.Below w.rowCount

/-- Whether two rows stand for the same, and mention only row variables that were made. -/
structure RowTwins (w : Unifier) (e e' : Row) : Prop where
  findRow : w.findRow e' = w.findRow e
  left : e.Below w.rowCount
  right : e'.Below w.rowCount

/-- Whether an equation is another one with its sides exchanged, each side up to what it stands for. -/
inductive Exchanged (w : Unifier) : Equation → Equation → Prop
  | types {a a' b b' : Ty} : w.Twins a a' → w.Twins b b' → Exchanged w (.types a b) (.types b' a')
  | rows {e e' f f' : Row} : w.RowTwins e e' → w.RowTwins f f' →
    Exchanged w (.rows e f) (.rows f' e')

theorem Twins.grows (h : w.Twins a a') (hw : w.Valid) (hg : w.Grows w') : w'.Twins a a' where
  apply := hg.apply_eq hw h.apply
  left := h.left.mono hg.rows
  right := h.right.mono hg.rows

theorem Exchanged.grows {e e' : Equation} (h : w.Exchanged e e') (hw : w.Valid) (hg : w.Grows w') :
    w'.Exchanged e e' := by
  have rowTwins {e e' : Row} (h : w.RowTwins e e') : w'.RowTwins e e' :=
    ⟨by rw [← hg.findRow hw, h.findRow, hg.findRow hw], h.left.mono hg.rows, h.right.mono hg.rows⟩
  cases h with
  | types ha hb => exact .types (ha.grows hw hg) (hb.grows hw hg)
  | rows he hf => exact .rows (rowTwins he) (rowTwins hf)

/-- Heads of two types that stand for the same. -/
structure TwinHeads (w : Unifier) (a a' : Ty) : Prop extends w.Twins a a' where
  head : w.Head a' a'

theorem TwinHeads.error (h : w.TwinHeads .error a') : a' = .error := h.head.eq_error h.apply

theorem TwinHeads.plain (h : w.TwinHeads a a') (ha : a.Plain) : a'.Plain := by
  have happly := ha.apply w
  rw [← h.apply] at happly
  rcases a'.error_or_var_or_plain with rfl | ⟨v, rfl⟩ | hp
  · exact absurd rfl happly.ne_error
  · exact absurd (h.head.unbound v rfl) (happly.ne_var v)
  · exact hp

theorem TwinHeads.var (h : w.TwinHeads (.var v) a') (hm : Mirrors π u w)
    (hv : u.apply (.var v) = .var v) : a' = .var (π v) := by
  refine h.head.eq_var (h.apply.trans ?_)
  rw [hm.apply, hv]
  rfl

/-! ## Parts -/

/-- How two types that are no variables stand for the same: they have the same shape, and their parts
stand for the same. -/
inductive Shapes (w : Unifier) : Ty → Ty → Prop
  | prim (p : Primitive) : Shapes w (.prim p) (.prim p)
  | string : Shapes w .string .string
  | unit : Shapes w .unit .unit
  | ref (k : BorrowKind) {a a' : Ty} : w.Twins a a' → Shapes w (.ref k a) (.ref k a')
  | tuple {as as' : List Ty} : List.Forall₂ w.Twins as as' → Shapes w (.tuple as) (.tuple as')
  | named (name : String) {as as' : List Ty} : List.Forall₂ w.Twins as as' →
    Shapes w (.named name as) (.named name as')
  | fn {p p' r r' : Ty} {e e' : Row} : w.Twins p p' → w.Twins r r' → w.RowTwins e e' →
    Shapes w (.fn p r e) (.fn p' r' e')

theorem twins_of_map_eq : {as as' : List Ty} → as'.map w.apply = as.map w.apply →
    (∀ t ∈ as, t.Below w.rowCount) → (∀ t ∈ as', t.Below w.rowCount) → List.Forall₂ w.Twins as as'
  | [], [], _, _, _ => .nil
  | a :: as, a' :: as', h, ha, ha' => by
    simp only [List.map_cons, List.cons.injEq] at h
    simp only [List.forall_mem_cons] at ha ha'
    exact .cons ⟨h.1, ha.1, ha'.1⟩ (twins_of_map_eq h.2 ha.2 ha'.2)

theorem Twins.shapes (h : w.Twins a a') (ha : a.Plain) (ha' : a'.Plain) : w.Shapes a a' := by
  obtain ⟨happly, hl, hr⟩ := h
  cases a with
  | var v => exact absurd rfl (ha.ne_var v)
  | error => exact absurd rfl ha.ne_error
  | prim p => cases a' with
    | var v => exact absurd rfl (ha'.ne_var v)
    | prim q =>
      obtain rfl : q = p := Ty.prim.inj happly
      exact .prim q
    | _ => simp at happly
  | string => cases a' with
    | var v => exact absurd rfl (ha'.ne_var v)
    | string =>
      exact .string
    | _ => simp at happly
  | unit => cases a' with
    | var v => exact absurd rfl (ha'.ne_var v)
    | unit =>
      exact .unit
    | _ => simp at happly
  | ref k t => cases a' with
    | var v => exact absurd rfl (ha'.ne_var v)
    | ref k' t' =>
      simp only [apply_ref, Ty.ref.injEq] at happly
      obtain ⟨rfl, ht⟩ := happly
      exact .ref k' ⟨ht, hl, hr⟩
    | _ => simp at happly
  | tuple items => cases a' with
    | var v => exact absurd rfl (ha'.ne_var v)
    | tuple items' =>
      simp only [apply_tuple, Ty.tuple.injEq] at happly
      exact .tuple (twins_of_map_eq happly (Ty.below_tuple.1 hl) (Ty.below_tuple.1 hr))
    | _ => simp at happly
  | named name args => cases a' with
    | var v => exact absurd rfl (ha'.ne_var v)
    | named name' args' =>
      simp only [apply_named, Ty.named.injEq] at happly
      obtain ⟨rfl, hargs⟩ := happly
      exact .named name' (twins_of_map_eq hargs (Ty.below_named.1 hl) (Ty.below_named.1 hr))
    | _ => simp at happly
  | fn p r e => cases a' with
    | var v => exact absurd rfl (ha'.ne_var v)
    | fn p' r' e' =>
      simp only [apply_fn, Ty.fn.injEq] at happly
      obtain ⟨hp, hr', he⟩ := Ty.below_fn.1 hl
      obtain ⟨hp', hr'', he'⟩ := Ty.below_fn.1 hr
      exact .fn ⟨happly.1, hp, hp'⟩ ⟨happly.2.1, hr', hr''⟩ ⟨happly.2.2, he, he'⟩
    | _ => simp at happly

theorem exchanged_zipWith {as as' bs bs' : List Ty} (ha : List.Forall₂ w.Twins as as')
    (hb : List.Forall₂ w.Twins bs bs') :
    List.Forall₂ w.Exchanged (List.zipWith .types as bs) (List.zipWith .types bs' as') := by
  induction ha generalizing bs bs' with
  | nil => cases hb with
    | nil => exact .nil
    | cons => exact .nil
  | cons ha _ ih => cases hb with
    | nil => exact .nil
    | cons hb hbs => exact .cons (.types ha hb) (ih hbs)

theorem rel_of_iff {P Q : Prop} [Decidable P] [Decidable Q] {es es' : List Equation} (h : P ↔ Q)
    (hes : List.Forall₂ w.Exchanged es es') : Option.Rel (List.Forall₂ w.Exchanged)
      (if P then some es else none) (if Q then some es' else none) := by
  by_cases hp : P
  · rw [if_pos hp, if_pos (h.1 hp)]
    exact .some hes
  · rw [if_neg hp, if_neg (h.not.1 hp)]
    exact .none

/-- Two types come apart into the same equations from either side. -/
theorem parts_exchanged (ha : w.Shapes a a') (hb : w.Shapes b b') :
    Option.Rel (List.Forall₂ w.Exchanged) (parts a b) (parts b' a') := by
  cases ha with
  | prim p => cases hb with
    | prim q => exact rel_of_iff eq_comm .nil
    | _ => exact .none
  | string => cases hb with
    | string => exact .some .nil
    | _ => exact .none
  | unit => cases hb with
    | unit => exact .some .nil
    | _ => exact .none
  | ref k ht => cases hb with
    | ref k' ht' => exact rel_of_iff eq_comm (.cons (.types ht ht') .nil)
    | _ => exact .none
  | tuple has => cases hb with
    | tuple hbs =>
      refine rel_of_iff ?_ (exchanged_zipWith has hbs)
      rw [has.length_eq, hbs.length_eq, eq_comm]
    | _ => exact .none
  | named name has => cases hb with
    | named name' hbs =>
      refine rel_of_iff (and_congr eq_comm ?_) (exchanged_zipWith has hbs)
      rw [has.length_eq, hbs.length_eq, eq_comm]
    | _ => exact .none
  | fn hp hr he => cases hb with
    | fn hp' hr' he' =>
      exact .some (.cons (.types hp hp') (.cons (.types hr hr') (.cons (.rows he he') .nil)))
    | _ => exact .none

/-! ## Turns from either side -/

/-- How a step and its mirror image come out: both fail, or both leave equations, the same up to an
exchange of their sides. -/
inductive Outcomes (w : Unifier) :
    Except UnifyFailure (List Equation) → Except UnifyFailure (List Equation) → Prop
  | failed {r r' : Except UnifyFailure (List Equation)} : r.isOk = false → r'.isOk = false →
    Outcomes w r r'
  | left {es es' : List Equation} : List.Forall₂ w.Exchanged es es' → Outcomes w (.ok es) (.ok es')

/-- Whether a step in one state and a step in another come to states and results that mirror each
other. -/
structure Mirroring (u w : Unifier) (m m' : SolveM (List Equation)) : Prop where
  advances : u.Advances (m.run u).2
  advances' : w.Advances (m'.run w).2
  mirrors : ∃ π, Mirrors π (m.run u).2 (m'.run w).2
  outcomes : Outcomes (m'.run w).2 (m.run u).1 (m'.run w).1

variable {m m' : SolveM (List Equation)}

theorem Mirrors.idle (h : Mirrors π u w) (hm : u.Does m.run fun r u' => r = .ok [] ∧ u.Alike u')
    (hm' : w.Does m'.run fun r w' => r = .ok [] ∧ w.Alike w') : Mirroring u w m m' where
  advances := hm.1
  advances' := hm'.1
  mirrors := ⟨π, h.alike hm.2.2 hm'.2.2⟩
  outcomes := by
    rw [hm.2.1, hm'.2.1]
    exact .left .nil

theorem Mirrors.links (h : Mirrors π u w) (ht : w.apply t' = (u.apply t).renamed π id)
    (hm : u.Does m.run (u.Links v t)) (hm' : w.Does m'.run (w.Links (π v) t')) :
    Mirroring u w m m' := by
  have hvars : π v ∈ (w.apply t').vars ↔ v ∈ (u.apply t).vars := by
    rw [ht, Ty.vars_renamed, List.mem_map_of_injective π.injective]
  rcases hm.2 with ⟨hv, hr, ha⟩ | ⟨hv, hr, hb⟩
  · rcases hm'.2 with ⟨-, hr', ha'⟩ | ⟨hv', -⟩
    · exact ⟨hm.1, hm'.1, ⟨π, h.alike ha ha'⟩, .failed hr hr'⟩
    · exact absurd (hvars.2 hv) hv'
  · rcases hm'.2 with ⟨hv', -⟩ | ⟨-, hr', hb'⟩
    · exact absurd (hvars.1 hv') hv
    · refine ⟨hm.1, hm'.1, ⟨π, h.binds ht hb hb'⟩, ?_⟩
      rw [hr, hr']
      exact .left .nil

/-- An unbound variable is bound to another one, and the other way round in the mirror image. -/
theorem Mirrors.linksVars (h : Mirrors π u w) (hw : w.Valid) (hv : u.apply (.var v) = .var v)
    (hx : u.apply (.var x) = .var x) (hne : v ≠ x) (hm : u.Does m.run (u.Links v (.var x)))
    (hm' : w.Does m'.run (w.Links (π x) (.var (π v)))) : Mirroring u w m m' := by
  rcases hm.2 with ⟨hmem, -⟩ | ⟨-, hr, hb⟩
  · rw [hx] at hmem
    exact absurd (List.mem_singleton.1 hmem) hne
  · rcases hm'.2 with ⟨hmem, -⟩ | ⟨-, hr', hb'⟩
    · rw [h.unbound hw hv] at hmem
      exact absurd (π.injective (List.mem_singleton.1 hmem)) hne.symm
    · refine ⟨hm.1, hm'.1, ⟨_, h.exchange hw hv hx hne hb hb'⟩, ?_⟩
      rw [hr, hr']
      exact .left .nil

/-- A turn mirrors the turn with the sides exchanged. -/
theorem Mirrors.turn (h : Mirrors π u w) (hu : u.Valid) (hw : w.Valid) (hha : u.Head a a)
    (hhb : u.Head b b) (ha : w.TwinHeads a a') (hb : w.TwinHeads b b') :
    Mirroring u w (turn a b) (turn b' a') := by
  have happly {t t' : Ty} (ht : w.TwinHeads t t') : w.apply t' = (u.apply t).renamed π id :=
    ht.apply.trans (h.apply t)
  rcases a.error_or_var_or_plain with rfl | ⟨v, rfl⟩ | hpa
  · obtain rfl := ha.error
    exact h.idle (turn_error_left hu b) (turn_error_right hw b')
  · have hv := hha.unbound v rfl
    obtain rfl := ha.var h hv
    have hv' := h.unbound hw hv
    rcases b.error_or_var_or_plain with rfl | ⟨x, rfl⟩ | hpb
    · obtain rfl := hb.error
      exact h.idle (turn_error_right hu _) (turn_error_left hw _)
    · have hx := hhb.unbound x rfl
      obtain rfl := hb.var h hx
      by_cases hvx : v = x
      · subst hvx
        exact h.idle (turn_self hu v) (turn_self hw (π v))
      · refine h.linksVars hw hv hx hvx (turn_var_left hu hv hhb.below (by simp) ?_)
          (turn_var_left hw (h.unbound hw hx) ha.right (by simp) ?_)
        · exact fun e => hvx (Ty.var.inj e).symm
        · exact fun e => hvx (π.injective (Ty.var.inj e))
    · refine h.links (happly hb) (turn_var_left hu hv hhb.below hpb.ne_error (hpb.ne_var v))
        (turn_var_right hw hv' hb.right (hb.plain hpb))
  · have hpa' := ha.plain hpa
    rcases b.error_or_var_or_plain with rfl | ⟨x, rfl⟩ | hpb
    · obtain rfl := hb.error
      exact h.idle (turn_error_right hu _) (turn_error_left hw _)
    · have hx := hhb.unbound x rfl
      obtain rfl := hb.var h hx
      exact h.links (happly ha) (turn_var_right hu hx hha.below hpa)
        (turn_var_left hw (h.unbound hw hx) ha.right hpa'.ne_error (hpa'.ne_var _))
    · have hpb' := hb.plain hpb
      obtain ⟨hadv, hs, hnone, hsome⟩ := turn_plain hu hpa hpb
      obtain ⟨hadv', hs', hnone', hsome'⟩ := turn_plain hw hpb' hpa'
      refine ⟨hadv, hadv', ⟨π, h.alike hs hs'⟩, ?_⟩
      have hparts := parts_exchanged (ha.toTwins.shapes hpa hpa') (hb.toTwins.shapes hpb hpb')
      cases hl : parts a b with
      | none => cases hr : parts b' a' with
        | none => exact .failed (hnone hl) (hnone' hr)
        | some es' =>
          rw [hl, hr] at hparts
          cases hparts
      | some es => cases hr : parts b' a' with
        | none =>
          rw [hl, hr] at hparts
          cases hparts
        | some es' =>
          rw [hl, hr] at hparts
          rw [hsome es hl, hsome' es' hr]
          cases hparts with
          | some hes => exact .left (hes.imp fun _ _ he => he.grows hw hadv'.toGrows)

theorem Mirrors.twinHeads (h : Mirrors π u w) (ht : w.Twins a a') (hh : u.Head a t)
    (hh' : w.Head a' t') : w.TwinHeads t t' where
  apply := by rw [hh'.apply, ht.apply, h.apply, h.apply, hh.apply]
  left := h.rowCount ▸ hh.below
  right := hh'.below
  head := hh'.self

/-- Actions that fail alike mirror each other, whatever they leave. -/
theorem Mirroring.of_actions {m m' : SolveM Unit} (hadv : u.Advances (m.run u).2)
    (hadv' : w.Advances (m'.run w).2) (hm : Mirrors π (m.run u).2 (m'.run w).2)
    (hok : (m'.run w).1.isOk = (m.run u).1.isOk) :
    Mirroring u w (m >>= fun _ => pure []) (m' >>= fun _ => pure []) := by
  refine ⟨?_, ?_, ⟨π, ?_⟩, ?_⟩
  · rwa [run_leave]
  · rwa [run_leave]
  · rwa [run_leave, run_leave]
  · rw [run_leave, run_leave]
    cases hr : (m.run u).1 with
    | ok _ => cases hr' : (m'.run w).1 with
      | ok _ => exact .left .nil
      | error _ => simp [hr, hr', Except.isOk, Except.toBool] at hok
    | error _ => cases hr' : (m'.run w).1 with
      | ok _ => simp [hr, hr', Except.isOk, Except.toBool] at hok
      | error _ => exact .failed rfl rfl

/-- A step mirrors the step with the sides exchanged. -/
theorem Mirrors.step (h : Mirrors π u w) (hu : u.Valid) (hw : w.Valid) {e e' : Equation}
    (he : w.Exchanged e e') : Mirroring u w e.step e'.step := by
  cases he with
  | @types a a' b b' ha hb =>
    obtain ⟨a₁, b₁, u₁, hstep, hg, hs, hha, hhb⟩ :=
      step_types hu (h.rowCount ▸ ha.left) (h.rowCount ▸ hb.left)
    obtain ⟨b₂, a₂, w₁, hstep', hg', hs', hhb', hha'⟩ := step_types hw hb.right ha.right
    have hmir := h.alike hs hs'
    have hturn := hmir.turn hg.valid hg'.valid hha.self hhb.self
      (hmir.twinHeads (ha.grows hw hg'.toGrows) hha hha')
      (hmir.twinHeads (hb.grows hw hg'.toGrows) hhb hhb')
    constructor
    · rw [hstep]
      exact hg.trans hturn.advances
    · rw [hstep']
      exact hg'.trans hturn.advances'
    · rw [hstep, hstep']
      exact hturn.mirrors
    · rw [hstep, hstep']
      exact hturn.outcomes
  | @rows e e' f f' he hf =>
    have hn := h.rowCount
    obtain ⟨hmir, hok⟩ := h.solveRows hu hw (hn ▸ he.left) (hn ▸ hf.left) (hn ▸ he.right)
      (hn ▸ hf.right) he.findRow hf.findRow
    exact .of_actions (solveRows_solves hu (hn ▸ he.left) (hn ▸ hf.left)).1
      (solveRows_solves hw hf.right he.right).1 hmir hok

/-! ## Runs from either side -/

/-- Solving equations mirrors solving them with their sides exchanged. -/
theorem Mirrors.run {es es' : List Equation} {r : Except UnifyFailure Unit}
    (hrun : Solving es u r u') (h : Mirrors π u w) (hu : u.Valid) (hw : w.Valid)
    (hes : List.Forall₂ w.Exchanged es es') :
    ∃ ρ r' w', Solving es' w r' w' ∧ Mirrors ρ u' w' ∧ r'.isOk = r.isOk := by
  induction hrun generalizing π w es' with
  | done =>
    cases hes
    exact ⟨π, _, w, .done, h, rfl⟩
  | @fail e es u u' why hstep =>
    obtain ⟨e', es', he, -, rfl⟩ := List.forall₂_cons_left_iff.1 hes
    obtain ⟨-, -, ⟨ρ, hm⟩, hout⟩ := h.step hu hw he
    rw [hstep] at hm hout
    generalize hstep' : e'.step.run w = p at hm hout
    obtain ⟨r', w'⟩ := p
    cases hout with
    | failed _ hr' => cases r' with
      | ok _ => cases hr'
      | error why' => exact ⟨ρ, _, w', .fail hstep', hm, rfl⟩
  | @next e es more u u₁ u' r hstep _ ih =>
    obtain ⟨e', es', he, htail, rfl⟩ := List.forall₂_cons_left_iff.1 hes
    obtain ⟨hadv, hadv', ⟨ρ, hm⟩, hout⟩ := h.step hu hw he
    rw [hstep] at hadv hm hout
    generalize hstep' : e'.step.run w = p at hadv' hm hout
    obtain ⟨r', w₁⟩ := p
    cases hout with
    | failed hr _ => cases hr
    | left hmore =>
      have hrest : List.Forall₂ w₁.Exchanged es es' :=
        htail.imp fun _ _ he => he.grows hw hadv'.toGrows
      obtain ⟨σ, s, w', hrun', hm', hok⟩ :=
        ih hm hadv.valid hadv'.valid (List.rel_append hmore hrest)
      exact ⟨σ, s, w', .next hstep' hrun', hm', hok⟩

/-- Solving an equation mirrors solving it with the sides exchanged. -/
theorem solve_mirrors (hu : u.Valid) (ha : a.Below u.rowCount) (hb : b.Below u.rowCount) :
    ∃ π, Mirrors π ((solve a b).run u).2 ((solve b a).run u).2 ∧
      ((solve b a).run u).1.isOk = ((solve a b).run u).1.isOk := by
  have hes : List.Forall₂ u.Exchanged [.types a b] [.types b a] :=
    .cons (.types ⟨rfl, ha, ha⟩ ⟨rfl, hb, hb⟩) .nil
  obtain ⟨π, r, w, hrun, hm, hok⟩ := Mirrors.run (solve_works hu ha hb) (.refl u) hu hu hes
  obtain ⟨rfl, rfl⟩ := hrun.unique (solve_works hu hb ha)
  exact ⟨π, hm, hok⟩

/-- Requiring an equation reports as much as requiring it with the sides exchanged. Where it reports
nothing, the states that come of it mirror each other. -/
theorem unify_mirrors (hu : u.Valid) (ha : a.Below u.rowCount) (hb : b.Below u.rowCount)
    (why why' : Provenance) :
    (unify b a why' u).2.errors.length = (unify a b why u).2.errors.length ∧
      ((unify a b why u).2.errors = u.errors →
        ∃ π, Mirrors π (unify a b why u).2 (unify b a why' u).2) := by
  obtain ⟨π, hm, hok⟩ := solve_mirrors hu ha hb
  have hgrows := (kept_bounds.solve hu ha hb).1
  rcases unify_outcome u a b why with ⟨h, hr⟩ | ⟨h, hr⟩
  · rcases unify_outcome u b a why' with ⟨h', -⟩ | ⟨-, hr'⟩
    · rw [h, h']
      exact ⟨hm.errors, fun _ => ⟨π, hm⟩⟩
    · rw [hok, hr] at hr'
      cases hr'
  · rcases unify_outcome u b a why' with ⟨-, hr'⟩ | ⟨h', -⟩
    · rw [hok, hr] at hr'
      cases hr'
    · refine ⟨by rw [h, h', hm.errors], fun he => ?_⟩
      have := hgrows.errors.length_le
      rw [he] at h
      omega

/-- A variable is bound in one of two states that mirror each other if its image is in the other. -/
theorem Mirrors.type?_eq_none_iff (h : Mirrors π u w) (hu : u.Valid) (hw : w.Valid) (v : TyVar) :
    w.substitution.type? (π v) = none ↔ u.substitution.type? v = none := by
  rw [hw.acyclic.type?_eq_none_iff, hu.acyclic.type?_eq_none_iff]
  refine ⟨fun hv => ?_, h.unbound hw⟩
  have hback : u.apply (.var (π v)) = .var v :=
    Ty.renamed_eq_var.1 ((h.apply _).symm.trans hv)
  rw [← hback]
  exact hu.acyclic.apply_apply _

end Unifier

/-- Unification is symmetric: in every reachable state, an equation is reported if and only if the
equation with its sides exchanged is. If neither is, a permutation of type variables takes the unbound
variables of one state afterwards to those of the other, what types stand for in one to what they stand
for in the other, and the bounds of one to those of the other. Row variables are the same in both. -/
theorem unify_symmetric {u : Unifier} (hu : u.Reachable) {a b : Ty} (ha : a.Below u.rowCount)
    (hb : b.Below u.rowCount) (why why' : Provenance) :
    ((Unifier.unify a b why u).2.errors = u.errors ↔
      (Unifier.unify b a why' u).2.errors = u.errors) ∧
    ((Unifier.unify a b why u).2.errors = u.errors → ∃ π : Equiv.Perm TyVar,
      (∀ v, (Unifier.unify b a why' u).2.substitution.type? (π v) = none ↔
        (Unifier.unify a b why u).2.substitution.type? v = none) ∧
      (Unifier.unify b a why' u).2.substitution.rows =
        (Unifier.unify a b why u).2.substitution.rows ∧
      (∀ t, (Unifier.unify b a why' u).2.apply t =
        ((Unifier.unify a b why u).2.apply t).renamed π id) ∧
      ∀ v, ((Unifier.unify b a why' u).2.numeric.get? (π v)).isSome =
        ((Unifier.unify a b why u).2.numeric.get? v).isSome) := by
  have hadv := (Unifier.unify_does hu.valid ha hb why).1
  have hadv' := (Unifier.unify_does hu.valid hb ha why').1
  obtain ⟨hlen, hmirrors⟩ := Unifier.unify_mirrors hu.valid ha hb why why'
  refine ⟨⟨fun he => ?_, fun he => ?_⟩, fun he => ?_⟩
  · rw [he] at hlen
    exact (hadv'.errors.eq_of_length hlen.symm).symm
  · rw [he] at hlen
    exact (hadv.errors.eq_of_length hlen).symm
  · obtain ⟨π, hm⟩ := hmirrors he
    exact ⟨π, hm.type?_eq_none_iff hadv.valid hadv'.valid, hm.rows, hm.apply, hm.numeric⟩

/-- Two functions between which a bound moves: from either side another parameter is bound, and the one
that is left has the bound. -/
theorem functions_unify_symmetric :
    let why : Provenance := .of .synthetic .letType
    let u := PassOp.run .empty
      [.freshTypeVar, .freshTypeVar, .freshRowVar, .requireNumeric (.var 0) why]
    let a := Ty.fn (.var 0) .unit (.ofVar 0)
    let b := Ty.fn (.var 1) .unit (.closed ["io"])
    let left := (Unifier.unify a b why u).2
    let right := (Unifier.unify b a why u).2
    left.errors = u.errors ∧ left.apply a = .fn (.var 1) .unit (.closed ["io"]) ∧
      right.apply a = .fn (.var 0) .unit (.closed ["io"]) ∧
      ∃ π : Equiv.Perm TyVar, (∀ t, right.apply t = (left.apply t).renamed π id) ∧
        ∀ v, (right.numeric.get? (π v)).isSome = (left.numeric.get? v).isSome := by
  intro why u a b left right
  have hu : u.Reachable :=
    Unifier.reachable_run ⟨trivial, trivial, trivial, Ty.below_of_effects_eq_nil rfl, trivial⟩
  have hleft : left.errors = u.errors := List.eq_nil_of_length_eq_zero (by decide +kernel)
  obtain ⟨π, -, -, happly, hnumeric⟩ :=
    (unify_symmetric hu (a := a) (b := b) (by decide +kernel) (by decide +kernel) why why).2 hleft
  exact ⟨hleft, by decide +kernel, by decide +kernel, π, happly, hnumeric⟩

end RowCheck
