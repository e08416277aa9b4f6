import RowCheck.Proofs.Unify.Descent

/-!
What solving an equation comes to. Where the solver succeeds, both sides stand for one type from
then on, apart from the types of failed expressions, which are taken for any type. Where it fails,
the sides stand for types that differ, and by more than what a discerning relation overlooks.
-/
namespace RowCheck

namespace Ty

mutual

/-- Whether two types are the same wherever neither of them is that of a failed expression. -/
def Matches : Ty → Ty → Prop
  | error, _ => True
  | fn p r e, b => b = error ∨ ∃ p' r', b = fn p' r' e ∧ p.Matches p' ∧ r.Matches r'
  | tuple items, b => b = error ∨ ∃ items', b = tuple items' ∧ MatchesAll items items'
  | named name args, b => b = error ∨ ∃ args', b = named name args' ∧ MatchesAll args args'
  | ref kind inner, b => b = error ∨ ∃ inner', b = ref kind inner' ∧ inner.Matches inner'
  | var v, b => b = error ∨ b = var v
  | prim p, b => b = error ∨ b = prim p
  | string, b => b = error ∨ b = string
  | unit, b => b = error ∨ b = unit

def MatchesAll : List Ty → List Ty → Prop
  | [], bs => bs = []
  | a :: as, bs => ∃ b bs', bs = b :: bs' ∧ a.Matches b ∧ MatchesAll as bs'

end

theorem matchesAll_iff {as bs : List Ty} : MatchesAll as bs ↔ List.Forall₂ Matches as bs := by
  induction as generalizing bs with
  | nil => rw [MatchesAll, List.forall₂_nil_left_iff]
  | cons a as ih =>
    rw [MatchesAll, List.forall₂_cons_left_iff]
    constructor
    · rintro ⟨b, bs', rfl, hab, hrest⟩
      exact ⟨b, bs', hab, ih.1 hrest, rfl⟩
    · rintro ⟨b, bs', hab, hrest, rfl⟩
      exact ⟨b, bs', rfl, hab, ih.2 hrest⟩

@[simp] theorem matches_error_left (b : Ty) : Matches error b := by
  rw [Matches]
  trivial

@[simp] theorem matches_error_right (a : Ty) : a.Matches error := by
  cases a with
  | error => exact matches_error_left _
  | _ => exact .inl rfl

theorem matches_fn {p r p' r' : Ty} {e : Row} (hp : p.Matches p') (hr : r.Matches r') :
    (fn p r e).Matches (fn p' r' e) := .inr ⟨p', r', rfl, hp, hr⟩

theorem matches_tuple {items items' : List Ty} (h : List.Forall₂ Matches items items') :
    (tuple items).Matches (tuple items') := .inr ⟨items', rfl, matchesAll_iff.2 h⟩

theorem matches_named {name : String} {args args' : List Ty} (h : List.Forall₂ Matches args args') :
    (named name args).Matches (named name args') := .inr ⟨args', rfl, matchesAll_iff.2 h⟩

theorem matches_ref {kind : BorrowKind} {a b : Ty} (h : a.Matches b) :
    (ref kind a).Matches (ref kind b) := .inr ⟨b, rfl, h⟩

mutual

theorem matches_refl : (t : Ty) → t.Matches t
  | error => matches_error_left _
  | fn p r _ => matches_fn (matches_refl p) (matches_refl r)
  | tuple items => matches_tuple (forall₂_matches_refl items)
  | named _ args => matches_named (forall₂_matches_refl args)
  | ref _ inner => matches_ref (matches_refl inner)
  | var _ => .inr rfl
  | prim _ => .inr rfl
  | string => .inr rfl
  | unit => .inr rfl

theorem forall₂_matches_refl : (ts : List Ty) → List.Forall₂ Matches ts ts
  | [] => .nil
  | t :: ts => .cons (matches_refl t) (forall₂_matches_refl ts)

end

mutual

/-- Types that match still do when their variables are replaced. -/
theorem Matches.mapVars (f : TyVar → Ty) (g : Row → Row) : {a : Ty} → {b : Ty} → a.Matches b →
    (a.mapVars f g).Matches (b.mapVars f g)
  | error, b, _ => matches_error_left _
  | fn p r e, b, h => by
    rcases h with rfl | ⟨p', r', rfl, hp, hr⟩
    · exact matches_error_right _
    · exact matches_fn (hp.mapVars f g) (hr.mapVars f g)
  | tuple items, b, h => by
    rcases h with rfl | ⟨items', rfl, h⟩
    · exact matches_error_right _
    · rw [Ty.mapVars, Ty.mapVars, mapVarsList_eq_map, mapVarsList_eq_map]
      exact matches_tuple (h.mapVars f g)
  | named name args, b, h => by
    rcases h with rfl | ⟨args', rfl, h⟩
    · exact matches_error_right _
    · rw [Ty.mapVars, Ty.mapVars, mapVarsList_eq_map, mapVarsList_eq_map]
      exact matches_named (h.mapVars f g)
  | ref kind inner, b, h => by
    rcases h with rfl | ⟨inner', rfl, h⟩
    · exact matches_error_right _
    · exact matches_ref (h.mapVars f g)
  | var v, b, h => by
    rcases h with rfl | rfl
    · exact matches_error_right _
    · exact matches_refl _
  | prim p, b, h => by
    rcases h with rfl | rfl
    · exact matches_error_right _
    · exact matches_refl _
  | string, b, h => by
    rcases h with rfl | rfl
    · exact matches_error_right _
    · exact matches_refl _
  | unit, b, h => by
    rcases h with rfl | rfl
    · exact matches_error_right _
    · exact matches_refl _

theorem MatchesAll.mapVars (f : TyVar → Ty) (g : Row → Row) : {as : List Ty} → {bs : List Ty} →
    MatchesAll as bs → List.Forall₂ Matches (as.map (Ty.mapVars f g)) (bs.map (Ty.mapVars f g))
  | [], bs, h => by
    obtain rfl : bs = [] := h
    exact .nil
  | a :: as, bs, h => by
    obtain ⟨b, bs', rfl, hab, hrest⟩ := h
    exact .cons (hab.mapVars f g) (hrest.mapVars f g)

end

end Ty

namespace Unifier

theorem apply_matches {u : Unifier} {a b : Ty} (h : a.Matches b) :
    (u.apply a).Matches (u.apply b) := by
  rw [apply, apply, Substitution.apply_eq_mapVars, Substitution.apply_eq_mapVars]
  exact h.mapVars _ _

/-- Sides that match still do later. -/
theorem Grows.matches {u u' : Unifier} (hg : u.Grows u') (hu : u.Valid) {a b : Ty}
    (h : (u.apply a).Matches (u.apply b)) : (u'.apply a).Matches (u'.apply b) := by
  rw [← hg.apply hu a, ← hg.apply hu b]
  exact apply_matches h

end Unifier

namespace Equation

open Unifier

/-- Whether the sides of an equation are types, or rows, in some relation. -/
def Relates (R : Ty → Ty → Prop) (Q : Row → Row → Prop) : Equation → Prop
  | .types a b => R a b
  | .rows e f => Q e f

/-- An equation between what the sides of another one stand for. -/
def under (u : Unifier) : Equation → Equation
  | .types a b => .types (u.apply a) (u.apply b)
  | .rows e f => .rows (u.findRow e) (u.findRow f)

/-- Whether the sides of an equation stand for types, or for rows, in some relation. -/
def Holds (R : Ty → Ty → Prop) (Q : Row → Row → Prop) (u : Unifier) (e : Equation) : Prop :=
  (e.under u).Relates R Q

variable {R : Ty → Ty → Prop} {Q : Row → Row → Prop} {u u' v : Unifier} {a b : Ty}
  {es : List Equation} {e : Equation}

theorem holds_types : (types a b).Holds R Q u ↔ R (u.apply a) (u.apply b) := Iff.rfl

/-- The parts of what types stand for are what their parts stand for. -/
theorem parts_apply (ha : a.Plain) (hb : b.Plain) :
    parts (u.apply a) (u.apply b) = (parts a b).map (List.map (under u)) := by
  have each : ∀ as bs : List Ty, List.zipWith types (as.map u.apply) (bs.map u.apply) =
      (List.zipWith types as bs).map (under u) := by
    intro as bs
    rw [List.zipWith_map, List.map_zipWith]
    rfl
  cases a with
  | var v => exact absurd rfl (ha.ne_var v)
  | error => exact absurd rfl ha.ne_error
  | _ => cases b with
    | var v => exact absurd rfl (hb.ne_var v)
    | error => exact absurd rfl hb.ne_error
    | _ => simp [parts, each, under, apply_ite]

theorem relates_zipWith {as bs : List Ty} (hlen : as.length = bs.length) :
    (∀ e ∈ List.zipWith types as bs, e.Relates R Q) ↔ List.Forall₂ R as bs := by
  induction as generalizing bs with
  | nil =>
    obtain rfl := List.length_eq_zero_iff.1 hlen.symm
    simp
  | cons a as ih =>
    obtain ⟨b, bs, rfl⟩ := List.exists_cons_of_length_eq_add_one hlen.symm
    rw [List.zipWith_cons_cons, List.forall_mem_cons, ih (Nat.succ.inj hlen), List.forall₂_cons]
    exact Iff.rfl

/-- Two types match where their parts do. -/
theorem matches_of_parts (h : parts a b = some es) (hes : ∀ e ∈ es, e.Relates Ty.Matches Eq) :
    a.Matches b := by
  unfold parts at h
  split at h
  · cases h
    simp only [List.forall_mem_cons] at hes
    obtain ⟨hp, hr, rfl, -⟩ := hes
    exact Ty.matches_fn hp hr
  · split at h
    · rename_i hlen
      cases h
      exact Ty.matches_tuple ((relates_zipWith hlen).1 hes)
    · cases h
  · split at h
    · rename_i heq
      cases h
      rw [heq.1]
      exact Ty.matches_named ((relates_zipWith heq.2).1 hes)
    · cases h
  · split at h
    · rename_i hkind
      cases h
      rw [hkind]
      exact Ty.matches_ref (hes _ List.mem_cons_self)
    · cases h
  · split at h
    · rename_i hpq
      rw [hpq]
      exact Ty.matches_refl _
    · cases h
  · exact Ty.matches_refl _
  · exact Ty.matches_refl _
  · cases h

theorem matches_of_holds (ha : a.Plain) (hb : b.Plain) (h : parts a b = some es)
    (hes : ∀ e ∈ es, e.Holds Ty.Matches Eq u) : (u.apply a).Matches (u.apply b) := by
  have hparts := parts_apply (u := u) ha hb
  rw [h] at hparts
  exact matches_of_parts hparts (List.forall_mem_map.2 hes)

/-- A type is taken apart with itself, into parts that are the same. -/
theorem parts_self (ha : a.Plain) : ∃ es, parts a a = some es ∧ ∀ e ∈ es, e.Relates Eq Eq := by
  cases a with
  | var v => exact absurd rfl (ha.ne_var v)
  | error => exact absurd rfl ha.ne_error
  | fn p r e => simp [parts, Relates]
  | tuple items =>
    exact ⟨_, if_pos rfl, (relates_zipWith rfl).2 (List.forall₂_same.2 fun _ _ => rfl)⟩
  | named name args =>
    exact ⟨_, if_pos ⟨rfl, rfl⟩, (relates_zipWith rfl).2 (List.forall₂_same.2 fun _ _ => rfl)⟩
  | ref kind inner => exact ⟨_, if_pos rfl, List.forall_mem_singleton.2 rfl⟩
  | prim p => exact ⟨_, if_pos rfl, List.forall_mem_nil _⟩
  | _ => exact ⟨_, rfl, List.forall_mem_nil _⟩

/-- Relations of types and of rows that hold of the parts of types as well, and never of what cannot
be made equal: types of different shapes, a variable and a type that it occurs in, and rows that
clash. -/
structure Discerning (R : Ty → Ty → Prop) (Q : Row → Row → Prop) : Prop where
  parts : ∀ {a b : Ty}, a.Plain → b.Plain → R a b →
    ∃ es, parts a b = some es ∧ ∀ e ∈ es, e.Relates R Q
  occurs : ∀ {v : TyVar} {t : Ty}, v ∈ t.vars → t ≠ .var v → ¬ R (.var v) t ∧ ¬ R t (.var v)
  rows : ∀ {s : Substitution} {r r' : Row}, s.level r r' = none → ¬ Q r r'

theorem discerning_eq : Discerning Eq Eq where
  parts ha _ h := h ▸ parts_self ha
  occurs _ hne := ⟨fun h => hne h.symm, hne⟩
  rows {s r r'} h heq := by
    rw [heq, Substitution.level_self] at h
    cases h

/-- What types stand for is taken apart as they are, if it is related. -/
theorem Discerning.parts_apply (hd : Discerning R Q) (ha : a.Plain) (hb : b.Plain)
    (h : R (u.apply a) (u.apply b)) :
    ∃ es, Equation.parts a b = some es ∧ ∀ e ∈ es, e.Holds R Q u := by
  obtain ⟨es', hparts, hes⟩ := hd.parts (ha.apply u) (hb.apply u) h
  rw [Equation.parts_apply ha hb, Option.map_eq_some_iff] at hparts
  obtain ⟨es, hes', rfl⟩ := hparts
  exact ⟨es, hes', fun e he => hes _ (List.mem_map_of_mem he)⟩

/-- What the outcome of a step tells of its equation: that its sides match later if those of the
equations that are left do, that a discerning relation of its sides holds of theirs, and that it
does not hold of its sides if the step fails. -/
structure Tells (R : Ty → Ty → Prop) (Q : Row → Row → Prop) (e : Equation)
    (r : Except UnifyFailure (List Equation)) (u' : Unifier) : Prop where
  matching : ∀ es, r = .ok es → ∀ v, u'.Grows v → (∀ d ∈ es, d.Holds Ty.Matches Eq v) →
    e.Holds Ty.Matches Eq v
  related : ∀ es, r = .ok es → ∀ v, u'.Grows v → e.Holds R Q v → ∀ d ∈ es, d.Holds R Q v
  differ : r.isOk = false → ¬ e.Holds R Q u'

variable {r : Except UnifyFailure (List Equation)}

/-- An equation is decided by a step that leaves none. -/
theorem tells_of_holds (hu : u'.Valid) (hr : r = .ok []) (h : e.Holds Ty.Matches Eq u') :
    e.Tells R Q r u' := by
  refine ⟨fun es _ v hv _ => ?_, fun es he => ?_, fun hf => ?_⟩
  · cases e with
    | types a b => exact hv.matches hu h
    | rows e f =>
      show v.findRow e = v.findRow f
      rw [← hv.findRow hu e, ← hv.findRow hu f, show u'.findRow e = u'.findRow f from h]
  · cases hr.symm.trans he
    exact fun _ _ _ => List.forall_mem_nil _
  · cases hr
    cases hf

theorem tells_of_differ (hf : r.isOk = false) (h : ¬ e.Holds R Q u') : e.Tells R Q r u' := by
  refine ⟨fun es he => ?_, fun es he => ?_, fun _ => h⟩
  · cases he
    cases hf
  · cases he
    cases hf

end Equation

namespace Unifier

open Equation

variable {R : Ty → Ty → Prop} {Q : Row → Row → Prop} {u u' : Unifier} {a b t : Ty} {v : TyVar}

/-- A variable that is bound to a type equals it; where it occurs in the type, they are not related.
-/
theorem Links.apply_eq (hd : Discerning R Q) {r : Except UnifyFailure (List Equation)}
    (h : u.Links v t r u') (ht : u.Head t t) (hv : u.apply (.var v) = .var v) (hne : t ≠ .var v) :
    (r = .ok [] ∧ u'.apply (.var v) = u'.apply t) ∨ (r.isOk = false ∧
      ¬ R (u'.apply (.var v)) (u'.apply t) ∧ ¬ R (u'.apply t) (u'.apply (.var v))) := by
  rcases h with ⟨hm, hr, ha⟩ | ⟨hm, hr, hb⟩
  · rw [ha.apply, ha.apply, hv]
    exact .inr ⟨hr, hd.occurs hm fun heq => hne (ht.eq_var heq)⟩
  · refine .inl ⟨hr, ?_⟩
    rw [hb.apply, hb.apply, hv, Ty.put, Ty.put]
    refine (if_pos rfl).trans (Ty.mapVars_eq_self (fun w hw => ?_) fun _ _ => rfl).symm
    exact if_neg fun he : w = v => hm (he ▸ hw)

theorem turn_tells (hd : Discerning R Q) (hu : u.Valid) (ha : u.Head a a) (hb : u.Head b b) :
    u.Does (turn a b).run (Tells R Q (.types a b)) := by
  have idle : ∀ {m : SolveM (List Equation)}, u.Does m.run (fun r u' => r = .ok [] ∧ u.Alike u') →
      (∀ v : Unifier, (v.apply a).Matches (v.apply b)) → u.Does m.run (Tells R Q (.types a b)) :=
    fun h hab => h.imp fun r u' hadv hr => tells_of_holds hadv.valid hr.1 (hab u')
  have linked : ∀ {r : Except UnifyFailure (List Equation)} {u' : Unifier}, u'.Valid →
      (r = .ok [] ∧ u'.apply a = u'.apply b) ∨ (r.isOk = false ∧ ¬ R (u'.apply a) (u'.apply b)) →
      Tells R Q (.types a b) r u' := by
    rintro r u' hu' (⟨hr, heq⟩ | ⟨hr, hne⟩)
    · refine tells_of_holds hu' hr ?_
      show (u'.apply a).Matches (u'.apply b)
      rw [heq]
      exact Ty.matches_refl _
    · exact tells_of_differ hr hne
  rcases a.error_or_var_or_plain with rfl | ⟨v, rfl⟩ | hpa
  · exact idle (turn_error_left hu b) fun _ => Ty.matches_error_left _
  · by_cases he : b = .error
    · subst he
      exact idle (turn_error_right hu _) fun _ => Ty.matches_error_right _
    · by_cases hv : b = .var v
      · subst hv
        exact idle (turn_self hu v) fun _ => Ty.matches_refl _
      · have hvar := ha.unbound v rfl
        exact (turn_var_left hu hvar hb.below he hv).imp fun r u' hadv hl =>
          linked hadv.valid ((hl.apply_eq hd hb hvar hv).imp_right (And.imp_right And.left))
  · rcases b.error_or_var_or_plain with rfl | ⟨v, rfl⟩ | hpb
    · exact idle (turn_error_right hu _) fun _ => Ty.matches_error_right _
    · have hvar := hb.unbound v rfl
      refine (turn_var_right hu hvar ha.below hpa).imp fun r u' hadv hl => linked hadv.valid ?_
      exact (hl.apply_eq hd ha hvar (hpa.ne_var v)).imp (And.imp_right Eq.symm)
        (And.imp_right And.right)
    · refine (turn_plain hu hpa hpb).imp fun r u' hadv hr => ?_
      obtain ⟨-, hnone, hsome⟩ := hr
      cases hparts : parts a b with
      | none =>
        refine tells_of_differ (hnone hparts) fun h => ?_
        obtain ⟨es, hes, -⟩ := hd.parts_apply hpa hpb h
        cases hparts.symm.trans hes
      | some es =>
        obtain rfl := hsome es hparts
        refine ⟨fun es' he v _ h => ?_, fun es' he v _ h => ?_,
          by simp [Except.isOk, Except.toBool]⟩
        · cases he
          exact matches_of_holds hpa hpb hparts h
        · cases he
          obtain ⟨es', hes', hall⟩ := hd.parts_apply hpa hpb h
          exact Option.some.inj (hparts.symm.trans hes') ▸ hall

theorem solveRows_tells (hd : Discerning R Q) (hu : u.Valid) {e f : Row} (he : e.Below u.rowCount)
    (hf : f.Below u.rowCount) :
    u.Does (solveRows e f).run (fun r u' => (r = .ok () → u'.findRow e = u'.findRow f) ∧
      (r.isOk = false → ¬ Q (u'.findRow e) (u'.findRow f))) := by
  obtain ⟨hadv, hsolved⟩ := solveRows_solves hu he hf
  refine ⟨hadv, fun hr => (hsolved () hr).1, fun hr heq => ?_⟩
  have hyields := solveRows_yields u e f
  cases hl : u.substitution.level (u.findRow e) (u.findRow f) with
  | none =>
    rw [hl] at hyields
    -- where they fail, rows are left as they were
    rw [findRow, findRow, hyields.2] at heq
    exact hd.rows hl heq
  | some s =>
    rw [hl] at hyields
    rw [show ((solveRows e f).run u).1 = _ from hyields.1] at hr
    cases hr

theorem step_tells (hd : Discerning R Q) (hu : u.Valid) {V : Finset TyVar} {e : Equation}
    (he : u.RangesIn V e) : u.Does e.step.run (e.Tells R Q) := by
  cases e with
  | types a b =>
    obtain ⟨a', b', u₁, hstep, h₁, hs₁, hha, hhb⟩ := step_types hu he.1.below he.2.below
    obtain ⟨h₂, htells⟩ := turn_tells hd h₁.valid hha.self hhb.self
    have side : ∀ {t h : Ty} {v : Unifier}, u₁.Head t h → u₁.Grows v → v.apply h = v.apply t :=
      fun hh hv => hv.apply_eq h₁.valid hh.apply
    rw [Does, show (Equation.types a b).step.run u = _ from hstep]
    refine ⟨h₁.trans h₂, fun es hr v hv h => ?_, fun es hr v hv h => ?_, fun hf h => ?_⟩
    · have hmatches := htells.matching es hr v hv h
      rwa [holds_types, side hha (h₂.toGrows.trans hv), side hhb (h₂.toGrows.trans hv)] at hmatches
    · refine htells.related es hr v hv ?_
      rwa [holds_types, side hha (h₂.toGrows.trans hv), side hhb (h₂.toGrows.trans hv)]
    · refine htells.differ hf ?_
      rwa [holds_types, side hha h₂.toGrows, side hhb h₂.toGrows]
  | rows e f =>
    refine Does.bind (f := ExceptT.bindCont fun _ => pure []) (solveRows_tells hd hu he.1 he.2)
      fun r u' h hr => ?_
    cases r with
    | ok _ => exact .pure h.valid (tells_of_holds h.valid rfl (hr.1 rfl))
    | error why => exact .pure h.valid (tells_of_differ rfl (hr.2 rfl))

end Unifier

namespace Equation

open Unifier

variable {R : Ty → Ty → Prop} {Q : Row → Row → Prop} {u u' : Unifier} {V : Finset TyVar}
  {es : List Equation} {r : Except UnifyFailure Unit}

/-- What the outcome tells of equations that are solved one after the other: all of them hold at the
end, apart from failed expressions, or the sides of one of them are not related at all. -/
theorem Solving.tells (hd : Discerning R Q) (h : Solving es u r u') (hu : u.Valid)
    (hes : ∀ e ∈ es, u.RangesIn V e) :
    (r = .ok () → ∀ e ∈ es, e.Holds Ty.Matches Eq u') ∧
      (r.isOk = false → ∃ e ∈ es, ¬ e.Holds R Q u') := by
  induction h with
  | done => exact ⟨fun _ => List.forall_mem_nil _, by simp [Except.isOk, Except.toBool]⟩
  | @fail e es u u' why hstep =>
    obtain ⟨-, htells⟩ := step_tells hd hu (hes e List.mem_cons_self)
    rw [hstep] at htells
    exact ⟨by simp, fun _ => ⟨e, List.mem_cons_self, htells.differ rfl⟩⟩
  | @next e es more u u₁ u' r hstep hrest ih =>
    obtain ⟨hadv, htells⟩ := step_tells hd hu (hes e List.mem_cons_self)
    obtain ⟨-, hk, hmore⟩ := step_leaves hu (hes e List.mem_cons_self)
    rw [hstep] at hadv htells hk hmore
    have hleft : ∀ d ∈ more ++ es, u₁.RangesIn V d := List.forall_mem_append.2 ⟨hmore more rfl,
      fun d hd => (hes d (List.mem_cons_of_mem _ hd)).confines hadv.toGrows hk⟩
    have hgrows := (hrest.confines hadv.valid hleft).1.toGrows
    obtain ⟨hok, hfail⟩ := ih hadv.valid hleft
    refine ⟨fun hr => ?_, fun hf => ?_⟩
    · obtain ⟨hparts, hothers⟩ := List.forall_mem_append.1 (hok hr)
      exact List.forall_mem_cons.2 ⟨htells.matching more rfl u' hgrows hparts, hothers⟩
    · obtain ⟨d, hd, hne⟩ := hfail hf
      rcases List.mem_append.1 hd with hd | hd
      · exact ⟨e, List.mem_cons_self, fun h => hne (htells.related more rfl u' hgrows h d hd)⟩
      · exact ⟨d, List.mem_cons_of_mem _ hd, hne⟩

end Equation

namespace Unifier

variable {R : Ty → Ty → Prop} {Q : Row → Row → Prop} {u : Unifier} {a b : Ty}

/-- Where two types are made equal, they match from then on; where that fails, they are in no
relation that is discerning. -/
theorem solve_tells (hd : Equation.Discerning R Q) (hu : u.Valid) (ha : a.Below u.rowCount)
    (hb : b.Below u.rowCount) :
    (((solve a b).run u).1 = .ok () →
      (((solve a b).run u).2.apply a).Matches (((solve a b).run u).2.apply b)) ∧
    (((solve a b).run u).1.isOk = false →
      ¬ R (((solve a b).run u).2.apply a) (((solve a b).run u).2.apply b)) := by
  have hranges : ∀ e ∈ [Equation.types a b],
      u.RangesIn ((u.apply a).vars ++ (u.apply b).vars).toFinset e :=
    List.forall_mem_singleton.2 ⟨⟨ha, fun v hv => by simp [hv]⟩, ⟨hb, fun v hv => by simp [hv]⟩⟩
  obtain ⟨hok, hfail⟩ := Equation.Solving.tells hd (solve_works hu ha hb) hu hranges
  refine ⟨fun hr => hok hr _ List.mem_cons_self, fun hf => ?_⟩
  obtain ⟨e, he, hne⟩ := hfail hf
  obtain rfl := List.mem_singleton.1 he
  exact hne

/-- Two types that are required to be equal match, if no fault is found. -/
theorem unify_matches (hu : u.Valid) (ha : a.Below u.rowCount) (hb : b.Below u.rowCount)
    (why : Provenance) (he : (unify a b why u).2.errors = []) :
    ((unify a b why u).2.apply a).Matches ((unify a b why u).2.apply b) := by
  rcases unify_outcome u a b why with ⟨hstate, hok⟩ | ⟨hlen, -⟩
  · rw [hstate]
    refine (solve_tells Equation.discerning_eq hu ha hb).1 ?_
    cases hr : ((solve a b).run u).1 with
    | ok _ => rfl
    | error why =>
      rw [hr] at hok
      cases hok
  · rw [he] at hlen
    cases hlen

end Unifier

end RowCheck
