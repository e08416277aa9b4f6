import RowCheck.Proofs.Principal.Checker

/-!
The rules of the functional core that need no recursion: applying a function and looking up a variable.
-/
namespace RowCheck

namespace Unifier

variable {D : TyVar → Prop} {u : Unifier}

/-- The parts of a new function type may be assigned any types. -/
theorem freshFunction_idles (hu : u.Tidy D) : Idles D u (Checker.freshFunction u).2 ∧
      (Checker.freshFunction u).2.Owns D (.fn (Checker.freshFunction u).1.1
        (Checker.freshFunction u).1.2.1 (Checker.freshFunction u).1.2.2) ∧
      ∀ (f : TyVar → Ty) (a b : Ty), ∃ f', (∀ v < u.typeCount, f' v = f v) ∧
        (Checker.freshFunction u).1.1.under f' = a ∧ (Checker.freshFunction u).1.2.1.under f' = b := by
  obtain ⟨-, hcount₁, h₁, hp⟩ := freshType_idles hu
  obtain ⟨-, hcount₂, h₂, hr⟩ := freshType_idles h₁.tidy
  obtain ⟨h₃, hbare, hbelow⟩ := freshRow_idles h₂.tidy
  have hp' := hp.pursues (h₂.trans h₃).toPursues
  have hr' := hr.pursues h₃.toPursues
  refine ⟨(h₁.trans h₂).trans h₃, ⟨Ty.live_fn.2 ⟨hp'.live, hr'.live, hbare⟩,
    Ty.below_fn.2 ⟨hp'.below, hr'.below, hbelow⟩⟩, fun f a b => ?_⟩
  refine ⟨Function.update (Function.update f u.typeCount a) (u.typeCount + 1) b, fun v hv => ?_, ?_, ?_⟩
  · have hlt : v < u.typeCount + 1 := Nat.lt_succ_of_lt hv
    rw [Function.update_of_ne hlt.ne, Function.update_of_ne hv.ne]
  · show Function.update (Function.update f u.typeCount a) (u.typeCount + 1) b u.typeCount = a
    rw [Function.update_of_ne (Nat.lt_succ_self u.typeCount).ne, Function.update_self]
  · show Function.update (Function.update f u.typeCount a) (u.typeCount + 1) b
      (freshType u).2.typeCount = b
    rw [hcount₁, Function.update_self]

theorem owns_fn {p r : Ty} {e : Row} : u.Owns D (.fn p r e) ↔
    u.Owns D p ∧ u.Owns D r ∧ e.labels = ∅ ∧ e.Below u.rowCount := by
  constructor
  · rintro ⟨hl, hb⟩
    obtain ⟨hlp, hlr, hle⟩ := Ty.live_fn.1 hl
    obtain ⟨hbp, hbr, hbe⟩ := Ty.below_fn.1 hb
    exact ⟨⟨hlp, hbp⟩, ⟨hlr, hbr⟩, hle, hbe⟩
  · rintro ⟨hp, hr, hle, hbe⟩
    exact ⟨Ty.live_fn.2 ⟨hp.live, hr.live, hle⟩, Ty.below_fn.2 ⟨hp.below, hr.below, hbe⟩⟩

theorem owns_tuple {items : List Ty} : u.Owns D (.tuple items) ↔ ∀ t ∈ items, u.Owns D t :=
  ⟨fun h t ht => ⟨Ty.over_tuple.1 h.live t ht, Ty.below_tuple.1 h.below t ht⟩,
    fun h => ⟨Ty.over_tuple.2 fun t ht => (h t ht).live, Ty.below_tuple.2 fun t ht => (h t ht).below⟩⟩

theorem owns_of_closed {t : Ty} (hv : t.vars = []) (he : t.effects = [])
    (hp : t.containsError = false) : u.Owns D t :=
  ⟨Ty.live_of_closed hv he hp, Ty.below_of_effects_eq_nil he⟩

theorem owns_literal (value : Literal) : u.Owns D value.ty := by
  cases value <;> exact owns_of_closed rfl rfl rfl

end Unifier

namespace Checker

open Unifier

variable {D : TyVar → Prop} {c : Checker} {f : TyVar → Ty}

/-- A state after an action of the pass that finds nothing out. -/
theorem Idles.pursues {u : Unifier} (h : c.unifier.Idles D u) : c.Pursues D { c with unifier := u } :=
  ⟨h.toPursues, rfl, rfl⟩

theorem freshFunction_addsErrors : AddsErrors freshFunction := ⟨fun _ => List.prefix_refl _⟩

theorem fail_tells (category : Category) (message : String) (span : Span) :
    c.Tells (fail category message span) (fun _ _ => False) := fun he =>
  absurd he (List.append_ne_nil_of_right_ne_nil _ (List.cons_ne_nil _ _))

/-! ## Applying -/

/-- What is applied is a function, if nothing is at fault. -/
theorem functionParts_tells {t : Ty} (h : c.Faultless → c.Tidy D ∧ c.unifier.Owns D t)
    (why : Provenance) : c.Tells (functionParts t why) (fun parts c' => c.Pursues D c' ∧
      ∃ p r e, parts = some (p, r, e) ∧ c'.unifier.Owns D (.fn p r e) ∧
        ∀ f, c'.unifier.Allows f → t.under f = .arrow (p.under f) (r.under f)) := by
  have fresh : ∀ {c₁ : Checker}, (c₁.Faultless → c₁.Tidy D) →
      c₁.Tells (liftM freshFunction) (fun parts c' => c₁.Pursues D c' ∧
        c'.unifier.Owns D (.fn parts.1 parts.2.1 parts.2.2)) := fun h₁ =>
    .lift freshFunction_addsErrors fun he _ =>
      ⟨Idles.pursues (freshFunction_idles (h₁ he).unifier).1,
        (freshFunction_idles (h₁ he).unifier).2.1⟩
  have hfind : c.Tells (liftM (find t)) (fun head c' => c.Pursues D c' ∧ c'.unifier.Owns D head ∧
      ∀ f, c'.unifier.Allows f → head.under f = t.under f) :=
    .lift (find_leavesInclusions t).addsErrors fun hc _ => by
      obtain ⟨hi, howns, -, hsame⟩ := find_idles (h hc).1.unifier (h hc).2
      exact ⟨Idles.pursues hi, howns, hsame⟩
  -- what is neither a variable nor a function cannot be equal to one
  have refuse : ∀ {c₁ : Checker} {other : Ty}, (c₁.Faultless → c₁.Tidy D ∧ c₁.unifier.Owns D other) →
      (∀ (f : TyVar → Ty) (a b : Ty), other.under f ≠ .arrow a b) → ∀ Q,
      c₁.Tells (liftM freshFunction >>= fun parts =>
        liftM (Unifier.unify (.fn parts.1 parts.2.1 parts.2.2) other why) >>= fun _ =>
        (pure none : CheckM (Option (Ty × Ty × Row)))) Q := by
    intro c₁ other h₁ hother Q
    refine (fresh fun he => (h₁ he).1).bind fun parts c₂ h₂ => ?_
    refine (unify_tells (D := D) (fun he => ?_) why).bind fun _ c₃ h₃ => .pure fun he => ?_
    · obtain ⟨he₁, hp, howns⟩ := h₂ he
      exact ⟨hp.tidy (h₁ he₁).1, howns, (h₁ he₁).2.pursues hp.unifier⟩
    · obtain ⟨he₂, hp, hsame⟩ := h₃ he
      have hallows := hp.unifier.tidy.toValid.allows .var
      exact absurd (hsame _ hallows).symm (hother _ _ _)
  unfold functionParts
  refine hfind.bind fun head c₁ h₁ => ?_
  have h₁' : c₁.Faultless → c₁.Tidy D := fun he => (h₁ he).2.1.tidy (h (h₁ he).1).1
  cases head with
  | fn p r e =>
    refine .pure fun he => ?_
    obtain ⟨-, hp, howns, hsame⟩ := h₁ he
    exact ⟨hp, p, r, e, rfl, howns, fun f hf => (hsame f hf).symm⟩
  | error => exact .pure fun he => absurd (h₁ he).2.2.1.live.proper (by simp [Ty.containsError])
  | var v =>
    refine (fresh h₁').bind fun parts c₂ h₂ => ?_
    refine (unify_tells (D := D) (fun he => ?_) why).bind fun _ c₃ h₃ => .pure fun he => ?_
    · obtain ⟨he₁, hp, howns⟩ := h₂ he
      obtain ⟨he₀, hp₁, -⟩ := h₁ he₁
      exact ⟨hp.tidy (h₁' he₁), howns, (h he₀).2.pursues (hp₁.trans hp).unifier⟩
    · obtain ⟨he₂, hp₃, hsame⟩ := h₃ he
      obtain ⟨he₁, hp₂, howns⟩ := h₂ he₂
      exact ⟨((h₁ he₁).2.1.trans hp₂).trans hp₃, _, _, _, rfl, howns.pursues hp₃.unifier,
        fun f hf => (hsame f hf).symm⟩
  | _ => exact refuse (fun he => ⟨h₁' he, (h₁ he).2.2.1⟩) (fun f a b => by simp [Ty.arrow]) _

/-- What stands for a function has the parts of one. -/
theorem functionParts_finds (he : c.Faultless) (hc : c.Tidy D) (hf : c.unifier.Allows f) {t a b : Ty}
    (ht : c.unifier.Owns D t) (hab : t.under f = .arrow a b) (why : Provenance) :
    c.Finds f (functionParts t why) (fun f' parts _ => ∃ p r e, parts = some (p, r, e) ∧
      p.under f' = a ∧ r.under f' = b) := by
  obtain ⟨hi, howns, -, hsame⟩ := find_idles hc.unifier ht
  have hfind : c.Finds f (liftM (find t)) (fun f' head c' => f' = f ∧ c.Pursues D c' ∧
      c'.unifier.Owns D head ∧ head.under f = .arrow a b) :=
    .lift he hi (hi.allows' f hf) (fun _ _ => rfl)
      ⟨rfl, Idles.pursues hi, howns, (hsame f (hi.allows' f hf)).trans hab⟩
  unfold functionParts
  refine hfind.bind fun f₁ head c₁ he₁ hf₁ _ h₁ => ?_
  obtain ⟨rfl, hp₁, howns₁, hhead⟩ := h₁
  have hc₁ := hp₁.tidy hc
  cases head with
  | fn p r e =>
    simp only [Ty.under_fn, Ty.arrow, Ty.fn.injEq] at hhead
    exact .pure he₁ hf₁ ⟨p, r, e, rfl, hhead.1, hhead.2.1⟩
  | var v =>
    obtain ⟨hi₂, hfn, hassign⟩ := freshFunction_idles hc₁.unifier
    obtain ⟨f₂, hagree, hpa, hrb⟩ := hassign f₁ a b
    have hallows := hi₂.allows' f₂ (hf₁.congr hc₁.unifier hagree)
    have fresh : c₁.Finds f₁ (liftM freshFunction) (fun f' parts c' => f' = f₂ ∧ c₁.Pursues D c' ∧
        c'.unifier.Owns D (.fn parts.1 parts.2.1 parts.2.2) ∧ parts.1.under f₂ = a ∧
        parts.2.1.under f₂ = b) :=
      .lift he₁ hi₂ hallows hagree ⟨rfl, Idles.pursues hi₂, hfn, hpa, hrb⟩
    refine fresh.bind fun f' parts c₂ he₂ hf₂ _ h₂ => ?_
    obtain ⟨rfl, hp₂, hfn, hpa, hrb⟩ := h₂
    have ht₂ := ht.pursues (hp₁.trans hp₂).unifier
    have hsame : t.under f' = t.under f₁ := Ty.under_congr fun v hv =>
      hagree v ((ht.live.vars v hv).1.trans_le hp₁.unifier.count)
    have heq : (Ty.fn parts.1 parts.2.1 parts.2.2).under f' = t.under f' := by
      rw [hsame, hab, Ty.under_fn, hpa, hrb]
    refine (unify_finds he₂ (hp₂.tidy hc₁) hf₂ hfn ht₂ heq why).bind fun f'' _ c₃ he₃ hf₃ _ h₃ => ?_
    obtain ⟨rfl, -⟩ := h₃
    exact .pure he₃ hf₃ ⟨_, _, _, rfl, hpa, hrb⟩
  | tuple | named => simp [Ty.arrow] at hhead
  | error => exact absurd howns₁.live.proper (by simp [Ty.containsError])
  | _ => cases hhead

/-- An application has the type of the result of a function of its argument. -/
theorem applyTo_tells {callee arg : TExpr} (h : c.Faultless → c.Tidy D ∧
    c.unifier.Owns D callee.ty ∧ c.unifier.Owns D arg.ty) (funcSpan span : Span) :
    c.Tells (applyTo callee arg funcSpan span) (fun e c' => c.Pursues D c' ∧ c'.unifier.Owns D e.ty ∧
      ∀ f, c'.unifier.Allows f → callee.ty.under f = .arrow (arg.ty.under f) (e.ty.under f)) := by
  unfold applyTo
  refine (functionParts_tells (fun he => ⟨(h he).1, (h he).2.1⟩) _).bind fun parts c₁ h₁ => ?_
  split
  · refine .pure fun he => ?_
    obtain ⟨-, -, p, r, e, hparts, -⟩ := h₁ he
    cases hparts
  · rename_i p r e
    have h₁' : c₁.Faultless → c.Faultless ∧ c.Pursues D c₁ ∧ c₁.unifier.Owns D (.fn p r e) ∧
        ∀ f, c₁.unifier.Allows f → callee.ty.under f = .arrow (p.under f) (r.under f) := fun he => by
      obtain ⟨he₀, hp, p', r', e', hparts, howns, hsame⟩ := h₁ he
      cases hparts
      exact ⟨he₀, hp, howns, hsame⟩
    refine (unify_tells (D := D) (fun he => ?_) _).bind fun _ c₂ h₂ => .get_bind ?_
    · obtain ⟨he₀, hp, howns, -⟩ := h₁' he
      obtain ⟨hc, -, harg⟩ := h he₀
      exact ⟨hp.tidy hc, (owns_fn.1 howns).1, harg.pursues hp.unifier⟩
    have hinclude : c₂.Tells (liftM (includeRow e c₂.context (.of span .performedEffect)))
        (fun _ c' => c₂.Pursues D c') := .lift (includeRow_addsErrors ..) fun he _ => by
      obtain ⟨he₁, hp₂, -⟩ := h₂ he
      obtain ⟨he₀, hp₁, howns, -⟩ := h₁' he₁
      have hc₂ := (hp₁.trans hp₂).tidy (h he₀).1
      obtain ⟨-, -, hbare, hbelow⟩ := owns_fn.1 howns
      exact Idles.pursues (includeRow_idles hc₂.unifier hbare hc₂.bare
        (hbelow.mono hp₂.unifier.rows) hc₂.below _)
    refine hinclude.bind fun _ c₃ h₃ => .pure fun he => ?_
    obtain ⟨he₂, hp₃⟩ := h₃ he
    obtain ⟨he₁, hp₂, hsame⟩ := h₂ he₂
    obtain ⟨he₀, hp₁, howns, hcallee⟩ := h₁' he₁
    have hc₁ := hp₁.tidy (h he₀).1
    have hc₂ := hp₂.tidy hc₁
    refine ⟨(hp₁.trans hp₂).trans hp₃, (owns_fn.1 howns).2.1.pursues (hp₂.trans hp₃).unifier,
      fun f hf => ?_⟩
    have hf₂ := hp₃.allows hc₂ hf
    rw [hcallee f (hp₂.allows hc₁ hf₂), hsame f hf₂]
    rfl

/-- What stands for a function of the argument can be applied to it. -/
theorem applyTo_finds (he : c.Faultless) (hc : c.Tidy D) (hf : c.unifier.Allows f)
    {callee arg : TExpr} (hcallee : c.unifier.Owns D callee.ty) (harg : c.unifier.Owns D arg.ty) {b : Ty}
    (hb : callee.ty.under f = .arrow (arg.ty.under f) b) (funcSpan span : Span) :
    c.Finds f (applyTo callee arg funcSpan span) (fun f' e _ => e.ty.under f' = b) := by
  unfold applyTo
  refine ((functionParts_finds he hc hf hcallee hb _).told
    (functionParts_tells (fun _ => ⟨hc, hcallee⟩) _)).bind fun f₁ parts c₁ he₁ hf₁ hagree h₁ => ?_
  obtain ⟨⟨hp₁, p, r, e, rfl, howns, -⟩, p', r', e', hparts, hpa, hrb⟩ := h₁
  cases hparts
  obtain ⟨hp, hr, hbare, hbelow⟩ := owns_fn.1 howns
  have hc₁ := hp₁.tidy hc
  have hsame : arg.ty.under f₁ = arg.ty.under f :=
    Ty.under_congr fun v hv => hagree v (harg.live.vars v hv).1
  refine (unify_finds he₁ hc₁ hf₁ hp (harg.pursues hp₁.unifier) (hpa.trans hsame.symm) _).bind
    fun f₂ _ c₂ he₂ hf₂ _ h₂ => .get_bind ?_
  obtain ⟨rfl, hp₂⟩ := h₂
  have hc₂ := hp₂.tidy hc₁
  have hi := includeRow_idles hc₂.unifier hbare hc₂.bare (hbelow.mono hp₂.unifier.rows) hc₂.below
    (.of span .performedEffect)
  have hinclude : c₂.Finds f₂ (liftM (includeRow e c₂.context (.of span .performedEffect)))
      (fun f' _ _ => f' = f₂) := .lift he₂ hi (hi.allows' f₂ hf₂) (fun _ _ => rfl) rfl
  refine hinclude.bind fun f₃ _ c₃ he₃ hf₃ _ h₃ => .pure he₃ hf₃ ?_
  exact h₃ ▸ hrb

/-! ## Variables -/

/-- A variable has one of the types of its scheme. -/
theorem inferVar_tells (h : c.Faultless → c.Tidy D) (e : Expr) (name : String) :
    c.Tells (inferVar .empty e name) (fun t c' => c.Pursues D c' ∧ c'.unifier.Owns D t.ty ∧
      ∃ s, c.env.lookup name = some s ∧ ∀ f, s.AdmitsAt f (t.ty.under f)) := by
  unfold inferVar
  refine .get_bind ?_
  split
  · rename_i s hs
    have hinst : c.Tells (liftM (s.instantiate e.span)) (fun t c' => c.Pursues D c' ∧
        c'.unifier.Owns D t ∧ ∀ f, s.AdmitsAt f (t.under f)) :=
      .lift (instantiate_leavesInclusions ..).addsErrors fun he _ => by
        obtain ⟨hi, howns, hadmits, -⟩ :=
          instantiate_idles (h he).unifier ((h he).env.of_lookup hs) e.span
        exact ⟨Idles.pursues hi, howns, hadmits⟩
    refine hinst.bind fun t c₁ h₁ => ?_
    refine (record_tells (D := D) (fun he => (h₁ he).2.1.tidy (h (h₁ he).1)) _ _ _ _).bind fun _ c₂ h₂ =>
      .pure fun he => ?_
    obtain ⟨he₁, hp₂⟩ := h₂ he
    obtain ⟨he₀, hp₁, howns, hadmits⟩ := h₁ he₁
    exact ⟨hp₁.trans hp₂, howns.pursues hp₂.unifier, s, hs, hadmits⟩
  · have hnone : (Registries.empty.types.constructor? name).isSome = false := rfl
    rw [hnone]
    exact (fail_tells _ _ _).bind fun _ c₁ h₁ => .pure fun he => (h₁ he).2.elim

/-- A variable may have each type of its scheme. -/
theorem inferVar_finds (he : c.Faultless) (hc : c.Tidy D) (hf : c.unifier.Allows f) (e : Expr)
    {name : String} {s : Scheme} (hs : c.env.lookup name = some s) {t : Ty} (ht : s.AdmitsAt f t) :
    c.Finds f (inferVar .empty e name) (fun f' t' _ => t'.ty.under f' = t) := by
  obtain ⟨hi, howns, -, hassign⟩ := instantiate_idles hc.unifier (hc.env.of_lookup hs) e.span
  obtain ⟨f', hagree, heq⟩ := hassign f t ht
  have hinst : c.Finds f (liftM (s.instantiate e.span)) (fun g t' _ => t'.under g = t) :=
    .lift he hi (hi.allows' f' (hf.congr hc.unifier hagree)) hagree heq
  unfold inferVar
  refine .get_bind ?_
  rw [hs]
  refine hinst.bind fun f₁ t' c₁ he₁ hf₁ _ h₁ => ?_
  refine (record_finds he₁ hf₁ ..).bind fun f₂ _ c₂ he₂ hf₂ _ h₂ => .pure he₂ hf₂ ?_
  exact h₂.1 ▸ h₁

end Checker
end RowCheck
