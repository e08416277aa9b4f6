import RowCheck.Proofs.Typing.Registries
import RowCheck.Proofs.Typing.Resolve

/-!
The rules of checking that need no recursion, as far as types go. What each of them builds from well
typed parts is well typed.
-/
namespace RowCheck

namespace Unifier

variable {u u' : Unifier} {r : Registries} {outer : TypeEnv} {Γ : Context}

/-- Whether an expression has a known type, and is well typed once it is settled under any later
state without errors. -/
structure WellTyped (u : Unifier) (r : Registries) (outer : TypeEnv) (Γ : Context) (e : TExpr) :
    Prop where
  knows : u.Knows e.ty
  typed : u.Forces fun v => Typed r outer (Γ.settle v.substitution) (e.settle v.substitution)

theorem WellTyped.leads {e : TExpr} (h : u.WellTyped r outer Γ e) (hu : u.Leads u') :
    u'.WellTyped r outer Γ e :=
  ⟨h.knows.leads hu, h.typed.leads hu⟩

theorem wellTyped_of_errors (h : u.errors ≠ []) {e : TExpr} (he : e.ty.Below u.rowCount) :
    u.WellTyped r outer Γ e :=
  ⟨⟨he, fun he => absurd he h⟩, forces_of_errors h⟩

theorem knows_map_ty {es : List TExpr} (h : ∀ e ∈ es, u.WellTyped r outer Γ e) :
    ∀ t ∈ es.map TExpr.ty, u.Knows t := by
  intro t ht
  obtain ⟨e, he, rfl⟩ := List.mem_map.1 ht
  exact (h e he).knows

/-- The parts of a node are well typed together. -/
theorem typed_all {es : List TExpr} (h : ∀ e ∈ es, u.WellTyped r outer Γ e) :
    u.Forces fun v => ∀ e ∈ TExpr.settleList v.substitution es,
      Typed r outer (Γ.settle v.substitution) e := by
  intro v hv he e hmem
  rw [TExpr.settleList_eq] at hmem
  obtain ⟨p, hp, rfl⟩ := List.mem_map.1 hmem
  exact (h p hp).typed v hv he

theorem map_ty_settleList (v : Unifier) (es : List TExpr) :
    (TExpr.settleList v.substitution es).map TExpr.ty = (es.map TExpr.ty).map v.apply := by
  rw [TExpr.settleList_eq, List.map_map, List.map_map]
  exact List.map_congr_left fun e _ => TExpr.ty_settle e

theorem freshTypes_gives (hu : u.Sound) (vs : List TyVar) :
    u.Gives (freshTypes vs) (fun ts _ => ts.length = vs.length ∧
      ∀ t ∈ ts, ∀ u' : Unifier, u'.Knows t) := by
  induction vs generalizing u with
  | nil => exact .pure hu ⟨rfl, by simp⟩
  | cons v vs ih =>
    unfold freshTypes
    refine (freshType_gives hu).bind fun t u₁ h₁ ht => ?_
    refine (ih h₁.sound).bind fun ts u₂ h₂ hts => .pure h₂.sound ⟨by simp [hts.1], ?_⟩
    simp only [List.mem_cons, forall_eq_or_imp]
    exact ⟨ht, hts.2⟩

theorem freshFunction_gives (hu : u.Sound) :
    u.Gives Checker.freshFunction (fun f u' => u'.Knows f.1 ∧ u'.Knows f.2.1 ∧
      f.2.2.Below u'.rowCount) := by
  unfold Checker.freshFunction
  refine (freshType_gives hu).bind fun p u₁ h₁ hp => ?_
  refine (freshType_gives h₁.sound).bind fun r u₂ h₂ hr => ?_
  refine (freshRow_gives h₂.sound).bind fun e u₃ h₃ he => ?_
  exact .pure h₃.sound ⟨hp _, hr _, he⟩

/-- What must be numeric stands for a numeric primitive or for a variable. -/
theorem Numeric.ty {t : Ty} (h : u.Numeric t) : (u.apply t).Numeric :=
  h.imp id fun ⟨v, hv, _⟩ => ⟨v, hv⟩

/-- Each argument of a constructor has the type of its field. -/
theorem unifyFields_gives (hu : u.Sound) (constructor : String) {fields : List Ty}
    {args : List TExpr} (hlen : fields.length = args.length) (hf : ∀ t ∈ fields, u.Knows t)
    (ha : ∀ e ∈ args, u.Knows e.ty) :
    u.Gives (Checker.unifyFields constructor fields args) (fun _ u' => u'.Forces fun v =>
      fields.map v.apply = (args.map TExpr.ty).map v.apply) := by
  induction fields generalizing u args with
  | nil =>
    obtain rfl := List.length_eq_zero_iff.1 hlen.symm
    exact .pure hu fun _ _ _ => rfl
  | cons t ts ih =>
    cases args with
    | nil => cases hlen
    | cons a as =>
      simp only [List.mem_cons, forall_eq_or_imp] at hf ha
      unfold Checker.unifyFields
      refine (unify_gives hu hf.1 ha.1 _).bind fun _ u₁ h₁ heq => ?_
      refine (ih h₁.sound (Nat.succ.inj hlen) (fun t ht => (hf.2 t ht).leads h₁)
        fun e he => (ha.2 e he).leads h₁).imp fun _ u₂ h₂ hrest v hv he => ?_
      dsimp only
      rw [List.map_cons, List.map_cons, List.map_cons, (heq.leads h₂) v hv he, hrest v hv he]

end Unifier

namespace Checker

open Unifier

variable {c c' : Checker} {r : Registries} {outer : TypeEnv} {Γ : Context}

/-- Whether the names in scope are those of a context on top of the names from outside, as long as
nothing is at fault; and an active pattern whose body is being checked has a type. -/
def Within (c : Checker) (r : Registries) (outer : TypeEnv) (Γ : Context) : Prop :=
  c.unifier.errors = [] → c.env.Models outer Γ ∧ ∀ p ∈ c.active, r.Owns p

theorem Within.follows (h : c.Within r outer Γ) (hc : c.Follows c') : c'.Within r outer Γ := by
  intro he
  rw [hc.env he, hc.active he]
  exact h (hc.errors_nil he)

theorem Within.knows (h : c.Within r outer Γ) (hc : c.Sound) {name : String} {s : Scheme}
    (hs : c.env.lookup name = some s) : c.unifier.KnowsScheme s :=
  ⟨hc.env.lookup hs, fun he => (h he).1.proper name s hs⟩

/-- The type of what is applied is an arrow between the parts that are found. -/
theorem functionParts_stays (hc : c.Sound) {t : Ty} (ht : c.unifier.Knows t) (why : Provenance) :
    c.Stays (functionParts t why) (fun o c' => (o = none → c'.unifier.errors ≠ []) ∧
      ∀ p q e, o = some (p, q, e) → c'.unifier.Knows (.fn p q e) ∧
        c'.unifier.Forces fun v => v.apply (.fn p q e) = v.apply t) := by
  unfold functionParts
  refine .lift_bind hc (find_gives hc.sound ht) fun head c₁ h₁ hhead => ?_
  obtain ⟨hknows, heq⟩ := hhead
  split
  · refine .pure h₁.sound ⟨by simp, fun p q e he => ?_⟩
    cases he
    exact ⟨hknows, heq.imp fun _ h => h.symm⟩
  · exact .pure h₁.sound ⟨fun _ he => absurd (hknows.proper he) (by simp [Ty.containsError]), by simp⟩
  · refine .lift_bind h₁.sound (freshFunction_gives h₁.sound.sound) fun f c₂ h₂ hf => ?_
    have ht₂ := ht.leads (h₁.unifier.trans h₂.unifier)
    refine (unify_stays h₂.sound (knows_fn.2 hf) ht₂ why).bind fun _ c₃ h₃ hsame =>
      .pure h₃.sound ⟨by simp, fun p q e he => ?_⟩
    cases he
    exact ⟨(knows_fn.2 hf).leads h₃.unifier, hsame⟩
  · rename_i hfn herror hvar
    refine .lift_bind h₁.sound (freshFunction_gives h₁.sound.sound) fun f c₂ h₂ hf => ?_
    refine (unify_stays h₂.sound (knows_fn.2 hf) (hknows.leads h₂.unifier) why).bind
      fun _ c₃ h₃ hsame => .pure h₃.sound ⟨fun _ he => ?_, by simp⟩
    -- an arrow cannot be equal to a head of another form
    have habsurd := hsame.here h₃.sound.sound he
    cases head with
    | fn p q e => exact hfn p q e rfl
    | error => exact herror rfl
    | var v => exact hvar v rfl
    | tuple | named => simp at habsurd
    | _ => cases habsurd

/-- A call of an arrow with an argument of its parameter's type has the type of its result. -/
theorem applyTo_stays (hc : c.Sound) {callee arg : TExpr}
    (hf : c.unifier.WellTyped r outer Γ callee) (ha : c.unifier.WellTyped r outer Γ arg)
    (funcSpan span : Span) :
    c.Stays (applyTo callee arg funcSpan span) (fun e c' => c'.unifier.WellTyped r outer Γ e) := by
  unfold applyTo
  refine (functionParts_stays hc hf.knows _).bind fun o c₁ h₁ hparts => ?_
  split
  · exact .pure h₁.sound (wellTyped_of_errors (hparts.1 rfl) (Ty.below_of_effects_eq_nil rfl))
  · rename_i p q e
    obtain ⟨hknows, harrow⟩ := hparts.2 p q e rfl
    obtain ⟨hp, hq, he⟩ := knows_fn.1 hknows
    refine (unify_stays h₁.sound hp (ha.knows.leads h₁.unifier) _).bind fun _ c₂ h₂ harg =>
      .get_bind ?_
    refine (includeRow_stays h₂.sound (he.mono h₂.unifier.rows) _).bind fun _ c₃ h₃ _ =>
      .pure h₃.sound ⟨hq.leads (h₂.unifier.trans h₃.unifier), ?_⟩
    intro v hv hve
    have hv₂ := h₃.unifier.trans hv
    have hv₁ := h₂.unifier.trans hv₂
    have hv₀ := h₁.unifier.trans hv₁
    refine @Typed.call _ _ _ _ _ _ (v.findRow e) ?_ (hf.typed v hv₀ hve) (ha.typed v hv₀ hve)
    rw [TExpr.ty_settle, TExpr.ty_settle]
    exact (harrow v hv₁ hve).symm.trans (by rw [apply_fn, harg v hv₂ hve]; rfl)

/-- A variant that is built from arguments of its fields' types has a type of its definition. -/
theorem construct_stays (hr : r.Defined) (hfree : r.ErrorFree) (hc : c.Sound)
    (hΓ : c.Within r outer Γ) (name : Name) {args : List TExpr}
    (ha : ∀ e ∈ args, c.unifier.WellTyped r outer Γ e) (span : Span) :
    c.Stays (construct r name args span) (fun e c' => c'.unifier.WellTyped r outer Γ e ∧
      (c'.unifier.errors = [] → args = [] → e.isValue = true)) := by
  have hfailed : ∀ {c' : Checker}, c'.unifier.errors ≠ [] →
      c'.unifier.WellTyped r outer Γ (.tuple (.quiet span .error) args) ∧
      (c'.unifier.errors = [] → args = [] →
        (TExpr.tuple (.quiet span .error) args).isValue = true) := fun h =>
    ⟨wellTyped_of_errors h (Ty.below_of_effects_eq_nil rfl), fun he => absurd he h⟩
  unfold construct
  dsimp only
  split
  · refine .get_bind ?_
    split
    · rename_i p hactive
      split
      · rename_i h
        simp only [Bool.and_eq_true, Bool.not_eq_true', List.isEmpty_iff] at h
        obtain ⟨htotal, rfl⟩ := h
        refine .pure hc ⟨⟨knows_of_closed rfl rfl, fun v hv he => ?_⟩, fun _ _ => rfl⟩
        obtain ⟨d, hd, hparams, hcase⟩ := (hΓ (hv.errors_nil he)).2 p hactive
        refine @Typed.construct _ _ _ _ _ _ _ [] d ⟨noMatch, []⟩ ?_ hd (hcase htotal) ?_ rfl ?_
        · exact (apply_named v p.name []).trans rfl
        · simp [hparams]
        · exact fun e he => by cases he
      · exact (fail_stays hc _ _ _).bind fun _ _ h he => .pure h.sound (hfailed he)
    · exact (fail_stays hc _ _ _).bind fun _ _ h he => .pure h.sound (hfailed he)
  · split
    · exact (fail_stays hc _ _ _).bind fun _ _ h he => .pure h.sound (hfailed he)
    · rename_i d v hcon
      obtain ⟨hd, hv, -⟩ := hr.constructor hcon
      split
      · exact (fail_stays hc _ _ _).bind fun _ _ h he => .pure h.sound (hfailed he)
      · rename_i hlen
        refine .lift_bind hc (freshTypes_gives hc.sound d.params) fun ts c₁ h₁ hts => ?_
        have hfields := SumType.knows_fieldsAt (d := d) (hr.rows hd hv) (hfree.variant hd hv)
          (fun t ht => hts.2 t ht c₁.unifier)
        have hlen' : (d.fieldsAt v ts).length = args.length := by
          simpa [SumType.fieldsAt] using not_not.1 hlen
        refine .lift_bind h₁.sound (unifyFields_gives h₁.sound.sound _ hlen' hfields
          fun e he => (ha e he).knows.leads h₁.unifier) fun _ c₂ h₂ heq => .pure h₂.sound
            ⟨⟨knows_named.2 fun t ht => hts.2 t ht _, fun w hw he => ?_⟩, fun _ he => by
              subst he
              rfl⟩
        have hw₀ := (h₁.unifier.trans h₂.unifier).trans hw
        have hlength : (ts.map w.apply).length = d.params.length := by
          rw [List.length_map, hts.1]
        refine .construct (apply_named w d.name ts) hd hv hlength ?_
          (typed_all (fun e he => (ha e he).leads (h₁.unifier.trans h₂.unifier)) w hw he)
        rw [map_ty_settleList, ← heq w hw he]
        refine (SumType.fieldsFit_iff ?_ hlength).1 (SumType.fieldsFit_apply (hr.rows hd hv) w ts)
        exact hr.params _ d hd v (List.mem_of_find?_eq_some hv)

/-- A local name has the type of its binder, and a name from outside an instance of its scheme. -/
theorem inferVar_stays (hr : r.Defined) (hfree : r.ErrorFree) (hc : c.Sound)
    (hΓ : c.Within r outer Γ) (e : Expr) (name : String) :
    c.Stays (inferVar r e name) (fun e c' => c'.unifier.WellTyped r outer Γ e ∧
      (c'.unifier.errors = [] → e.isValue = true)) := by
  unfold inferVar
  refine .get_bind ?_
  split
  · rename_i s hs
    refine .lift_bind hc (instantiate_gives hc.sound (hΓ.knows hc hs) _) fun t c₁ h₁ ht => ?_
    refine (record_stays h₁.sound _ _ _ _).bind fun _ c₂ h₂ _ =>
      .pure h₂.sound ⟨⟨ht.1.leads h₂.unifier, fun v hv he => ?_⟩, fun _ => rfl⟩
    have hmodels := (hΓ (((h₁.unifier.trans h₂.unifier).trans hv).errors_nil he)).1
    have hlookup := Context.lookup_settle v.substitution Γ name
    cases hentry : Γ.lookup name with
    | none =>
      rw [hentry] at hlookup
      exact .outer hlookup ((hmodels.outer name hentry).symm.trans hs) (ht.2.2 v)
    | some entry =>
      rw [hentry] at hlookup
      cases entry with
      | general => exact .general hlookup
      | plain t' =>
        obtain rfl : s = .mono t' := Option.some.inj (hs.symm.trans (hmodels.plain name t' hentry))
        obtain rfl : t = t' := ht.2.1 rfl
        exact .plain hlookup
  · split
    · exact (construct_stays hr hfree hc hΓ _ (by simp) _).imp fun _ _ _ h =>
        ⟨h.1, fun he => h.2 he rfl⟩
    · exact (fail_stays hc _ _ _).bind fun _ _ h he => .pure h.sound
        ⟨wellTyped_of_errors he (Ty.below_of_effects_eq_nil rfl), fun he' => absurd he' he⟩

/-- What is dereferenced is a reference to what is found. -/
theorem target_stays (hc : c.Sound) {t : Ty} (ht : c.unifier.Knows t) (span : Span) :
    c.Stays (target t span) (fun inner c' => c'.unifier.Knows inner ∧
      c'.unifier.Forces fun v => ∃ k, v.apply t = .ref k (v.apply inner)) := by
  unfold target
  refine .lift_bind hc (find_gives hc.sound ht) fun head c₁ h₁ hhead => ?_
  obtain ⟨hknows, heq⟩ := hhead
  split
  · exact .pure h₁.sound ⟨knows_ref.1 hknows, heq.imp fun _ h => ⟨_, h⟩⟩
  · have herror : c₁.unifier.errors ≠ [] := fun he =>
      absurd (hknows.proper he) (by simp [Ty.containsError])
    exact .pure h₁.sound ⟨⟨Ty.below_of_effects_eq_nil rfl, fun he => absurd he herror⟩,
      forces_of_errors herror⟩
  · refine .lift_bind h₁.sound (freshType_gives h₁.sound.sound) fun inner c₂ h₂ hinner => ?_
    refine (unify_stays h₂.sound (knows_ref.2 (hinner _))
      (ht.leads (h₁.unifier.trans h₂.unifier)) _).bind fun _ c₃ h₃ hsame =>
        .pure h₃.sound ⟨hinner _, hsame.imp fun _ h => ⟨_, h.symm⟩⟩

theorem binaryType_stays (hc : c.Sound) (op : BinOp) (opSpan : Span) {left right : TExpr}
    (hl : c.unifier.Knows left.ty) (hr : c.unifier.Knows right.ty) :
    c.Stays (binaryType op opSpan left right) (fun t c' => c'.unifier.Knows t ∧
      c'.unifier.Forces fun v => op.Types (v.apply left.ty) (v.apply right.ty) (v.apply t)) := by
  have hbool : ∀ u : Unifier, u.Knows .bool := fun u => knows_of_closed rfl rfl
  have logical : ∀ {op : BinOp} {why why' : Provenance}, op = .and ∨ op = .or →
      c.Stays (do
        Unifier.unify .bool left.ty why
        Unifier.unify .bool right.ty why'
        return .bool) (fun t c' => c'.unifier.Knows t ∧
      c'.unifier.Forces fun v => op.Types (v.apply left.ty) (v.apply right.ty) (v.apply t)) := by
    intro op why why' hop
    refine (unify_stays hc (hbool _) hl _).bind fun _ c₁ h₁ hleft => ?_
    refine (unify_stays h₁.sound (hbool _) (hr.leads h₁.unifier) _).bind fun _ c₂ h₂ hright =>
      .pure h₂.sound ⟨hbool _, fun v hv he => ?_⟩
    have hleft := (hleft.leads h₂.unifier) v hv he
    dsimp only
    rw [← hleft, ← hright v hv he]
    rcases hop with rfl | rfl <;> exact ⟨rfl, rfl, rfl⟩
  unfold binaryType
  dsimp only
  split
  · exact logical (.inl rfl)
  · exact logical (.inr rfl)
  all_goals
    refine (unify_stays hc hl hr _).bind fun _ c₁ h₁ heq => ?_
    have hl₁ := hl.leads h₁.unifier
    first
    | exact .pure h₁.sound ⟨hbool _, heq.imp fun _ h => ⟨h, rfl⟩⟩
    | exact (requireNumeric_stays h₁.sound hl₁ _).bind fun _ c₂ h₂ hnum =>
        .pure h₂.sound ⟨hbool _, fun v hv he =>
          ⟨(heq.leads h₂.unifier) v hv he, (hnum v hv he).ty, rfl⟩⟩
    | exact (requireNumeric_stays h₁.sound hl₁ _).bind fun _ c₂ h₂ hnum =>
        .pure h₂.sound ⟨hl₁.leads h₂.unifier, fun v hv he =>
          ⟨(heq.leads h₂.unifier) v hv he, (hnum v hv he).ty, rfl⟩⟩

theorem unaryType_stays (hc : c.Sound) (op : UnOp) (opSpan : Span) {operand : TExpr}
    (ho : c.unifier.Knows operand.ty) :
    c.Stays (unaryType op opSpan operand) (fun t c' => c'.unifier.Knows t ∧
      c'.unifier.Forces fun v => op.Types (v.apply operand.ty) (v.apply t)) := by
  have hbool : ∀ u : Unifier, u.Knows .bool := fun u => knows_of_closed rfl rfl
  unfold unaryType
  split
  · exact (requireNumeric_stays hc ho _).bind fun _ c₁ h₁ hnum =>
      .pure h₁.sound ⟨ho.leads h₁.unifier, fun v hv he => ⟨(hnum v hv he).ty, rfl⟩⟩
  · exact (unify_stays hc (hbool _) ho _).bind fun _ c₁ h₁ heq =>
      .pure h₁.sound ⟨hbool _, fun v hv he => ⟨(heq v hv he).symm, rfl⟩⟩

theorem requireBool_stays (hc : c.Sound) {e : TExpr} (he : c.unifier.Knows e.ty) :
    c.Stays (liftM (requireBool e)) (fun _ c' => c'.unifier.Forces fun v => v.apply e.ty = .bool) :=
  (unify_stays hc (knows_of_closed rfl rfl) he _).imp fun _ _ _ h => h.imp fun _ h => h.symm

end Checker

end RowCheck
