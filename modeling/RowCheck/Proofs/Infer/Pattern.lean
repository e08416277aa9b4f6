import RowCheck.Proofs.Infer.Rules

/-!
Checking patterns. The row that a match performs itself gathers the effects of its active patterns,
and each of them is included in the context.
-/
namespace RowCheck

namespace Unifier

variable {u : Unifier}

theorem freshItems_does (hu : u.Valid) (ps : List Pattern) :
    u.Does (Checker.freshItems ps) (fun ts _ => ∀ t ∈ ts, ∀ n, t.Below n) := by
  induction ps generalizing u with
  | nil => exact .pure hu (by simp)
  | cons p ps ih =>
    unfold Checker.freshItems
    refine (freshType_does hu).bind fun t u₁ h₁ ht => ?_
    refine (ih h₁.valid).bind fun ts u₂ h₂ hts => .pure h₂.valid ?_
    simp only [List.mem_cons, forall_eq_or_imp]
    exact ⟨ht, hts⟩

end Unifier

namespace Checker

open Unifier

variable {r : Registries} {c : Checker}

/-- Whether a row is promised to be covered by the context at hand. -/
abbrev Performs (c : Checker) (row : Row) : Prop := c.unifier.Promises row c.context

theorem Performs.advances {c' : Checker} {row : Row} (h : c.Performs row) (hc : c.Advances c') :
    c'.Performs row := by
  rw [Performs, hc.context]
  exact Promises.advances h hc.unifier

theorem includeRow_does (hc : c.Valid) {row : Row} (hr : row.Below c.unifier.rowCount)
    (why : Provenance) :
    c.Does (liftM (Unifier.includeRow row c.context why)) (fun _ c' => c'.Performs row) :=
  (Does.lift hc (includeRow_promises hc.unifier hr hc.context why)).imp fun _ _ h hp => by
    rw [Performs, h.context]
    exact hp

/-- What a name of a constructor was found to stand for. -/
structure Found (c : Checker) (found : CaseTarget × Row) : Prop where
  fields : ∀ t ∈ found.1.fields, t.Below c.unifier.rowCount
  effects : c.Performs found.2

/-- The function of an active pattern has the type of its name in scope. -/
theorem activeType_does (hc : c.Valid) (p : ActivePattern) (span : Span)
    {m : Ty → CheckM (CaseTarget × Row)} {Q : CaseTarget × Row → Checker → Prop}
    (hm : ∀ t c', c.Advances c' → t.Below c'.unifier.rowCount → c'.Does (m t) Q) :
    c.Does (match c.env.lookup p.name with
      | some s => liftM (s.instantiate span) >>= m
      | none => pure Ty.error >>= m) Q := by
  split
  · rename_i s hs
    exact .lift_bind hc (instantiate_does hc.unifier (hc.env.lookup hs) span) hm
  · exact (Does.pure hc (Ty.below_of_effects_eq_nil rfl)).bind hm

theorem activeFields_below (hr : r.RowsClosed) (p : ActivePattern) (name : String) (n : Nat) :
    ∀ t ∈ (match (r.types.get? p.name).bind (·.variant? name) with
      | some v => v.fields
      | none => []), t.Below n := by
  intro t hmem
  split at hmem
  · rename_i v hv
    obtain ⟨d, hd, hv⟩ := Option.bind_eq_some_iff.1 hv
    exact (Ty.rows_eq_nil_iff.1 (hr.variant hd hv t hmem)).mono (Nat.zero_le n)
  · cases hmem

theorem applyActive_does (hr : r.RowsClosed) (hc : c.Valid) (p : ActivePattern) (name : String)
    {expected : Ty} (ht : expected.Below c.unifier.rowCount) (span : Span) :
    c.Does (applyActive r p name expected span) (fun found c' => c'.Found found) := by
  unfold applyActive
  refine .get_bind (activeType_does hc p span fun function c₁ h₁ hf => ?_)
  refine .lift_bind h₁.valid (freshFunction_does h₁.valid.unifier) fun parts c₂ h₂ hparts => ?_
  obtain ⟨hparam, hresult, heffects⟩ := hparts
  refine (unify_does h₂.valid (Ty.below_fn.2 ⟨hparam, hresult, heffects⟩) (hf.mono h₂.rows) _).bind
    fun _ c₃ h₃ _ => ?_
  refine (unify_does h₃.valid (hparam.mono h₃.rows)
    (ht.mono (h₁.trans (h₂.trans h₃)).rows) _).bind fun _ c₄ h₄ _ => ?_
  refine (unify_does h₄.valid (Ty.below_of_effects_eq_nil rfl)
    (hresult.mono (h₃.trans h₄).rows) _).bind fun _ c₅ h₅ _ => .get_bind ?_
  refine (includeRow_does h₅.valid (heffects.mono (h₃.trans (h₄.trans h₅)).rows) _).bind
    fun _ c₆ h₆ hperf => .pure h₆.valid ⟨activeFields_below hr p name _, hperf⟩

theorem ownVariant?_below (hr : r.RowsClosed) {n : Nat} {t : Ty} (ht : t.Below n) {name : String}
    {target : CaseTarget} (h : ownVariant? r name t = some target) :
    ∀ t ∈ target.fields, t.Below n := by
  unfold ownVariant? at h
  split at h
  · rename_i typeName args
    simp only [Option.bind_eq_bind, Option.bind_eq_some_iff, Option.pure_def,
      Option.some.injEq] at h
    obtain ⟨d, hd, v, hv, rfl⟩ := h
    exact SumType.fieldsAt_below (hr.variant hd hv) (Ty.below_named.1 ht)
  · cases h

theorem resolveCase_does (hr : r.RowsClosed) (hc : c.Valid) (name : String) {expected : Ty}
    (ht : expected.Below c.unifier.rowCount) (span : Span) :
    c.Does (resolveCase r name expected span)
      (fun found c' => ∀ f, found = some f → c'.Found f) := by
  have hpure : ∀ {c' : Checker}, c'.Performs .pure := promises_pure _ _
  unfold resolveCase
  refine .get_bind ?_
  split
  · rename_i target htarget
    refine .pure hc fun f hf => ?_
    cases hf
    exact ⟨ownVariant?_below hr (hc.unifier.substitution.apply_below ht) htarget, hpure⟩
  · split
    · rename_i p _
      refine (applyActive_does hr hc p name ht span).bind fun found c₁ h₁ hfound => ?_
      refine .pure h₁.valid fun f hf => ?_
      cases hf
      exact hfound
    · split
      · exact .pure hc fun f hf => by cases hf
      · rename_i d v hcon
        refine .lift_bind hc (freshTypes_does hc.unifier d.params) fun ts c₁ h₁ hts => ?_
        refine (unify_does h₁.valid (ht.mono h₁.rows) (Ty.below_named.2 fun t ht => hts t ht _)
          _).bind fun _ c₂ h₂ _ => .pure h₂.valid fun f hf => ?_
        cases hf
        exact ⟨SumType.fieldsAt_below (hr.constructor hcon) fun t ht => hts t ht _, hpure⟩

theorem bindPatternName_does (hc : c.Valid) (name : String) {expected : Ty}
    (ht : expected.Below c.unifier.rowCount) (span : Span) :
    c.Does (bindPatternName name expected span) (fun _ _ => True) := by
  unfold bindPatternName
  refine (checkName_does hc _).bind fun _ c₁ h₁ _ => ?_
  exact (bindMono_does h₁.valid name (ht.mono h₁.rows)).bind fun _ _ h _ => .pure h.valid trivial

/-- What checking a pattern keeps to: it leads to a state in which the effects that it gathers are
promised. -/
abbrev Gathers {α : Type} (c : Checker) (m : CheckM (α × Row)) : Prop :=
  c.Does m (fun p c' => c'.Performs p.2)

mutual

theorem inferPattern_does (hr : r.RowsClosed) : (p : Pattern) → (expected : Ty) → (own : Row) →
    (c : Checker) → c.Valid → expected.Below c.unifier.rowCount → c.Performs own →
    c.Gathers (inferPattern r p expected own)
  | .wild span, expected, own, c, hc, ht, ho => by
    unfold inferPattern
    exact .pure hc ho
  | .var span name, expected, own, c, hc, ht, ho => by
    have hfound : ∀ {m : Option (CaseTarget × Row) → CheckM (TPattern × Row)},
        (∀ found c', c.Advances c' → (∀ f, found = some f → c'.Found f) → c'.Gathers (m found)) →
        c.Gathers (if Text.isCapitalized name then resolveCase r name expected span >>= m
          else pure none >>= m) := by
      intro m hm
      split
      · exact (resolveCase_does hr hc name ht span).bind hm
      · exact (Does.pure hc fun f hf => by cases hf).bind hm
    unfold inferPattern
    refine hfound fun found c₁ h₁ hf => ?_
    dsimp only
    split
    · exact (bindPatternName_does h₁.valid name (ht.mono h₁.rows) span).bind fun _ _ h _ =>
        .pure h.valid (ho.advances (h₁.trans h))
    · rename_i target effects
      have ho₁ : c₁.Performs (own.union effects) := (ho.advances h₁).union (hf _ rfl).effects
      split
      · exact .pure h₁.valid ho₁
      · exact (fail_does h₁.valid _ _ _).bind fun _ _ h _ => .pure h.valid (ho₁.advances h)
  | .lit span value, expected, own, c, hc, ht, ho => by
    unfold inferPattern
    refine (checkLiteral_does hc value span).bind fun _ c₁ h₁ _ => ?_
    refine (unify_does h₁.valid (ht.mono h₁.rows) (Ty.below_of_effects_eq_nil ?_) _).bind
      fun _ c₂ h₂ _ => .pure h₂.valid (ho.advances (h₁.trans h₂))
    cases value <;> rfl
  | .tuple span items, expected, own, c, hc, ht, ho => by
    unfold inferPattern
    refine .lift_bind hc (freshItems_does hc.unifier items) fun ts c₁ h₁ hts => ?_
    refine (unify_does h₁.valid (ht.mono h₁.rows) (Ty.below_tuple.2 fun t ht => hts t ht _)
      _).bind fun _ c₂ h₂ _ => ?_
    exact (inferPatterns_does hr items ts own c₂ h₂.valid (fun t ht => hts t ht _)
      (ho.advances (h₁.trans h₂))).bind fun _ c₃ h₃ h => .pure h₃.valid h
  | .ctor span name args, expected, own, c, hc, ht, ho => by
    unfold inferPattern
    refine (resolveCase_does hr hc name ht span).bind fun found c₁ h₁ hfound => ?_
    split
    · refine (fail_does h₁.valid _ _ _).bind fun _ c₂ h₂ _ => ?_
      exact (bindOnly_does hr args own c₂ h₂.valid (ho.advances (h₁.trans h₂))).bind
        fun _ c₃ h₃ h => .pure h₃.valid h
    · rename_i target effects
      obtain ⟨hfields, heffects⟩ := hfound _ rfl
      have ho₁ : c₁.Performs (own.union effects) := (ho.advances h₁).union heffects
      split
      · exact (inferPatterns_does hr args target.fields _ c₁ h₁.valid hfields ho₁).bind
          fun _ c₂ h₂ h => .pure h₂.valid h
      · refine (fail_does h₁.valid _ _ _).bind fun _ c₂ h₂ _ => ?_
        exact (bindOnly_does hr args _ c₂ h₂.valid (ho₁.advances h₂)).bind
          fun _ c₃ h₃ h => .pure h₃.valid h

theorem inferPatterns_does (hr : r.RowsClosed) : (ps : List Pattern) → (ts : List Ty) →
    (own : Row) → (c : Checker) → c.Valid → (∀ t ∈ ts, t.Below c.unifier.rowCount) → c.Performs own →
    c.Gathers (inferPatterns r ps ts own)
  | [], _, own, c, hc, _, ho => by
    unfold inferPatterns
    exact .pure hc ho
  | _ :: _, [], own, c, hc, _, ho => by
    unfold inferPatterns
    exact .pure hc ho
  | p :: ps, t :: ts, own, c, hc, ht, ho => by
    simp only [List.mem_cons, forall_eq_or_imp] at ht
    unfold inferPatterns
    refine (inferPattern_does hr p t own c hc ht.1 ho).bind fun q c₁ h₁ hq => ?_
    have hts : ∀ t ∈ ts, t.Below c₁.unifier.rowCount := fun t h => (ht.2 t h).mono h₁.rows
    exact (inferPatterns_does hr ps ts q.2 c₁ h₁.valid hts hq).bind
      fun _ c₂ h₂ h => .pure h₂.valid h

theorem bindOnly_does (hr : r.RowsClosed) : (ps : List Pattern) → (own : Row) → (c : Checker) →
    c.Valid → c.Performs own → c.Does (bindOnly r ps own) (fun own c' => c'.Performs own)
  | [], own, c, hc, ho => by
    unfold bindOnly
    exact .pure hc ho
  | p :: ps, own, c, hc, ho => by
    unfold bindOnly
    refine .lift_bind hc (freshType_does hc.unifier) fun t c₁ h₁ ht => ?_
    refine (inferPattern_does hr p t own c₁ h₁.valid (ht _) (ho.advances h₁)).bind
      fun q c₂ h₂ hq => ?_
    exact bindOnly_does hr ps q.2 c₂ h₂.valid hq

end

end Checker

end RowCheck
