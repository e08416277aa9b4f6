import RowCheck.Proofs.Infer.Checker

/-!
Written types and rows resolve to types and rows whose row variables were made, and the written
variables in scope go on to stand for such.
-/
namespace RowCheck

/-- An action on written variables advances the state of unification and keeps the scope below its
row variables, and its answer has some property. -/
def Unifier.ResolvesIn {α : Type} (u : Unifier) (scope : TypeScope) (x : ResolveM α)
    (Q : α → Unifier → Prop) : Prop :=
  u.Does (x.run scope) (fun r u' => r.2.Below u'.rowCount ∧ Q r.1 u')

namespace Unifier.ResolvesIn

variable {u : Unifier} {scope : TypeScope} {α β : Type} {x : ResolveM α} {f : α → ResolveM β}
  {Q : α → Unifier → Prop} {R : β → Unifier → Prop}

theorem bind (h : u.ResolvesIn scope x Q)
    (hf : ∀ a u' scope', u.Advances u' → scope'.Below u'.rowCount → Q a u' →
      u'.ResolvesIn scope' (f a) R) : u.ResolvesIn scope (x >>= f) R :=
  Does.bind h fun r u' hadv hr => hf r.1 u' r.2 hadv hr.1 hr.2

theorem pure (hu : u.Valid) (hs : scope.Below u.rowCount) {a : α} (hq : Q a u) :
    u.ResolvesIn scope (pure a) Q :=
  Does.pure hu ⟨hs, hq⟩

theorem lift_bind {y : UnifyM α} (h : u.Does y Q)
    (hf : ∀ a u', u.Advances u' → Q a u' → u'.ResolvesIn scope (f a) R) :
    u.ResolvesIn scope (liftM y >>= f) R :=
  Does.bind (f := fun a => (f a).run scope) h hf

theorem get_bind {f : TypeScope → ResolveM β} (h : u.ResolvesIn scope (f scope) R) :
    u.ResolvesIn scope (get >>= f) R := h

theorem set_bind {scope' : TypeScope} {f : PUnit → ResolveM β}
    (h : u.ResolvesIn scope' (f ⟨⟩) R) : u.ResolvesIn scope (set scope' >>= f) R := h

end Unifier.ResolvesIn

open Unifier

variable {u : Unifier} {scope : TypeScope}

theorem TypeScope.Below.insertType {n : Nat} (h : scope.Below n) (name : String) {t : Ty}
    (ht : t.Below n) : TypeScope.Below n { scope with types := scope.types.insert name t } := by
  refine ⟨fun other s hs => ?_, h.rows⟩
  rw [SortedMap.get?_insert] at hs
  split at hs
  · cases hs
    exact ht
  · exact h.types other s hs

theorem TypeScope.Below.insertRow {n : Nat} (h : scope.Below n) (name : String) {v : RowVar}
    (hv : v < n) : TypeScope.Below n { scope with rows := scope.rows.insert name v } := by
  refine ⟨h.types, fun other w hw => ?_⟩
  rw [SortedMap.get?_insert] at hw
  split at hw
  · cases hw
    exact hv
  · exact h.rows other w hw

namespace TypeExpr

theorem fail_resolves (hu : u.Valid) (hs : scope.Below u.rowCount) (category : Category)
    (message : String) (span : Span) :
    u.ResolvesIn scope (fail category message span) (fun t u' => t.Below u'.rowCount) :=
  .lift_bind (report_does hu _) fun _ _ h _ =>
    .pure h.valid (hs.mono h.rows) (Ty.below_of_effects_eq_nil rfl)

theorem effects_of_builtin? {name : String} {t : Ty} (h : builtin? name = some t) :
    t.effects = [] := by
  unfold builtin? at h
  split at h
  · cases h
    rfl
  · split at h
    · cases h
      rfl
    · obtain ⟨p, -, rfl⟩ := Option.map_eq_some_iff.1 h
      rfl

theorem resolveNamed_resolves (hu : u.Valid) (hs : scope.Below u.rowCount) (types : TypeRegistry)
    (span : Span) (name : String) {args : List Ty} (hargs : ∀ t ∈ args, t.Below u.rowCount) :
    u.ResolvesIn scope (resolveNamed types span name args) (fun t u' => t.Below u'.rowCount) := by
  unfold resolveNamed
  split
  · rename_i t ht
    split
    · exact .pure hu hs (Ty.below_of_effects_eq_nil (effects_of_builtin? ht))
    · exact fail_resolves hu hs _ _ _
  · split
    · split
      · exact .pure hu hs (Ty.below_named.2 hargs)
      · exact fail_resolves hu hs _ _ _
    · exact fail_resolves hu hs _ _ _

theorem resolveVar_resolves (hu : u.Valid) (hs : scope.Below u.rowCount) (span : Span)
    (name : String) :
    u.ResolvesIn scope (resolveVar span name) (fun t u' => t.Below u'.rowCount) := by
  unfold resolveVar
  refine .get_bind ?_
  split
  · rename_i t ht
    exact .pure hu hs (hs.types name t ht)
  · split
    · exact fail_resolves hu hs _ _ _
    · refine .lift_bind (freshType_does hu) fun t u' h ht => .set_bind ?_
      exact .pure h.valid ((hs.mono h.rows).insertType name (ht _)) (ht _)

end TypeExpr

theorem RowExpr.resolve_resolves (hu : u.Valid) (hs : scope.Below u.rowCount) (row : RowExpr) :
    u.ResolvesIn scope row.resolve (fun e u' => e.Below u'.rowCount ∧
      (row.tail = none → e = .closed (row.labels.map (·.text)))) := by
  unfold RowExpr.resolve
  dsimp only
  split
  · exact .pure hu hs ⟨Row.below_closed rfl, fun _ => rfl⟩
  · rename_i tail htail
    refine .get_bind ?_
    split
    · rename_i v hv
      refine .pure hu hs ⟨fun w hw => ?_, fun h => by rw [htail] at h; cases h⟩
      cases hw
      exact hs.rows _ _ hv
    · split
      · exact .lift_bind (report_does hu _) fun _ _ h _ => .pure h.valid (hs.mono h.rows)
          ⟨Row.below_closed rfl, fun h => by rw [htail] at h; cases h⟩
      · refine .lift_bind (freshRowVar_does hu) fun v u' h hv => .set_bind ?_
        refine .pure h.valid ((hs.mono h.rows).insertRow _ hv.2.1) ⟨fun w hw => ?_, fun h => ?_⟩
        · cases hw
          exact hv.2.1
        · rw [htail] at h
          cases h

mutual

theorem TypeExpr.resolve_resolves (types : TypeRegistry) : (t : TypeExpr) → (u : Unifier) →
    (scope : TypeScope) → u.Valid → scope.Below u.rowCount →
    u.ResolvesIn scope (t.resolve types) (fun t u' => t.Below u'.rowCount)
  | .named span name args, u, scope, hu, hs => by
    unfold TypeExpr.resolve
    refine (TypeExpr.resolveList_resolves types args u scope hu hs).bind
      fun ts u' scope' h hs' hts => ?_
    exact TypeExpr.resolveNamed_resolves h.valid hs' types span name hts
  | .var span name, u, scope, hu, hs => by
    unfold TypeExpr.resolve
    exact TypeExpr.resolveVar_resolves hu hs span name
  | .tuple _ items, u, scope, hu, hs => by
    unfold TypeExpr.resolve
    refine (TypeExpr.resolveList_resolves types items u scope hu hs).bind
      fun ts u' scope' h hs' hts => ?_
    exact .pure h.valid hs' (Ty.below_tuple.2 hts)
  | .ref _ unique inner, u, scope, hu, hs => by
    unfold TypeExpr.resolve
    refine (TypeExpr.resolve_resolves types inner u scope hu hs).bind
      fun t u' scope' h hs' ht => ?_
    exact .pure h.valid hs' (Ty.below_ref.2 ht)
  | .fn _ param result effects, u, scope, hu, hs => by
    unfold TypeExpr.resolve
    refine (TypeExpr.resolve_resolves types param u scope hu hs).bind
      fun p u₁ scope₁ h₁ hs₁ hp => ?_
    refine (TypeExpr.resolve_resolves types result u₁ scope₁ h₁.valid hs₁).bind
      fun r u₂ scope₂ h₂ hs₂ hr => ?_
    split
    · rename_i row
      refine (RowExpr.resolve_resolves h₂.valid hs₂ row).bind fun e u₃ scope₃ h₃ hs₃ he => ?_
      exact .pure h₃.valid hs₃ (Ty.below_fn.2
        ⟨hp.mono (h₂.trans h₃).rows, hr.mono h₃.rows, he.1⟩)
    · exact .pure h₂.valid hs₂ (Ty.below_fn.2
        ⟨hp.mono h₂.rows, hr, Row.below_closed rfl⟩)

theorem TypeExpr.resolveList_resolves (types : TypeRegistry) : (ts : List TypeExpr) →
    (u : Unifier) → (scope : TypeScope) → u.Valid → scope.Below u.rowCount →
    u.ResolvesIn scope (TypeExpr.resolveList types ts) (fun ts u' => ∀ t ∈ ts, t.Below u'.rowCount)
  | [], u, scope, hu, hs => .pure hu hs (by simp)
  | t :: ts, u, scope, hu, hs => by
    unfold TypeExpr.resolveList
    refine (TypeExpr.resolve_resolves types t u scope hu hs).bind fun t' u₁ scope₁ h₁ hs₁ ht => ?_
    refine (TypeExpr.resolveList_resolves types ts u₁ scope₁ h₁.valid hs₁).bind
      fun ts' u₂ scope₂ h₂ hs₂ hts => ?_
    refine .pure h₂.valid hs₂ ?_
    simp only [List.mem_cons, forall_eq_or_imp]
    exact ⟨ht.mono h₂.rows, hts⟩

end

namespace Checker

variable {c : Checker}

theorem resolving_does (hc : c.Valid) {α : Type} {x : ResolveM α} {Q : α → Unifier → Prop}
    (h : c.unifier.ResolvesIn c.scope x Q) :
    c.Does (resolving x) (fun a c' => Q a c'.unifier) :=
  ⟨⟨⟨h.1.valid, hc.env.mono h.1.rows, hc.context.mono h.1.rows, h.2.1⟩, h.1, rfl⟩, h.2.2⟩

end Checker

end RowCheck
