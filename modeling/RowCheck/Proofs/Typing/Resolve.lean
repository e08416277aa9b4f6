import RowCheck.Proofs.Typing.Checker

/-!
Written types resolve to known types, and the written variables in scope go on to stand for such.
-/
namespace RowCheck

/-- A valid scope whose variables stand for known types. -/
structure Unifier.Admits (u : Unifier) (scope : TypeScope) : Prop where
  below : scope.Below u.rowCount
  knows : u.KnowsScope scope

/-- An action on written variables leads on to a state that admits its scope, and its answer has
some property. -/
def Unifier.GivesIn {α : Type} (u : Unifier) (scope : TypeScope) (x : ResolveM α)
    (Q : α → Unifier → Prop) : Prop :=
  u.Gives (x.run scope) (fun r u' => u'.Admits r.2 ∧ Q r.1 u')

namespace Unifier.GivesIn

variable {u : Unifier} {scope : TypeScope} {α β : Type} {x : ResolveM α} {f : α → ResolveM β}
  {Q : α → Unifier → Prop} {R : β → Unifier → Prop}

theorem bind (h : u.GivesIn scope x Q)
    (hf : ∀ a u' scope', u.Leads u' → u'.Admits scope' → Q a u' → u'.GivesIn scope' (f a) R) :
    u.GivesIn scope (x >>= f) R :=
  Gives.bind h fun r u' hlead hr => hf r.1 u' r.2 hlead hr.1 hr.2

theorem pure (hu : u.Sound) (hs : u.Admits scope) {a : α} (hq : Q a u) :
    u.GivesIn scope (pure a) Q :=
  Gives.pure hu ⟨hs, hq⟩

theorem lift_bind {y : UnifyM α} (h : u.Gives y Q)
    (hf : ∀ a u', u.Leads u' → Q a u' → u'.GivesIn scope (f a) R) :
    u.GivesIn scope (liftM y >>= f) R :=
  Gives.bind (f := fun a => (f a).run scope) h hf

theorem get_bind {f : TypeScope → ResolveM β} (h : u.GivesIn scope (f scope) R) :
    u.GivesIn scope (get >>= f) R := h

theorem set_bind {scope' : TypeScope} {f : PUnit → ResolveM β}
    (h : u.GivesIn scope' (f ⟨⟩) R) : u.GivesIn scope (set scope' >>= f) R := h

end Unifier.GivesIn

open Unifier

variable {u u' : Unifier} {scope : TypeScope}

namespace Unifier.Admits

theorem leads (h : u.Admits scope) (hu : u.Leads u') : u'.Admits scope :=
  ⟨h.below.mono hu.rows, h.knows.leads hu⟩

theorem insertType (h : u.Admits scope) (name : String) {t : Ty} (ht : u.Knows t) :
    u.Admits { scope with types := scope.types.insert name t } := by
  refine ⟨h.below.insertType name ht.below, fun other s hs => ?_⟩
  rw [SortedMap.get?_insert] at hs
  split at hs
  · cases hs
    exact ht
  · exact h.knows other s hs

theorem insertRow (h : u.Admits scope) (name : String) {v : RowVar} (hv : v < u.rowCount) :
    u.Admits { scope with rows := scope.rows.insert name v } :=
  ⟨h.below.insertRow name hv, h.knows⟩

end Unifier.Admits

namespace TypeExpr

theorem fail_gives (hu : u.Sound) (hs : u.Admits scope) (category : Category) (message : String)
    (span : Span) : u.GivesIn scope (fail category message span) (fun t u' => u'.Knows t) :=
  .lift_bind (report_gives hu _) fun _ _ h he =>
    .pure h.sound (hs.leads h) ⟨Ty.below_of_effects_eq_nil rfl, fun he' => absurd he' he⟩

theorem knows_builtin {name : String} {t : Ty} (h : builtin? name = some t) : u.Knows t := by
  unfold builtin? at h
  split at h
  · cases h
    exact knows_of_closed rfl rfl
  · split at h
    · cases h
      exact knows_of_closed rfl rfl
    · obtain ⟨p, -, rfl⟩ := Option.map_eq_some_iff.1 h
      exact knows_of_closed rfl rfl

theorem resolveNamed_gives (hu : u.Sound) (hs : u.Admits scope) (types : TypeRegistry)
    (span : Span) (name : String) {args : List Ty} (hargs : ∀ t ∈ args, u.Knows t) :
    u.GivesIn scope (resolveNamed types span name args) (fun t u' => u'.Knows t) := by
  unfold resolveNamed
  split
  · rename_i t ht
    split
    · exact .pure hu hs (knows_builtin ht)
    · exact fail_gives hu hs _ _ _
  · split
    · split
      · exact .pure hu hs (knows_named.2 hargs)
      · exact fail_gives hu hs _ _ _
    · exact fail_gives hu hs _ _ _

theorem resolveVar_gives (hu : u.Sound) (hs : u.Admits scope) (span : Span) (name : String) :
    u.GivesIn scope (resolveVar span name) (fun t u' => u'.Knows t) := by
  unfold resolveVar
  refine .get_bind ?_
  split
  · rename_i t ht
    exact .pure hu hs (hs.knows name t ht)
  · split
    · exact fail_gives hu hs _ _ _
    · refine .lift_bind (freshType_gives hu) fun t u' h ht => .set_bind ?_
      exact .pure h.sound ((hs.leads h).insertType name (ht _)) (ht _)

end TypeExpr

theorem RowExpr.resolve_gives (hu : u.Sound) (hs : u.Admits scope) (row : RowExpr) :
    u.GivesIn scope row.resolve (fun e u' => e.Below u'.rowCount) := by
  unfold RowExpr.resolve
  dsimp only
  split
  · exact .pure hu hs (Row.below_closed rfl)
  · refine .get_bind ?_
    split
    · rename_i v hv
      refine .pure hu hs fun w hw => ?_
      cases hw
      exact hs.below.rows _ _ hv
    · split
      · exact .lift_bind (report_gives hu _) fun _ _ h _ =>
          .pure h.sound (hs.leads h) (Row.below_closed rfl)
      · refine .lift_bind (freshRowVar_leavesTypes.gives hu (freshRowVar_does hu.toValid))
          fun v u' h hv => .set_bind ?_
        refine .pure h.sound ((hs.leads h).insertRow _ hv.2.1) fun w hw => ?_
        cases hw
        exact hv.2.1

mutual

theorem TypeExpr.resolve_gives (types : TypeRegistry) : (t : TypeExpr) → (u : Unifier) →
    (scope : TypeScope) → u.Sound → u.Admits scope →
    u.GivesIn scope (t.resolve types) (fun t u' => u'.Knows t)
  | .named span name args, u, scope, hu, hs => by
    unfold TypeExpr.resolve
    refine (TypeExpr.resolveList_gives types args u scope hu hs).bind
      fun ts u' scope' h hs' hts => ?_
    exact TypeExpr.resolveNamed_gives h.sound hs' types span name hts
  | .var span name, u, scope, hu, hs => by
    unfold TypeExpr.resolve
    exact TypeExpr.resolveVar_gives hu hs span name
  | .tuple _ items, u, scope, hu, hs => by
    unfold TypeExpr.resolve
    exact (TypeExpr.resolveList_gives types items u scope hu hs).bind
      fun ts u' scope' h hs' hts => .pure h.sound hs' (knows_tuple.2 hts)
  | .ref _ unique inner, u, scope, hu, hs => by
    unfold TypeExpr.resolve
    exact (TypeExpr.resolve_gives types inner u scope hu hs).bind
      fun t u' scope' h hs' ht => .pure h.sound hs' (knows_ref.2 ht)
  | .fn _ param result effects, u, scope, hu, hs => by
    unfold TypeExpr.resolve
    refine (TypeExpr.resolve_gives types param u scope hu hs).bind fun p u₁ scope₁ h₁ hs₁ hp => ?_
    refine (TypeExpr.resolve_gives types result u₁ scope₁ h₁.sound hs₁).bind
      fun r u₂ scope₂ h₂ hs₂ hr => ?_
    split
    · rename_i row
      refine (RowExpr.resolve_gives h₂.sound hs₂ row).bind fun e u₃ scope₃ h₃ hs₃ he => ?_
      exact .pure h₃.sound hs₃ (knows_fn.2 ⟨hp.leads (h₂.trans h₃), hr.leads h₃, he⟩)
    · exact .pure h₂.sound hs₂ (knows_fn.2 ⟨hp.leads h₂, hr, Row.below_closed rfl⟩)

theorem TypeExpr.resolveList_gives (types : TypeRegistry) : (ts : List TypeExpr) →
    (u : Unifier) → (scope : TypeScope) → u.Sound → u.Admits scope →
    u.GivesIn scope (TypeExpr.resolveList types ts) (fun ts u' => ∀ t ∈ ts, u'.Knows t)
  | [], u, scope, hu, hs => .pure hu hs (by simp)
  | t :: ts, u, scope, hu, hs => by
    unfold TypeExpr.resolveList
    refine (TypeExpr.resolve_gives types t u scope hu hs).bind fun t' u₁ scope₁ h₁ hs₁ ht => ?_
    refine (TypeExpr.resolveList_gives types ts u₁ scope₁ h₁.sound hs₁).bind
      fun ts' u₂ scope₂ h₂ hs₂ hts => .pure h₂.sound hs₂ ?_
    simp only [List.mem_cons, forall_eq_or_imp]
    exact ⟨ht.leads h₂, hts⟩

end

namespace Checker

variable {c : Checker}

theorem Sound.admits (hc : c.Sound) : c.unifier.Admits c.scope := ⟨hc.scope, hc.written⟩

theorem resolving_stays (hc : c.Sound) {α : Type} {x : ResolveM α} {Q : α → Unifier → Prop}
    (h : c.unifier.GivesIn c.scope x Q) :
    c.Stays (resolving x) (fun a c' => Q a c'.unifier) := by
  obtain ⟨hlead, ⟨hscope, hknows⟩, hq⟩ := h
  have hrows := hlead.rows
  exact ⟨⟨⟨⟨⟨hlead.valid, hc.env.mono hrows, hc.context.mono hrows, hscope⟩, hlead.sound, hknows⟩,
    hlead⟩, fun _ => rfl, fun _ => rfl⟩, hq⟩

theorem resolveType_stays (hc : c.Sound) (types : TypeRegistry) (written : TypeExpr) :
    c.Stays (resolving (written.resolve types)) (fun t c' => c'.unifier.Knows t) :=
  resolving_stays hc (TypeExpr.resolve_gives types written _ _ hc.sound hc.admits)

end Checker

end RowCheck
