import RowCheck.Proofs.Infer.Resolve
import RowCheck.Proofs.Typing.Context
import RowCheck.Proofs.Unify.Forces

/-!
The state of checking a group, as far as types go. What an action finds out about types is forced on
all later states; and it ends in the scope that it began in, with what that scope knows.
-/
namespace RowCheck

namespace Unifier

variable {u u' : Unifier}

theorem knows_literal (value : Literal) : u.Knows value.ty := by
  cases value <;> exact knows_of_closed rfl rfl

/-! ## Schemes -/

/-- Whether a scheme mentions only what was made or is quantified, and no type of a failed
expression as long as nothing is at fault. -/
structure KnowsScheme (u : Unifier) (s : Scheme) : Prop where
  below : s.Below u.rowCount
  proper : u.errors = [] → s.ty.containsError = false

theorem KnowsScheme.leads {s : Scheme} (h : u.KnowsScheme s) (hu : u.Leads u') :
    u'.KnowsScheme s :=
  ⟨h.below.mono hu.rows, fun he => h.proper (hu.errors_nil he)⟩

theorem knowsScheme_mono {t : Ty} (h : u.Knows t) : u.KnowsScheme (.mono t) :=
  ⟨Scheme.below_mono_iff.2 h.below, h.proper⟩

/-- Generalizing leaves types as they are. -/
theorem generalize_gives (hu : u.Sound) {t : Ty} (ht : u.Knows t) (env : TypeEnv)
    (topLevel : Bool) : u.Gives (generalize t env topLevel) (fun s u' => u'.KnowsScheme s) := by
  obtain ⟨hlead, hbelow⟩ := (generalize_leavesTypes t env topLevel).gives hu
    (generalize_does hu.toValid ht.below env topLevel)
  refine ⟨hlead, hbelow, fun he => ?_⟩
  have hclean := (ht.leads hlead).clean hlead.sound he
  unfold generalize
  cases topLevel <;> exact hclean

theorem freshCopies_gives (hu : u.Sound) (numeric : SortedSet TyVar) (span : Span)
    (vs : List TyVar) :
    u.Gives (freshCopies numeric span vs) (fun copies _ => ∀ c ∈ copies, ∃ w, c.2 = .var w) := by
  induction vs generalizing u with
  | nil => exact .pure hu (by simp)
  | cons v vs ih =>
    have rest : ∀ {u₁ : Unifier} (w : TyVar), u₁.Sound →
        u₁.Gives (freshCopies numeric span vs >>= fun copies => pure ((v, .var w) :: copies))
          (fun copies _ => ∀ c ∈ copies, ∃ w, c.2 = .var w) := fun w h₁ =>
      (ih h₁).bind fun copies _ h₂ hcopies => .pure h₂.sound (by simpa using hcopies)
    unfold freshCopies
    refine (freshTypeVar_leavesTypes.gives hu (freshTypeVar_does hu.toValid)).bind
      fun w u₁ h₁ _ => ?_
    dsimp only
    split
    · obtain ⟨hadv, hsub, hpend, -, hkeep⟩ := addNumeric_bounds h₁.sound.toValid w span
      refine Gives.bind (Q := fun _ _ => True) ⟨⟨hadv.toGrows, ⟨hadv.valid, ?_, ?_⟩, ?_⟩, trivial⟩
        fun _ _ h₂ _ => rest w h₂.sound
      · intro he v
        rw [Clean, apply, hsub]
        exact h₁.sound.spotless (hadv.toGrows.errors_nil he) v
      · exact fun he => (h₁.sound.inclusions (hadv.toGrows.errors_nil he)).of_pending hpend
      · refine fun _ x hx => hx.grows h₁.sound.toValid hadv.toGrows fun v hv hn => ?_
        exact numeric_var (hsub ▸ unbound_of_apply h₁.sound.toValid hv) (hkeep v hn)
    · exact rest w h₁.sound

/-- Whatever the variables of an instance come to stand for, it stays one. -/
theorem apply_instance {s : Scheme} {t : Ty} (h : s.Instance t) : s.Instance (u.apply t) := by
  obtain ⟨types, rows, rfl⟩ := h
  refine ⟨fun v => u.apply (types v), fun v => u.findRow (rows v), ?_⟩
  rw [apply, Substitution.apply_eq_mapVars, Ty.mapVars_mapVars]
  refine Ty.mapVars_congr (fun v _ => (Substitution.apply_eq_mapVars ..).symm) fun e _ => ?_
  unfold Row.instantiate
  split
  · exact Substitution.findRow_closed ‹_›
  · exact Substitution.findRow_extend ..

/-- A copy of a type with the variables of a scheme replaced is an instance of it. -/
theorem substitute_instance (s : Scheme) (types : SortedMap TyVar Ty)
    (rows : SortedMap RowVar RowVar) : s.Instance (s.ty.substitute types rows) := by
  refine ⟨fun v => (types.get? v).getD (.var v), fun v => .ofVar ((rows.get? v).getD v), ?_⟩
  refine Ty.mapVars_congr (fun _ _ => rfl) fun e _ => ?_
  unfold Row.instantiate
  split
  · rename_i ht
    rw [ht, Option.map_none, ← ht]
  · rename_i v ht
    rw [ht, Option.map_some]
    exact Row.eq_extend_ofVar rfl

/-- A use of a scheme has an instance of it. -/
theorem instantiate_instance (s : Scheme) (span : Span) (u : Unifier) :
    s.Instance (s.instantiate span u).1 := by
  unfold Scheme.instantiate
  split
  · have hself : s.ty.substitute ∅ ∅ = s.ty :=
      Ty.mapVars_eq_self (fun _ _ => by simp) fun e _ => by
        cases e with | mk l t => cases t <;> simp
    exact hself ▸ substitute_instance s ∅ ∅
  · exact substitute_instance s _ _

/-- A use of a scheme has the type of the scheme, if that quantifies nothing, and an instance of it
in any case, whatever the variables come to stand for. -/
theorem instantiate_gives (hu : u.Sound) {s : Scheme} (hs : u.KnowsScheme s) (span : Span) :
    u.Gives (s.instantiate span) (fun t u' => u'.Knows t ∧ (s.isMono = true → t = s.ty) ∧
      ∀ v : Unifier, s.Instance (v.apply t)) := by
  obtain ⟨-, hbelow⟩ := instantiate_does hu.toValid hs.below span
  have hinstance : ∀ v : Unifier, s.Instance (v.apply (s.instantiate span u).1) := fun v =>
    apply_instance (instantiate_instance s span u)
  unfold Scheme.instantiate at hbelow hinstance ⊢
  split
  · rename_i hmono
    rw [if_pos hmono] at hbelow hinstance
    exact .pure hu ⟨⟨hbelow, hs.proper⟩, fun _ => rfl, hinstance⟩
  · rename_i hmono
    rw [if_neg hmono] at hbelow hinstance
    -- that rows stay below is known of the whole action, and the rest follows its steps
    suffices h : u.Gives _ (fun (t : Ty) u' => u'.errors = [] → t.containsError = false) from
      ⟨h.1, ⟨hbelow, h.2⟩, fun h' => absurd h' hmono, hinstance⟩
    refine (freshCopies_gives hu s.numeric span s.typeVars).bind fun types u₁ h₁ htypes => ?_
    refine ((freshRowCopies_leavesTypes s.rowVars).gives h₁.sound
      (freshRowCopies_does h₁.sound.toValid s.rowVars)).bind fun rows u₂ h₂ _ => ?_
    refine .pure h₂.sound fun he => ?_
    rw [Ty.substitute, Ty.mapVars_proper]
    refine ⟨hs.proper ((h₁.trans h₂).errors_nil he), fun v _ => ?_⟩
    cases hv : (SortedMap.ofList types).get? v with
    | none => rfl
    | some t =>
      obtain ⟨w, hw⟩ := htypes _ (SortedMap.mem_of_get?_ofList hv)
      obtain rfl : t = .var w := hw
      rfl

/-- Whether the written variables in scope stand for known types. -/
def KnowsScope (u : Unifier) (scope : TypeScope) : Prop :=
  ∀ name t, scope.types.get? name = some t → u.Knows t

theorem KnowsScope.leads {scope : TypeScope} (h : u.KnowsScope scope) (hu : u.Leads u') :
    u'.KnowsScope scope := fun name t ht => (h name t ht).leads hu

end Unifier

namespace Checker

open Unifier

/-- A valid state in which all types that are at hand are known. -/
structure Sound (c : Checker) : Prop extends c.Valid where
  sound : c.unifier.Sound
  written : c.unifier.KnowsScope c.scope

/-- A later state that keeps all that is known. -/
structure Leads (c c' : Checker) : Prop where
  sound : c'.Sound
  unifier : c.unifier.Leads c'.unifier

/-- A later state in the same scope, if nothing is at fault. -/
structure Follows (c c' : Checker) : Prop extends c.Leads c' where
  env : c'.unifier.errors = [] → c'.env = c.env
  active : c'.unifier.errors = [] → c'.active = c.active

variable {c c' c'' : Checker}

theorem Sound.leads (h : c.Sound) : c.Leads c := ⟨h, h.sound.leads⟩

theorem Sound.follows (h : c.Sound) : c.Follows c := ⟨h.leads, fun _ => rfl, fun _ => rfl⟩

theorem Leads.trans (h : c.Leads c') (h' : c'.Leads c'') : c.Leads c'' :=
  ⟨h'.sound, h.unifier.trans h'.unifier⟩

theorem Leads.errors_nil (h : c.Leads c') (he : c'.unifier.errors = []) : c.unifier.errors = [] :=
  h.unifier.errors_nil he

theorem Follows.trans (h : c.Follows c') (h' : c'.Follows c'') : c.Follows c'' where
  toLeads := h.toLeads.trans h'.toLeads
  env he := (h'.env he).trans (h.env (h'.errors_nil he))
  active he := (h'.active he).trans (h.active (h'.errors_nil he))

/-- An action leads on from a state, and its answer and the state it ends in have some property. -/
def Gives {α : Type} (c : Checker) (m : CheckM α) (Q : α → Checker → Prop) : Prop :=
  c.Leads (m c).2 ∧ Q (m c).1 (m c).2

/-- An action that moreover ends in the scope that it began in. -/
def Stays {α : Type} (c : Checker) (m : CheckM α) (Q : α → Checker → Prop) : Prop :=
  c.Follows (m c).2 ∧ Q (m c).1 (m c).2

section

variable {α β : Type} {m : CheckM α} {f : α → CheckM β} {Q Q' : α → Checker → Prop}
  {R : β → Checker → Prop}

theorem Gives.bind (h : c.Gives m Q) (hf : ∀ a c', c.Leads c' → Q a c' → c'.Gives (f a) R) :
    c.Gives (m >>= f) R := by
  obtain ⟨hlead, hq⟩ := h
  obtain ⟨hlead', hr⟩ := hf _ _ hlead hq
  exact ⟨hlead.trans hlead', hr⟩

theorem Gives.pure (hc : c.Sound) {a : α} (hq : Q a c) : c.Gives (pure a) Q := ⟨hc.leads, hq⟩

theorem Gives.get_bind {f : Checker → CheckM β} (h : c.Gives (f c) R) : c.Gives (get >>= f) R := h

theorem Stays.bind (h : c.Stays m Q) (hf : ∀ a c', c.Follows c' → Q a c' → c'.Stays (f a) R) :
    c.Stays (m >>= f) R := by
  obtain ⟨hfol, hq⟩ := h
  obtain ⟨hfol', hr⟩ := hf _ _ hfol hq
  exact ⟨hfol.trans hfol', hr⟩

theorem Stays.pure (hc : c.Sound) {a : α} (hq : Q a c) : c.Stays (pure a) Q := ⟨hc.follows, hq⟩

theorem Stays.imp (h : c.Stays m Q) (hq : ∀ a c', c.Follows c' → Q a c' → Q' a c') :
    c.Stays m Q' :=
  ⟨h.1, hq _ _ h.1 h.2⟩

theorem Stays.get_bind {f : Checker → CheckM β} (h : c.Stays (f c) R) : c.Stays (get >>= f) R := h

/-- An action within a scope is one that leads on. -/
theorem Stays.gives (h : c.Stays m Q) : c.Gives m (fun a c' => c.Follows c' ∧ Q a c') :=
  ⟨h.1.toLeads, h⟩

/-- An action that ends in the scope that it began in, by way of others. -/
theorem Gives.stays (h : c.Gives m Q) (henv : ∀ a c', Q a c' → c'.unifier.errors = [] →
    c'.env = c.env ∧ c'.active = c.active) : c.Stays m Q :=
  ⟨⟨h.1, fun he => (henv _ _ h.2 he).1, fun he => (henv _ _ h.2 he).2⟩, h.2⟩

theorem Stays.lift (hc : c.Sound) {x : UnifyM α} {Q : α → Unifier → Prop}
    (h : c.unifier.Gives x Q) : c.Stays (liftM x) (fun a c' => Q a c'.unifier) := by
  have hrows := h.1.rows
  have hvalid : Checker.Valid { c with unifier := (x c.unifier).2 } :=
    ⟨h.1.valid, hc.env.mono hrows, hc.context.mono hrows, hc.scope.mono hrows⟩
  exact ⟨⟨⟨⟨hvalid, h.1.sound, hc.written.leads h.1⟩, h.1⟩, fun _ => rfl, fun _ => rfl⟩, h.2⟩

theorem Stays.lift_bind (hc : c.Sound) {x : UnifyM α} {Q : α → Unifier → Prop}
    (h : c.unifier.Gives x Q)
    (hf : ∀ a c', c.Follows c' → Q a c'.unifier → c'.Stays (f a) R) :
    c.Stays (liftM x >>= f) R :=
  (Stays.lift hc h).bind hf

end

/-- Nothing is left to show of a state with errors. -/
theorem report_stays (hc : c.Sound) (d : Diagnostic) :
    c.Stays (liftM (report d)) (fun _ c' => c'.unifier.errors ≠ []) :=
  .lift hc (report_gives hc.sound d)

theorem fail_stays (hc : c.Sound) (category : Category) (message : String) (span : Span) :
    c.Stays (fail category message span) (fun _ c' => c'.unifier.errors ≠ []) :=
  report_stays hc _

theorem unify_stays (hc : c.Sound) {a b : Ty} (ha : c.unifier.Knows a) (hb : c.unifier.Knows b)
    (why : Provenance) :
    c.Stays (liftM (unify a b why)) (fun _ c' => c'.unifier.Forces fun v => v.apply a = v.apply b) :=
  .lift hc (unify_gives hc.sound ha hb why)

theorem requireNumeric_stays (hc : c.Sound) {t : Ty} (ht : c.unifier.Knows t) (why : Provenance) :
    c.Stays (liftM (requireNumeric t why)) (fun _ c' => c'.unifier.Forces fun v => v.Numeric t) :=
  .lift hc (requireNumeric_gives hc.sound ht why)

theorem includeRow_stays (hc : c.Sound) {row : Row} (hr : row.Below c.unifier.rowCount)
    (why : Provenance) : c.Stays (liftM (includeRow row c.context why)) (fun _ _ => True) :=
  .lift hc (includeRow_gives hc.sound hr hc.context why)

theorem record_stays (hc : c.Sound) (rule : InferRule) (e : Expr) (t : Ty) (detail : String) :
    c.Stays (record rule e t detail) (fun _ _ => True) := by
  simp only [record, Stays, modify, modifyGet, MonadStateOf.modifyGet, StateT.modifyGet, Pure.pure]
  split
  · exact ⟨⟨⟨⟨⟨hc.unifier, hc.env, hc.context, hc.scope⟩, hc.sound, hc.written⟩, hc.sound.leads⟩,
      fun _ => rfl, fun _ => rfl⟩, trivial⟩
  · exact ⟨hc.follows, trivial⟩

theorem checkName_stays (hc : c.Sound) (name : Name) :
    c.Stays (checkName name) (fun _ _ => True) := by
  unfold checkName
  split
  · exact .pure hc trivial
  · split
    · exact .pure hc trivial
    · exact (fail_stays hc _ _ _).imp fun _ _ _ _ => trivial

theorem checkLiteral_stays (hc : c.Sound) (value : Literal) (span : Span) :
    c.Stays (checkLiteral value span) (fun _ _ => True) := by
  unfold checkLiteral
  split
  · split
    · exact .pure hc trivial
    · exact (report_stays hc _).imp fun _ _ _ _ => trivial
  · exact .pure hc trivial

theorem modifyEnv_gives (hc : c.Sound) {f : TypeEnv → TypeEnv}
    (hf : (f c.env).Below c.unifier.rowCount) :
    c.Gives (modifyEnv f) (fun _ c' => c' = { c with env := f c.env }) :=
  ⟨⟨⟨⟨hc.unifier, hf, hc.context, hc.scope⟩, hc.sound, hc.written⟩, hc.sound.leads⟩, rfl⟩

end Checker

end RowCheck
