import RowCheck.Proofs.Unify.Kept
import RowCheck.Proofs.Unify.Schemes

/-!
What a state forces: a property that all later states without errors have. An equation that was
solved is forced, and so is a bound that was required; what is forced stays so. A state with errors
forces everything, so a rule that has failed has nothing to prove.
-/
namespace RowCheck

theorem Ty.mapVars_proper {t : Ty} {f : TyVar → Ty} {g : Row → Row} :
    (t.mapVars f g).containsError = false ↔
      t.containsError = false ∧ ∀ v ∈ t.vars, (f v).containsError = false := by
  rw [← Bool.not_eq_true, containsError_mapVars]
  simp

namespace Unifier

variable {u u' u'' : Unifier}

/-- Whether no variable stands for a type with that of a failed expression within. -/
def Spotless (u : Unifier) : Prop := ∀ v, u.Clean (.var v)

theorem Spotless.clean_iff (h : u.Spotless) {t : Ty} : u.Clean t ↔ t.containsError = false := by
  rw [Clean, apply, Substitution.apply_eq_mapVars, Ty.mapVars_proper]
  exact and_iff_left fun v _ => h v

/-- A valid state in which, as long as nothing is at fault, no variable stands for an error and only
inclusions wait. -/
structure Sound (u : Unifier) : Prop extends u.Valid where
  spotless : u.errors = [] → u.Spotless
  inclusions : u.errors = [] → u.Inclusions

/-- A later state that is sound and has kept what is known of numeric types. -/
structure Leads (u u' : Unifier) : Prop extends u.Grows u' where
  sound : u'.Sound
  numeric : u'.errors = [] → ∀ t, u.Numeric t → u'.Numeric t

theorem Sound.leads (h : u.Sound) : u.Leads u := ⟨h.toValid.grows, h, fun _ _ => id⟩

theorem Grows.errors_nil (h : u.Grows u') (he : u'.errors = []) : u.errors = [] :=
  List.prefix_nil.1 (he ▸ h.errors)

theorem Leads.trans (h : u.Leads u') (h' : u'.Leads u'') : u.Leads u'' :=
  ⟨h.toGrows.trans h'.toGrows, h'.sound, fun he t ht =>
    h'.numeric he t (h.numeric (h'.errors_nil he) t ht)⟩

/-- A later state that agrees on type variables keeps all that is known of them. -/
theorem Sound.leads_of_sameTypes (hu : u.Sound) (hg : u.Grows u') (h : SameTypes u u') :
    u.Leads u' := by
  refine ⟨hg, ⟨hg.valid, fun he v => ?_, fun he => ?_⟩, fun _ => h.numeric_grows hu.toValid hg⟩
  · refine (hu.spotless (hg.errors_nil he) v).grows hu.toValid hg fun w hw => clean_var ?_
    rw [h.types]
    exact hu.acyclic.type?_of_mem_vars_apply hw
  · exact h.inclusions (hu.inclusions (hg.errors_nil he))

/-- Whether all later states without errors have some property. -/
def Forces (u : Unifier) (φ : Unifier → Prop) : Prop := ∀ v, u.Leads v → v.errors = [] → φ v

variable {φ ψ : Unifier → Prop}

theorem Forces.leads (h : u.Forces φ) (hu : u.Leads u') : u'.Forces φ :=
  fun v hv he => h v (hu.trans hv) he

theorem Forces.imp (h : u.Forces φ) (hi : ∀ v, φ v → ψ v) : u.Forces ψ :=
  fun v hv he => hi v (h v hv he)

theorem Forces.here (h : u.Forces φ) (hu : u.Sound) (he : u.errors = []) : φ u := h u hu.leads he

theorem forces_of_errors (h : u.errors ≠ []) : u.Forces φ :=
  fun _ hv he => absurd (hv.errors_nil he) h

theorem forces_apply_eq (hu : u.Valid) {a b : Ty} (h : u.errors = [] → u.apply a = u.apply b) :
    u.Forces fun v => v.apply a = v.apply b :=
  fun _ hv he => hv.toGrows.apply_eq hu (h (hv.errors_nil he))

/-- Whether a type mentions only what was made, and no type of a failed expression as long as
nothing is at fault. -/
structure Knows (u : Unifier) (t : Ty) : Prop where
  below : t.Below u.rowCount
  proper : u.errors = [] → t.containsError = false

theorem Knows.leads {t : Ty} (h : u.Knows t) (hu : u.Leads u') : u'.Knows t :=
  ⟨h.below.mono hu.rows, fun he => h.proper (hu.errors_nil he)⟩

theorem Knows.clean {t : Ty} (h : u.Knows t) (hu : u.Sound) (he : u.errors = []) : u.Clean t :=
  (hu.spotless he).clean_iff.2 (h.proper he)

theorem knows_of_closed {t : Ty} (hr : t.effects = []) (ht : t.containsError = false) : u.Knows t :=
  ⟨Ty.below_of_effects_eq_nil hr, fun _ => ht⟩

theorem knows_var (v : TyVar) : u.Knows (.var v) := knows_of_closed rfl rfl

theorem knows_fn {p r : Ty} {e : Row} :
    u.Knows (.fn p r e) ↔ u.Knows p ∧ u.Knows r ∧ e.Below u.rowCount := by
  constructor
  · rintro ⟨hb, hp⟩
    obtain ⟨hb₁, hb₂, hb₃⟩ := Ty.below_fn.1 hb
    simp only [Ty.containsError, Bool.or_eq_false_iff] at hp
    exact ⟨⟨hb₁, fun he => (hp he).1⟩, ⟨hb₂, fun he => (hp he).2⟩, hb₃⟩
  · rintro ⟨h₁, h₂, h₃⟩
    refine ⟨Ty.below_fn.2 ⟨h₁.below, h₂.below, h₃⟩, fun he => ?_⟩
    simp [Ty.containsError, h₁.proper he, h₂.proper he]

theorem knows_ref {k : BorrowKind} {t : Ty} : u.Knows (.ref k t) ↔ u.Knows t :=
  ⟨fun h => ⟨h.below, h.proper⟩, fun h => ⟨h.below, h.proper⟩⟩

theorem knows_tuple {items : List Ty} : u.Knows (.tuple items) ↔ ∀ t ∈ items, u.Knows t := by
  refine ⟨fun h t ht => ⟨Ty.below_tuple.1 h.below t ht, fun he => ?_⟩, fun h =>
    ⟨Ty.below_tuple.2 fun t ht => (h t ht).below, fun he => ?_⟩⟩
  · have := h.proper he
    simp only [Ty.containsError, Ty.containsErrorList_eq, List.any_eq_false,
      Bool.not_eq_true] at this
    exact this t ht
  · simpa [Ty.containsError] using fun t ht => (h t ht).proper he

theorem knows_named {name : String} {args : List Ty} :
    u.Knows (.named name args) ↔ ∀ t ∈ args, u.Knows t :=
  ⟨fun h => knows_tuple.1 ⟨h.below, h.proper⟩,
    fun h => ⟨(knows_tuple.2 h).below, (knows_tuple.2 h).proper⟩⟩

/-! ## Actions -/

/-- An action leads on from a state, and its answer and the state it ends in have some property. -/
def Gives {α : Type} (u : Unifier) (m : UnifyM α) (Q : α → Unifier → Prop) : Prop :=
  u.Leads (m u).2 ∧ Q (m u).1 (m u).2

section

variable {α β : Type} {m : UnifyM α} {f : α → UnifyM β} {Q Q' : α → Unifier → Prop}
  {R : β → Unifier → Prop}

theorem Gives.bind (h : u.Gives m Q) (hf : ∀ a u', u.Leads u' → Q a u' → u'.Gives (f a) R) :
    u.Gives (m >>= f) R := by
  obtain ⟨hlead, hq⟩ := h
  obtain ⟨hlead', hr⟩ := hf _ _ hlead hq
  exact ⟨hlead.trans hlead', hr⟩

theorem Gives.pure (hu : u.Sound) {a : α} (hq : Q a u) : u.Gives (pure a) Q := ⟨hu.leads, hq⟩

theorem Gives.imp (h : u.Gives m Q) (hq : ∀ a u', u.Leads u' → Q a u' → Q' a u') : u.Gives m Q' :=
  ⟨h.1, hq _ _ h.1 h.2⟩

/-- An action that leaves types as they are keeps all that is known of them. -/
theorem LeavesTypes.gives (hm : LeavesTypes m) (hu : u.Sound) (h : u.Does m Q) : u.Gives m Q :=
  ⟨hu.leads_of_sameTypes h.1.toGrows (hm.moves u), h.2⟩

end

theorem freshType_gives (hu : u.Sound) : u.Gives freshType (fun t _ => ∀ u', Knows u' t) :=
  ⟨(freshType_leavesTypes.gives hu (freshType_does hu.toValid)).1, fun _ => knows_var _⟩

theorem freshRow_gives (hu : u.Sound) : u.Gives freshRow (fun r u' => r.Below u'.rowCount) :=
  freshRow_leavesTypes.gives hu (freshRow_does hu.toValid)

theorem report_gives (hu : u.Sound) (d : Diagnostic) :
    u.Gives (report d) (fun _ u' => u'.errors ≠ []) :=
  (report_leavesTypes d).gives hu ((report_does hu.toValid d).imp fun _ _ _ h => by simp [h.2])

theorem includeRow_gives (hu : u.Sound) {row within : Row} (hr : row.Below u.rowCount)
    (hw : within.Below u.rowCount) (why : Provenance) :
    u.Gives (includeRow row within why) (fun _ _ => True) :=
  (includeRow_leavesTypes row within why).gives hu
    ((includeRow_does hu.toValid hr hw why).imp fun _ _ _ _ => trivial)

/-- Looking up the head of a type changes nothing that is known. -/
theorem find_gives (hu : u.Sound) {t : Ty} (ht : u.Knows t) :
    u.Gives (find t) (fun h u' => u'.Knows h ∧ u'.Forces fun v => v.apply t = v.apply h) := by
  obtain ⟨hadv, hhead, hsame, -, hbelow, -⟩ := find_does hu.toValid ht.below
  have hspotless : u.errors = [] → (find t u).2.Spotless := fun he v => by
    rw [Clean, hsame]
    exact hu.spotless he v
  refine ⟨⟨hadv.toGrows, ⟨hadv.valid, hspotless, hu.inclusions⟩, fun _ x hx => ?_⟩, ⟨hbelow, ?_⟩,
    forces_apply_eq hadv.valid fun _ => hhead⟩
  · rw [Numeric, hsame]
    exact hx
  · intro he
    rw [← (hspotless he).clean_iff, Clean, ← hhead, hsame]
    exact ht.clean hu he

/-- An equation that is solved is forced. -/
theorem unify_gives (hu : u.Sound) {a b : Ty} (ha : u.Knows a) (hb : u.Knows b)
    (why : Provenance) :
    u.Gives (unify a b why) (fun _ u' => u'.Forces fun v => v.apply a = v.apply b) := by
  obtain ⟨hadv, hagree⟩ := unify_does hu.toValid ha.below hb.below why
  obtain ⟨-, hbounds⟩ := unify_keepsBounds hu.toValid ha.below hb.below why
  have start : (unify a b why u).2.errors = [] →
      u.errors = [] ∧ (unify a b why u).2.errors = u.errors := fun he => by
    have he' := hadv.toGrows.errors_nil he
    exact ⟨he', he.trans he'.symm⟩
  have solved : (unify a b why u).2.errors = [] →
      (∀ t, u.Clean t → (unify a b why u).2.Clean t) ∧
        (unify a b why u).2.apply a = (unify a b why u).2.apply b := fun he =>
    hagree (start he).2 (ha.clean hu (start he).1) (hb.clean hu (start he).1)
  refine ⟨⟨hadv.toGrows, ⟨hadv.valid, fun he v => ?_, fun he => ?_⟩, fun he => ?_⟩,
    forces_apply_eq hadv.valid fun he => (solved he).2⟩
  · exact (solved he).1 _ (hu.spotless (start he).1 v)
  · exact (hbounds (start he).2).2 (hu.inclusions (start he).1)
  · exact (hbounds (start he).2).1

/-- What was required to be numeric is so for good. -/
theorem requireNumeric_gives (hu : u.Sound) {t : Ty} (ht : u.Knows t) (why : Provenance) :
    u.Gives (requireNumeric t why) (fun _ u' => u'.Forces fun v => v.Numeric t) := by
  obtain ⟨hadv, hsame⟩ := requireNumeric_does hu.toValid ht.below why
  have bounds : (requireNumeric t why u).2.errors = [] → _ := fun he => by
    have he' := hadv.toGrows.errors_nil he
    have hne : u.apply t ≠ .error := fun h => by
      have := ht.clean hu he'
      rw [Clean, h] at this
      cases this
    exact (requireNumeric_bounds hu.toValid ht.below hne why).2.2 (he.trans he'.symm)
  refine ⟨⟨hadv.toGrows, ⟨hadv.valid, fun he v => ?_, fun he => ?_⟩, fun he x hx => ?_⟩,
    fun v hv he => hv.numeric he t (bounds (hv.errors_nil he)).1⟩
  · rw [Clean, hsame]
    exact hu.spotless (hadv.toGrows.errors_nil he) v
  · exact (hu.inclusions (hadv.toGrows.errors_nil he)).of_pending (bounds he).2.1
  · refine hx.grows hu.toValid hadv.toGrows fun v hv hn => ?_
    refine .inr ⟨v, ?_, (bounds he).2.2 v hn⟩
    rw [hsame]
    exact Substitution.apply_unbound (unbound_of_apply hu.toValid hv)

end Unifier

end RowCheck
