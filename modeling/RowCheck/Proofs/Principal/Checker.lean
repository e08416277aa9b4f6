import RowCheck.Infer.Group
import RowCheck.Proofs.Principal.Environments

/-!
The state of checking an expression of the functional core. What an action tells holds if nothing is at
fault after it. What it finds is an assignment: from one that is allowed before, without a fault, to one
that is allowed after and assigns the same to the variables that were there.
-/
namespace RowCheck
namespace Checker

open Unifier

/-- Whether nothing is at fault. -/
def Faultless (c : Checker) : Prop := c.unifier.errors = []

/-- A state of the functional core: that of its pass is tidy, its environment and its context are of
the functional core. -/
structure Tidy (D : TyVar → Prop) (c : Checker) : Prop where
  unifier : c.unifier.Tidy D
  env : c.env.Sits D c.unifier
  bare : c.context.labels = ∅
  below : c.context.Below c.unifier.rowCount

/-- A later state in the same scope and context. -/
structure Pursues (D : TyVar → Prop) (c c' : Checker) : Prop where
  unifier : c.unifier.Pursues D c'.unifier
  env : c'.env = c.env
  context : c'.context = c.context

variable {D : TyVar → Prop} {c c' c'' : Checker} {f : TyVar → Ty}

theorem Tidy.pursues (h : c.Tidy D) : c.Pursues D c := ⟨h.unifier.pursues, rfl, rfl⟩

theorem Pursues.trans (h : c.Pursues D c') (h' : c'.Pursues D c'') : c.Pursues D c'' :=
  ⟨h.unifier.trans h'.unifier, h'.env.trans h.env, h'.context.trans h.context⟩

theorem Pursues.tidy (h : c.Pursues D c') (hc : c.Tidy D) : c'.Tidy D where
  unifier := h.unifier.tidy
  env := h.env ▸ hc.env.pursues h.unifier
  bare := h.context ▸ hc.bare
  below := h.context ▸ hc.below.mono h.unifier.rows

theorem Pursues.allows (h : c.Pursues D c') (hc : c.Tidy D) (hf : c'.unifier.Allows f) :
    c.unifier.Allows f := h.unifier.allows hc.unifier hf

/-! ## What is told -/

/-- Whether some property holds after an action if nothing is at fault then, which is so only if nothing
was at fault before. -/
def Tells {α : Type} (c : Checker) (m : CheckM α) (Q : α → Checker → Prop) : Prop :=
  (m c).2.Faultless → c.Faultless ∧ Q (m c).1 (m c).2

section

variable {α β : Type} {m : CheckM α} {k : α → CheckM β} {Q Q' : α → Checker → Prop}
  {R : β → Checker → Prop}

theorem Tells.bind (h : c.Tells m Q) (hk : ∀ a c', (c'.Faultless → c.Faultless ∧ Q a c') →
    c'.Tells (k a) R) : c.Tells (m >>= k) R := by
  intro he
  obtain ⟨he', hr⟩ := hk (m c).1 (m c).2 h he
  exact ⟨(h he').1, hr⟩

theorem Tells.pure {a : α} (h : c.Faultless → Q a c) : c.Tells (pure a) Q := fun he => ⟨he, h he⟩

theorem Tells.imp (h : c.Tells m Q) (hq : ∀ a c', c.Faultless → Q a c' → Q' a c') : c.Tells m Q' :=
  fun he => ⟨(h he).1, hq _ _ (h he).1 (h he).2⟩

theorem Tells.get_bind {k : Checker → CheckM β} (h : c.Tells (k c) R) : c.Tells (get >>= k) R := h

/-- What an action of the pass tells. -/
theorem Tells.lift {x : UnifyM α} (hx : AddsErrors x) (h : c.Faultless →
    (x c.unifier).2.errors = c.unifier.errors →
    Q (x c.unifier).1 { c with unifier := (x c.unifier).2 }) : c.Tells (liftM x) Q := by
  intro he
  have he' : (x c.unifier).2.errors = [] := he
  have hc : c.unifier.errors = [] := List.prefix_nil.1 (he' ▸ hx.moves c.unifier)
  exact ⟨hc, h hc (he'.trans hc.symm)⟩

end

/-! ## What is found -/

/-- Whether nothing is at fault after an action, and some assignment is allowed then that agrees with
one on the variables that were made before. -/
def Finds {α : Type} (f : TyVar → Ty) (c : Checker) (m : CheckM α)
    (Q : (TyVar → Ty) → α → Checker → Prop) : Prop :=
  (m c).2.Faultless ∧ c.unifier.typeCount ≤ (m c).2.unifier.typeCount ∧
    ∃ f', (m c).2.unifier.Allows f' ∧ (∀ v < c.unifier.typeCount, f' v = f v) ∧
      Q f' (m c).1 (m c).2

section

variable {α β : Type} {m : CheckM α} {k : α → CheckM β} {Q Q' : (TyVar → Ty) → α → Checker → Prop}
  {R : (TyVar → Ty) → β → Checker → Prop}

theorem Finds.bind (h : c.Finds f m Q) (hk : ∀ f' a c', c'.Faultless → c'.unifier.Allows f' →
    (∀ v < c.unifier.typeCount, f' v = f v) → Q f' a c' → c'.Finds f' (k a) R) :
    c.Finds f (m >>= k) R := by
  obtain ⟨he, hle, f₁, hf₁, hagree, hq⟩ := h
  obtain ⟨he', hle', f₂, hf₂, hagree', hr⟩ := hk f₁ _ _ he hf₁ hagree hq
  exact ⟨he', hle.trans hle', f₂, hf₂, fun v hv => (hagree' v (hv.trans_le hle)).trans (hagree v hv),
    hr⟩

theorem Finds.pure (he : c.Faultless) (hf : c.unifier.Allows f) {a : α} (h : Q f a c) :
    c.Finds f (pure a) Q := ⟨he, Nat.le_refl _, f, hf, fun _ _ => rfl, h⟩

theorem Finds.imp (h : c.Finds f m Q) (hq : ∀ f' a c', (∀ v < c.unifier.typeCount, f' v = f v) →
    Q f' a c' → Q' f' a c') : c.Finds f m Q' := by
  obtain ⟨he, hle, f', hf', hagree, h⟩ := h
  exact ⟨he, hle, f', hf', hagree, hq f' _ _ hagree h⟩

theorem Finds.get_bind {k : Checker → CheckM β} (h : c.Finds f (k c) R) :
    c.Finds f (get >>= k) R := h

/-- What is told holds also of what is found. -/
theorem Finds.told {T : α → Checker → Prop} (h : c.Finds f m Q) (ht : c.Tells m T) :
    c.Finds f m (fun f' a c' => T a c' ∧ Q f' a c') := by
  obtain ⟨he, hle, f', hf', hagree, h⟩ := h
  exact ⟨he, hle, f', hf', hagree, (ht he).2, h⟩

/-- What an action of the pass finds that finds nothing out. -/
theorem Finds.lift {x : UnifyM α} (he : c.Faultless) (hx : c.unifier.Idles D (x c.unifier).2)
    {f' : TyVar → Ty} (hf' : (x c.unifier).2.Allows f')
    (hagree : ∀ v < c.unifier.typeCount, f' v = f v)
    (h : Q f' (x c.unifier).1 { c with unifier := (x c.unifier).2 }) : c.Finds f (liftM x) Q :=
  ⟨hx.errors.trans he, hx.count, f', hf', hagree, h⟩

end

/-! ## Equations and the records of steps -/

theorem unify_tells {a b : Ty} (h : c.Faultless → c.Tidy D ∧ c.unifier.Owns D a ∧ c.unifier.Owns D b)
    (why : Provenance) : c.Tells (liftM (unify a b why)) (fun _ c' => c.Pursues D c' ∧
      ∀ f, c'.unifier.Allows f → a.under f = b.under f) :=
  .lift (unify_leavesInclusions ..).addsErrors fun hc he => by
    obtain ⟨hc, ha, hb⟩ := h hc
    obtain ⟨hp, hsame⟩ := unify_pursues hc.unifier ha hb why he
    exact ⟨⟨hp, rfl, rfl⟩, hsame⟩

theorem unify_finds (he : c.Faultless) (hc : c.Tidy D) (hf : c.unifier.Allows f) {a b : Ty}
    (ha : c.unifier.Owns D a) (hb : c.unifier.Owns D b) (heq : a.under f = b.under f)
    (why : Provenance) : c.Finds f (liftM (unify a b why)) (fun f' _ c' => f' = f ∧ c.Pursues D c') := by
  obtain ⟨herrors, hf'⟩ := unify_allows hc.unifier ha hb why hf heq
  have hp := (unify_pursues hc.unifier ha hb why herrors).1
  exact ⟨herrors.trans he, hp.count, f, hf', fun _ _ => rfl, rfl, hp, rfl, rfl⟩

theorem record_unifier (rule : InferRule) (e : Expr) (t : Ty) (detail : String) (c : Checker) :
    (record rule e t detail c).2.unifier = c.unifier ∧ (record rule e t detail c).2.env = c.env ∧
      (record rule e t detail c).2.context = c.context := by
  simp only [record, modify, modifyGet, MonadStateOf.modifyGet, StateT.modifyGet, Pure.pure]
  split <;> exact ⟨rfl, rfl, rfl⟩

theorem record_tells (h : c.Faultless → c.Tidy D) (rule : InferRule) (e : Expr) (t : Ty)
    (detail : String) : c.Tells (record rule e t detail) (fun _ c' => c.Pursues D c') := by
  obtain ⟨hu, henv, hcontext⟩ := record_unifier rule e t detail c
  intro he
  have hc : c.Faultless := (congrArg Unifier.errors hu).symm.trans he
  exact ⟨hc, hu.symm ▸ (h hc).unifier.pursues, henv, hcontext⟩

theorem record_finds (he : c.Faultless) (hf : c.unifier.Allows f) (rule : InferRule) (e : Expr)
    (t : Ty) (detail : String) : c.Finds f (record rule e t detail) (fun f' _ c' => f' = f ∧
      c'.unifier = c.unifier ∧ c'.env = c.env ∧ c'.context = c.context) := by
  have h := record_unifier rule e t detail c
  exact ⟨(congrArg Unifier.errors h.1).trans he, (congrArg Unifier.typeCount h.1).ge, f,
    h.1.symm ▸ hf, fun _ _ => rfl, rfl, h⟩

theorem checkName_valid {name : Name} (h : name.Valid) : checkName name = pure () := by
  unfold checkName
  by_cases hname : name.text = "_"
  · rw [if_pos hname]
  · rw [if_neg hname, h.resolve_left hname]

theorem checkLiteral_inRange {value : Literal} (h : value.InRange) (span : Span) :
    checkLiteral value span = pure () := by
  cases value with
  | int n => exact if_pos h
  | _ => rfl

end Checker
end RowCheck
