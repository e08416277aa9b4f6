import Mathlib.Data.List.Basic
import RowCheck.Typed.Settle

/-!
Effects of checked expressions: the rows that the nodes of an expression perform themselves, and the
lambdas within it. Settling an expression gathers those rows, and leaves the lambdas where they are.
-/
namespace RowCheck

/-- A row has all labels of another one, and that one is closed or ends in the same variable. -/
structure Row.Covers (outer inner : Row) : Prop where
  labels : ∀ x ∈ inner.labels, x ∈ outer.labels
  tail : inner.tail = none ∨ inner.tail = outer.tail

namespace Row.Covers

variable {outer r s : Row}

theorem pure (outer : Row) : outer.Covers .pure :=
  ⟨fun x hx => absurd hx (SortedSet.not_mem_empty x), .inl rfl⟩

theorem refl (r : Row) : r.Covers r := ⟨fun _ => id, .inr rfl⟩

theorem union (hr : outer.Covers r) (hs : outer.Covers s) : outer.Covers (r.union s) where
  labels x hx := (SortedSet.mem_union.1 hx).elim (hr.labels x) (hs.labels x)
  tail := by
    simp only [Row.union]
    rcases hr.tail with h | h
    · rw [h, Option.none_or]
      exact hs.tail
    · cases ht : r.tail with
      | none =>
        rw [Option.none_or]
        exact hs.tail
      | some v => exact .inr (ht.symm.trans h)

theorem foldl_union {rows : List Row} (hr : outer.Covers r) (hs : ∀ s ∈ rows, outer.Covers s) :
    outer.Covers (rows.foldl Row.union r) := by
  induction rows generalizing r with
  | nil => exact hr
  | cons s rows ih =>
    simp only [List.mem_cons, forall_eq_or_imp] at hs
    exact ih (hr.union hs.1) hs.2

end Row.Covers

/-- The guard of an arm, if it has one, and its body. -/
def TArm.parts : TArm → List TExpr
  | .mk _ (some g) b => [g, b]
  | .mk _ none b => [b]

namespace TExpr

mutual

/-- All lambdas of an expression, outer ones before those within them: what is known of each, and
its body. -/
def lambdas : TExpr → List (Info × TExpr)
  | lit .. | var .. | failed _ => []
  | call _ f a => f.lambdas ++ a.lambdas
  | lam i _ b => (i, b) :: b.lambdas
  | letIn _ _ v b => v.lambdas ++ b.lambdas
  | seq _ items | tuple _ items => lambdasList items
  | construct _ _ _ args => lambdasList args
  | cond _ c t e => c.lambdas ++ t.lambdas ++ e.lambdas
  | matchOn _ s arms _ => s.lambdas ++ lambdasArms arms
  | binary _ _ l r => l.lambdas ++ r.lambdas
  | unary _ _ e => e.lambdas
  | borrow _ _ e => e.lambdas
  | deref _ e => e.lambdas
  | assign _ t v => t.lambdas ++ v.lambdas

def lambdasList : List TExpr → List (Info × TExpr)
  | [] => []
  | e :: es => e.lambdas ++ lambdasList es

def lambdasArm : TArm → List (Info × TExpr)
  | .mk _ (some g) b => g.lambdas ++ b.lambdas
  | .mk _ none b => b.lambdas

def lambdasArms : List TArm → List (Info × TExpr)
  | [] => []
  | a :: as => lambdasArm a ++ lambdasArms as

end

mutual

/-- The rows that evaluating an expression performs, by node. What is within a lambda is not
performed. -/
def performed : TExpr → List Row
  | lit i _ | var i _ | failed i | lam i _ _ => [i.effects]
  | call i f a => i.effects :: (f.performed ++ a.performed)
  | letIn i _ v b => i.effects :: (v.performed ++ b.performed)
  | seq i items | tuple i items => i.effects :: performedList items
  | construct i _ _ args => i.effects :: performedList args
  | cond i c t e => i.effects :: (c.performed ++ t.performed ++ e.performed)
  | matchOn i s arms _ => i.effects :: (s.performed ++ performedArms arms)
  | binary i _ l r => i.effects :: (l.performed ++ r.performed)
  | unary i _ e => i.effects :: e.performed
  | borrow i _ e => i.effects :: e.performed
  | deref i e => i.effects :: e.performed
  | assign i t v => i.effects :: (t.performed ++ v.performed)

def performedList : List TExpr → List Row
  | [] => []
  | e :: es => e.performed ++ performedList es

def performedArm : TArm → List Row
  | .mk _ (some g) b => g.performed ++ b.performed
  | .mk _ none b => b.performed

def performedArms : List TArm → List Row
  | [] => []
  | a :: as => performedArm a ++ performedArms as

end

/-- The parts of an expression that are evaluated with it. The body of a lambda is not. -/
def parts : TExpr → List TExpr
  | lit .. | var .. | failed _ | lam .. => []
  | call _ a b | letIn _ _ a b | binary _ _ a b | assign _ a b => [a, b]
  | seq _ items | tuple _ items | construct _ _ _ items => items
  | cond _ c t e => [c, t, e]
  | matchOn _ s arms _ => s :: arms.flatMap TArm.parts
  | unary _ _ e | borrow _ _ e | deref _ e => [e]

theorem performedList_eq (es : List TExpr) : performedList es = es.flatMap performed := by
  induction es with
  | nil => rfl
  | cons e es ih => simp [performedList, ih]

theorem lambdasList_eq (es : List TExpr) : lambdasList es = es.flatMap lambdas := by
  induction es with
  | nil => rfl
  | cons e es ih => simp [lambdasList, ih]

theorem performedArms_eq (as : List TArm) : performedArms as =
    (as.flatMap TArm.parts).flatMap performed := by
  induction as with
  | nil => rfl
  | cons a as ih =>
    obtain ⟨p, g, b⟩ := a
    cases g <;> simp [performedArms, performedArm, TArm.parts, ih]

theorem lambdasArms_eq (as : List TArm) : lambdasArms as =
    (as.flatMap TArm.parts).flatMap lambdas := by
  induction as with
  | nil => rfl
  | cons a as ih =>
    obtain ⟨p, g, b⟩ := a
    cases g <;> simp [lambdasArms, lambdasArm, TArm.parts, ih]

theorem performed_eq (e : TExpr) : e.performed = e.effects :: e.parts.flatMap performed := by
  cases e <;> simp [performed, effects, info, parts, performedList_eq, performedArms_eq]

theorem lambdas_eq {e : TExpr} (h : ∀ i b body, e ≠ lam i b body) :
    e.lambdas = e.parts.flatMap lambdas := by
  cases e with
  | lam i b body => exact absurd rfl (h i b body)
  | _ => simp [lambdas, parts, lambdasList_eq, lambdasArms_eq]

variable (s : Substitution)

theorem settleList_eq (es : List TExpr) : settleList s es = es.map (settle s) := by
  induction es with
  | nil => rfl
  | cons e es ih => simp [settleList, ih]

theorem flatMap_settleArms (as : List TArm) :
    (settleArms s as).flatMap TArm.parts =
      (as.flatMap TArm.parts).map (settle s) := by
  induction as with
  | nil => rfl
  | cons a as ih =>
    obtain ⟨p, g, b⟩ := a
    cases g <;> simp [settleArms, settleArm, TArm.parts, ih]

theorem flatMap_effects (as : List TArm) :
    as.flatMap TArm.effects = (as.flatMap TArm.parts).map effects := by
  induction as with
  | nil => rfl
  | cons a as ih =>
    obtain ⟨p, g, b⟩ := a
    cases g <;> simp [TArm.effects, TArm.parts, ih]

/-- Settling an expression settles its parts. -/
theorem parts_settle (e : TExpr) : (e.settle s).parts = e.parts.map (settle s) := by
  cases e <;> simp [settle, parts, settleList_eq, flatMap_settleArms]

/-- Settling gathers the effects of a node and of its parts. -/
theorem effects_settle (e : TExpr) : (e.settle s).effects =
    ((e.parts.map (settle s)).map effects).foldl Row.union (s.findRow e.effects) := by
  rw [← parts_settle]
  cases e <;> simp [settle, effects, info, Info.settle, parts, flatMap_effects]

theorem sizeOf_lt_of_mem_parts {e p : TExpr} (h : p ∈ e.parts) : sizeOf p < sizeOf e := by
  cases e with
  | lit _ _ | var _ _ | failed _ | lam _ _ _ => cases h
  | seq _ items | tuple _ items | construct _ _ _ items =>
    have hlt := List.sizeOf_lt_of_mem (show p ∈ items from h)
    simp only [seq.sizeOf_spec, tuple.sizeOf_spec, construct.sizeOf_spec]
    omega
  | matchOn _ e arms _ =>
    simp only [parts, List.mem_cons, List.mem_flatMap] at h
    simp only [matchOn.sizeOf_spec]
    rcases h with rfl | ⟨⟨q, g, b⟩, ha, hp⟩
    · omega
    · have hlt := List.sizeOf_lt_of_mem ha
      simp only [TArm.mk.sizeOf_spec] at hlt
      cases g with
      | none =>
        obtain rfl : p = b := by simpa [TArm.parts] using hp
        omega
      | some g =>
        simp only [Option.some.sizeOf_spec] at hlt
        have hp : p = g ∨ p = b := by simpa [TArm.parts] using hp
        rcases hp with rfl | rfl <;> omega
  | _ =>
    simp only [parts, List.mem_cons, List.not_mem_nil, or_false] at h
    rcases h with rfl | rfl | rfl <;>
      simp only [call.sizeOf_spec, letIn.sizeOf_spec, cond.sizeOf_spec, binary.sizeOf_spec,
        unary.sizeOf_spec, borrow.sizeOf_spec, deref.sizeOf_spec, assign.sizeOf_spec] <;> omega

/-- Settling leaves every lambda in its place. -/
theorem lambdas_settle (e : TExpr) :
    (e.settle s).lambdas = e.lambdas.map (fun l => (l.1.settle s [], l.2.settle s)) := by
  by_cases h : ∃ i b body, e = lam i b body
  · obtain ⟨i, b, body, rfl⟩ := h
    simp [settle, lambdas, lambdas_settle body]
  · have hne : ∀ i b body, e ≠ lam i b body := by simpa using h
    have hsettle : ∀ i b body, e.settle s ≠ lam i b body := by
      cases e with
      | lam i b body => exact absurd rfl (hne i b body)
      | _ => simp [settle]
    rw [lambdas_eq hsettle, lambdas_eq hne, parts_settle, List.flatMap_map, List.map_flatMap]
    exact List.flatMap_congr fun p hp => lambdas_settle p
termination_by sizeOf e
decreasing_by
  · rename_i he
    rw [he, lam.sizeOf_spec]
    omega
  · exact sizeOf_lt_of_mem_parts hp

/-- A row that covers what an expression performs covers its settled effects. -/
theorem covers_effects_settle {s : Substitution} {outer : Row} (e : TExpr)
    (h : ∀ r ∈ e.performed, outer.Covers (s.findRow r)) : outer.Covers (e.settle s).effects := by
  rw [performed_eq] at h
  simp only [List.mem_cons, List.mem_flatMap, forall_eq_or_imp] at h
  rw [effects_settle]
  refine h.1.foldl_union ?_
  intro r hr
  simp only [List.map_map, List.mem_map, Function.comp_apply] at hr
  obtain ⟨p, hp, rfl⟩ := hr
  exact covers_effects_settle p fun r hr => h.2 r ⟨p, hp, hr⟩
termination_by sizeOf e
decreasing_by exact sizeOf_lt_of_mem_parts hp

/-- What is left of an expression without its outermost `n` lambdas. -/
def peel : Nat → TExpr → TExpr
  | n + 1, lam _ _ b => peel n b
  | _, e => e

theorem peel_settle (n : Nat) (e : TExpr) : (e.settle s).peel n = (e.peel n).settle s := by
  induction n generalizing e with
  | zero => rfl
  | succ n ih =>
    cases e with
    | lam _ _ b => exact ih b
    | _ => rfl

end TExpr

end RowCheck
