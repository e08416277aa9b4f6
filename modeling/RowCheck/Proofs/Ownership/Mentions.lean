import Mathlib.Tactic.Tauto
import RowCheck.Ownership.Lower

/-!
The names that an expression mentions: those that stand for something around it. They are what a closure
takes from where it is made. A function without parameters has one named `_` in the typed tree, and does
not mention this name.
-/
namespace RowCheck

namespace TExpr

mutual

/-- Whether a name occurs in an expression outside the scope of the binders there. -/
def mentions (x : String) : TExpr → Bool
  | lit .. | failed _ => false
  | var _ y => y = x
  | call _ f a => f.mentions x || a.mentions x
  | lam _ p b => p.name ≠ x && b.mentions x
  | letIn _ y v b => v.mentions x || y.name ≠ x && b.mentions x
  | seq _ items | tuple _ items | construct _ _ _ items => mentionsList x items
  | cond _ c t e => c.mentions x || t.mentions x || e.mentions x
  | matchOn _ s arms _ => s.mentions x || mentionsArms x arms
  | binary _ _ a b | assign _ a b => a.mentions x || b.mentions x
  | unary _ _ a | borrow _ _ a | deref _ a => a.mentions x

def mentionsList (x : String) : List TExpr → Bool
  | [] => false
  | e :: es => e.mentions x || mentionsList x es

def mentionsArm (x : String) : TArm → Bool
  | .mk p (some g) b => x ∉ p.bindings.map (·.1) && (g.mentions x || b.mentions x)
  | .mk p none b => x ∉ p.bindings.map (·.1) && b.mentions x

def mentionsArms (x : String) : List TArm → Bool
  | [] => false
  | a :: as => mentionsArm x a || mentionsArms x as

end

mutual

/-- The names that occur free in an expression are those that it mentions, except the names bound
around it. -/
theorem mem_free_iff {x : String} : (e : TExpr) → ∀ bound : List String,
    x ∈ e.free bound ↔ x ∉ bound ∧ e.mentions x = true
  | lit .., _ | failed _, _ => by simp [free, mentions]
  | var _ y, bound => by
    rw [free, mentions, decide_eq_true_eq]
    split
    · rename_i hy
      exact iff_of_false List.not_mem_nil fun ⟨hx, hyx⟩ => hx (hyx ▸ hy)
    · rename_i hy
      rw [List.mem_singleton]
      exact ⟨fun h => ⟨h ▸ hy, h.symm⟩, fun h => h.2.symm⟩
  | call _ f a, bound => by
    simp [free, mentions, mem_free_iff f, mem_free_iff a, and_or_left]
  | lam _ p b, bound => by
    simp only [free, mentions, mem_free_iff b, List.mem_cons, Bool.and_eq_true, decide_eq_true_eq,
      ne_eq]
    tauto
  | letIn _ y v b, bound => by
    simp only [free, mentions, mem_free_iff v, mem_free_iff b, List.mem_append, List.mem_cons,
      Bool.or_eq_true, Bool.and_eq_true, decide_eq_true_eq, ne_eq]
    tauto
  | seq _ items, bound | tuple _ items, bound | construct _ _ _ items, bound => by
    simp [free, mentions, mem_freeList_iff items]
  | cond _ c t e, bound => by
    simp [free, mentions, mem_free_iff c, mem_free_iff t, mem_free_iff e, and_or_left, or_assoc]
  | matchOn _ s arms _, bound => by
    simp [free, mentions, mem_free_iff s, mem_freeArms_iff arms, and_or_left]
  | binary _ _ a b, bound | assign _ a b, bound => by
    simp [free, mentions, mem_free_iff a, mem_free_iff b, and_or_left]
  | unary _ _ a, bound | borrow _ _ a, bound | deref _ a, bound => by
    simp [free, mentions, mem_free_iff a]

theorem mem_freeList_iff {x : String} : (es : List TExpr) → ∀ bound : List String,
    x ∈ freeList bound es ↔ x ∉ bound ∧ mentionsList x es = true
  | [], _ => by simp [freeList, mentionsList]
  | e :: es, bound => by
    simp [freeList, mentionsList, mem_free_iff e, mem_freeList_iff es, and_or_left]

theorem mem_freeArm_iff {x : String} : (a : TArm) → ∀ bound : List String,
    x ∈ freeArm bound a ↔ x ∉ bound ∧ mentionsArm x a = true
  | .mk p (some g) b, bound => by
    simp only [freeArm, mentionsArm, mem_free_iff g, mem_free_iff b, List.mem_append,
      Bool.or_eq_true, Bool.and_eq_true, decide_eq_true_eq]
    tauto
  | .mk p none b, bound => by
    simp only [freeArm, mentionsArm, mem_free_iff b, List.mem_append, Bool.and_eq_true,
      decide_eq_true_eq]
    tauto

theorem mem_freeArms_iff {x : String} : (as : List TArm) → ∀ bound : List String,
    x ∈ freeArms bound as ↔ x ∉ bound ∧ mentionsArms x as = true
  | [], _ => by simp [freeArms, mentionsArms]
  | a :: as, bound => by
    simp [freeArms, mentionsArms, mem_freeArm_iff a, mem_freeArms_iff as, and_or_left]

end

end TExpr

end RowCheck
