import RowCheck.Proofs.Typed.Effects
import RowCheck.Proofs.Typing.Judgement

/-!
Contexts of local names against the environments that checking keeps, and how both are settled once
a pass is over.
-/
namespace RowCheck

/-! ## Settling -/

namespace TPattern

variable (s : Substitution)

theorem settleList_eq (ps : List TPattern) : settleList s ps = ps.map (settle s) := by
  induction ps with
  | nil => rfl
  | cons p ps ih => simp [settleList, ih]

theorem bindingsList_eq (ps : List TPattern) : bindingsList ps = ps.flatMap bindings := by
  induction ps with
  | nil => rfl
  | cons p ps ih => simp [bindingsList, ih]

@[simp] theorem ty_settle (p : TPattern) : (p.settle s).ty = s.apply p.ty := by
  cases p <;> rfl

mutual

theorem bindings_settle : (p : TPattern) →
    (p.settle s).bindings = p.bindings.map (fun b => (b.1, s.apply b.2.1, b.2.2))
  | .wild .. | .lit .. | .bind .. => rfl
  | .tuple _ _ items => bindingsList_settle items
  | .variant _ _ _ _ args => bindingsList_settle args
  | .active _ _ _ _ args => bindingsList_settle args

theorem bindingsList_settle : (ps : List TPattern) →
    bindingsList (settleList s ps) = (bindingsList ps).map (fun b => (b.1, s.apply b.2.1, b.2.2))
  | [] => rfl
  | p :: ps => by
    rw [settleList, bindingsList, bindingsList, List.map_append, bindings_settle p,
      bindingsList_settle ps]

end

end TPattern

namespace TExpr

variable {s : Substitution}

@[simp] theorem ty_settle (e : TExpr) : (e.settle s).ty = s.apply e.ty := by
  cases e <;> rfl

theorem isValue_settle (e : TExpr) : (e.settle s).isValue = e.isValue := by
  cases e with
  | construct i t v args => cases args <;> rfl
  | _ => rfl

theorem settleArms_eq (as : List TArm) : settleArms s as = as.map (settleArm s) := by
  induction as with
  | nil => rfl
  | cons a as ih => simp [settleArms, ih]

@[simp] theorem pattern_settleArm (a : TArm) : (settleArm s a).pattern = a.pattern.settle s := by
  obtain ⟨p, g, b⟩ := a
  cases g <;> rfl

@[simp] theorem guard_settleArm (a : TArm) : (settleArm s a).guard = a.guard.map (settle s) := by
  obtain ⟨p, g, b⟩ := a
  cases g <;> rfl

@[simp] theorem body_settleArm (a : TArm) : (settleArm s a).body = a.body.settle s := by
  obtain ⟨p, g, b⟩ := a
  cases g <;> rfl

end TExpr

def Entry.settle (s : Substitution) : Entry → Entry
  | plain t => plain (s.apply t)
  | general => general

namespace Context

variable {s : Substitution} {Γ : Context}

def settle (s : Substitution) (Γ : Context) : Context := Γ.map (fun e => (e.1, e.2.settle s))

@[simp] theorem settle_cons (s : Substitution) (x : String) (e : Entry) (Γ : Context) :
    settle s ((x, e) :: Γ) = (x, e.settle s) :: Γ.settle s := rfl

theorem lookup_settle (s : Substitution) (Γ : Context) (x : String) :
    (Γ.settle s).lookup x = (Γ.lookup x).map (Entry.settle s) := by
  induction Γ with
  | nil => rfl
  | cons e Γ ih =>
    obtain ⟨y, e⟩ := e
    simp only [settle_cons, List.lookup_cons]
    split
    · rfl
    · exact ih

theorem settle_bindNames (s : Substitution) (Γ : Context) (names : List (String × Ty × Span)) :
    (Γ.bindNames names).settle s =
      (Γ.settle s).bindNames (names.map (fun b => (b.1, s.apply b.2.1, b.2.2))) := by
  induction names generalizing Γ with
  | nil => rfl
  | cons n names ih => exact ih _

end Context

/-! ## Environments -/

namespace TypeEnv

variable {env outer : TypeEnv} {Γ : Context}

theorem lookup_eq (env : TypeEnv) (x : String) :
    env.lookup x = (env.scopes.findSome? (·.get? x)).or (env.globals.get? x) := by
  unfold lookup
  split <;> simp [*]

@[simp] theorem lookup_pushScope (env : TypeEnv) (x : String) :
    env.pushScope.lookup x = env.lookup x := by
  simp [lookup_eq, pushScope, List.findSome?_cons]

theorem lookup_bind (env : TypeEnv) (name : String) (s : Scheme) (x : String) :
    (env.bind name s).lookup x = if name = x then some s else env.lookup x := by
  simp only [bind, lookup_eq]
  split <;> by_cases hx : name = x <;>
    simp [List.findSome?_cons, SortedMap.get?_insert, *]

/-- Bind the names of a pattern, each with its one type. -/
def bindNames (env : TypeEnv) (names : List (String × Ty × Span)) : TypeEnv :=
  names.foldl (fun env n => env.bind n.1 (.mono n.2.1)) env

theorem scopes_bind_ne_nil (env : TypeEnv) (name : String) (s : Scheme) :
    (env.bind name s).scopes ≠ [] := by
  unfold bind
  split <;> simp

theorem popScope_bind (h : env.scopes ≠ []) (name : String) (s : Scheme) :
    (env.bind name s).popScope = env.popScope := by
  unfold bind
  split
  · exact absurd ‹_› h
  · simp [popScope, *]

/-- Names that are bound in a scope of their own are gone when it is closed. -/
theorem popScope_bindNames (h : env.scopes ≠ []) (names : List (String × Ty × Span)) :
    (env.bindNames names).popScope = env.popScope := by
  induction names generalizing env with
  | nil => rfl
  | cons n names ih => exact (ih (scopes_bind_ne_nil env _ _)).trans (popScope_bind h _ _)

/-- Whether no name has the type of a failed expression within its own. -/
def Proper (env : TypeEnv) : Prop := ∀ x s, env.lookup x = some s → s.ty.containsError = false

theorem Proper.pushScope (h : env.Proper) : env.pushScope.Proper := by
  simpa only [Proper, lookup_pushScope] using h

theorem Proper.bind (h : env.Proper) (name : String) {s : Scheme}
    (hs : s.ty.containsError = false) : (env.bind name s).Proper := by
  intro x t ht
  rw [lookup_bind] at ht
  split at ht
  · cases ht
    exact hs
  · exact h x t ht

theorem Proper.bindNames (h : env.Proper) {names : List (String × Ty × Span)}
    (hn : ∀ n ∈ names, n.2.1.containsError = false) : (env.bindNames names).Proper := by
  induction names generalizing env with
  | nil => exact h
  | cons n names ih =>
    simp only [List.mem_cons, forall_eq_or_imp] at hn
    exact ih (h.bind n.1 hn.1) hn.2

/-- Whether an environment has just the local names of a context on top of those of another one,
and no type of a failed expression. -/
structure Models (env outer : TypeEnv) (Γ : Context) : Prop where
  proper : env.Proper
  plain : ∀ x t, Γ.lookup x = some (.plain t) → env.lookup x = some (.mono t)
  general : ∀ x, Γ.lookup x = some .general → (env.lookup x).isSome
  outer : ∀ x, Γ.lookup x = none → env.lookup x = outer.lookup x

theorem Proper.models_self (h : env.Proper) : env.Models env [] :=
  ⟨h, nofun, nofun, fun _ _ => rfl⟩

theorem Models.pushScope (h : env.Models outer Γ) : env.pushScope.Models outer Γ := by
  refine ⟨h.proper.pushScope, ?_, ?_, ?_⟩ <;> simp only [lookup_pushScope]
  · exact h.plain
  · exact h.general
  · exact h.outer

theorem Models.bind (h : env.Models outer Γ) (name : String) {s : Scheme} {e : Entry}
    (hs : s.ty.containsError = false) (he : ∀ t, e = .plain t → s = .mono t) :
    (env.bind name s).Models outer ((name, e) :: Γ) := by
  have hlookup : ∀ x, List.lookup x ((name, e) :: Γ) = if name = x then some e else Γ.lookup x := by
    intro x
    rw [List.lookup_cons]
    by_cases hx : name = x
    · simp [hx]
    · rw [if_neg hx, beq_eq_false_iff_ne.2 (Ne.symm hx)]
  refine ⟨h.proper.bind name hs, fun x t ht => ?_, fun x hx => ?_, fun x hx => ?_⟩
  · rw [hlookup] at ht
    rw [lookup_bind]
    split at ht
    · cases ht
      rw [if_pos ‹_›, he t rfl]
    · rw [if_neg ‹_›]
      exact h.plain x t ht
  · rw [hlookup] at hx
    rw [lookup_bind]
    split at hx
    · rw [if_pos ‹_›]
      rfl
    · rw [if_neg ‹_›]
      exact h.general x hx
  · rw [hlookup] at hx
    rw [lookup_bind]
    split at hx
    · cases hx
    · rw [if_neg ‹_›]
      exact h.outer x hx

theorem Models.bindNames (h : env.Models outer Γ) {names : List (String × Ty × Span)}
    (hn : ∀ n ∈ names, n.2.1.containsError = false) :
    (env.bindNames names).Models outer (Γ.bindNames names) := by
  induction names generalizing env Γ with
  | nil => exact h
  | cons n names ih =>
    simp only [List.mem_cons, forall_eq_or_imp] at hn
    exact ih (h.bind n.1 (s := .mono n.2.1) (e := .plain n.2.1) hn.1 fun _ ht => by
      cases ht
      rfl) hn.2

end TypeEnv

end RowCheck
