import RowCheck.Infer.Group
import RowCheck.Proofs.Typed.Effects
import RowCheck.Proofs.Unify.Schemes

/-!
The state of checking a group. Every action keeps it valid and leaves the context as it is. A row
that was included in another one is promised to be covered by it: it is, once all that waits has
been decided and nothing was found at fault.
-/
namespace RowCheck

namespace Unifier

variable {u u' : Unifier}

theorem Honours.covers {row within : Row} (h : u.Honours row within) :
    (u.findRow within).Covers (u.findRow row) := by
  refine ⟨h.flows, ?_⟩
  cases ht : (u.findRow row).tail with
  | none => exact .inl rfl
  | some v => exact .inr (h.tail v ht).symm

/-- Whether all inclusions that wait in a state hold in a later one. -/
def Decides (u u' : Unifier) : Prop :=
  ∀ row within why, .inclusion row within why ∈ u.pending → u'.Honours row within

/-- Whether a row is covered by another one in every later state without errors in which all that
waits is decided. -/
def Promises (u : Unifier) (row within : Row) : Prop :=
  ∀ u', u.Grows u' → u'.errors = [] → u.Decides u' → (u'.findRow within).Covers (u'.findRow row)

theorem Promises.advances {row within : Row} (h : u.Promises row within) (hu : u.Advances u') :
    u'.Promises row within := fun u'' hg he hd =>
  h u'' (hu.toGrows.trans hg) he fun row within why hmem =>
    hd row within why (hu.pending.subset hmem)

theorem promises_pure (u : Unifier) (within : Row) : u.Promises .pure within := fun u' _ _ _ => by
  rw [findRow_closed (r := .pure) rfl]
  exact .pure _

theorem promises_self (u : Unifier) (row : Row) : u.Promises row row := fun _ _ _ _ => .refl _

/-- A union of promised rows is promised. Of two open tails it keeps one only. -/
theorem Promises.union {row row' within : Row} (h : u.Promises row within)
    (h' : u.Promises row' within) : u.Promises (row.union row') within := by
  intro u' hg he hd
  have hc := h u' hg he hd
  have hc' := h' u' hg he hd
  cases ht : row.tail with
  | none =>
    have hunion : row.union row' = row'.extend row.labels := by
      rw [Row.union, ht, Option.none_or]
      rfl
    rw [findRow_closed ht] at hc
    rw [hunion, findRow_extend]
    refine ⟨fun x hx => (Row.mem_extend.1 hx).elim (hc.labels x) (hc'.labels x), hc'.tail⟩
  | some v =>
    have hunion : row.union row' = row.extend row'.labels := by
      rw [Row.union, ht, Option.some_or, ← ht]
      exact Row.ext_mem (fun x => by simp [or_comm]) rfl
    rw [hunion, findRow_extend]
    refine ⟨fun x hx => ?_, hc.tail⟩
    rcases Row.mem_extend.1 hx with hx | hx
    · exact hc'.labels x (Substitution.mem_labels_findRow hx)
    · exact hc.labels x hx

/-- An inclusion that is required is promised. -/
theorem includeRow_promises (hu : u.Valid) {row within : Row} (hr : row.Below u.rowCount)
    (hw : within.Below u.rowCount) (why : Provenance) :
    u.Does (includeRow row within why) (fun _ u' => u'.Promises row within) := by
  refine (includeRow_does hu hr hw why).imp fun _ u₁ h₁ hinc u₂ hg he hd => ?_
  have he₁ : u₁.errors = [] := List.prefix_nil.1 (he ▸ hg.errors)
  have he₀ : u.errors = [] := List.prefix_nil.1 (he₁ ▸ h₁.errors)
  rcases hinc (he₁.trans he₀.symm) with h | h
  · exact (h.grows h₁.valid hg).covers
  · exact (hd row within why h).covers

end Unifier

/-! ## Environments and scopes -/

/-- Whether the row variables of all schemes in scope are quantified or among the first `n`. -/
structure TypeEnv.Below (n : Nat) (env : TypeEnv) : Prop where
  globals : ∀ name s, env.globals.get? name = some s → s.Below n
  scopes : ∀ scope ∈ env.scopes, ∀ name s, SortedMap.get? scope name = some s → s.Below n

namespace TypeEnv.Below

variable {n m : Nat} {env : TypeEnv}

theorem mono (h : env.Below n) (hnm : n ≤ m) : env.Below m :=
  ⟨fun name s hs => (h.globals name s hs).mono hnm,
    fun scope hscope name s hs => (h.scopes scope hscope name s hs).mono hnm⟩

theorem lookup (h : env.Below n) {name : String} {s : Scheme} (hs : env.lookup name = some s) :
    s.Below n := by
  unfold TypeEnv.lookup at hs
  split at hs
  · rename_i t ht
    cases hs
    obtain ⟨scope, hscope, hget⟩ := List.exists_of_findSome?_eq_some ht
    exact h.scopes scope hscope name _ hget
  · exact h.globals name s hs

theorem bind (h : env.Below n) (name : String) {s : Scheme} (hs : s.Below n) :
    (env.bind name s).Below n := by
  unfold TypeEnv.bind
  split
  · refine ⟨h.globals, fun scope hscope other t ht => ?_⟩
    obtain rfl := List.mem_singleton.1 hscope
    rw [SortedMap.get?_insert] at ht
    split at ht
    · cases ht
      exact hs
    · simp at ht
  · rename_i scope rest hscopes
    refine ⟨h.globals, fun scope' hscope' other t ht => ?_⟩
    rcases List.mem_cons.1 hscope' with rfl | hmem
    · rw [SortedMap.get?_insert] at ht
      split at ht
      · cases ht
        exact hs
      · exact h.scopes scope (hscopes ▸ List.mem_cons_self) other t ht
    · exact h.scopes scope' (hscopes ▸ List.mem_cons_of_mem _ hmem) other t ht

theorem pushScope (h : env.Below n) : env.pushScope.Below n := by
  refine ⟨h.globals, fun scope hscope name s hs => ?_⟩
  rcases List.mem_cons.1 hscope with rfl | hmem
  · simp at hs
  · exact h.scopes scope hmem name s hs

theorem popScope (h : env.Below n) : env.popScope.Below n :=
  ⟨h.globals, fun scope hscope => h.scopes scope (List.mem_of_mem_tail hscope)⟩

end TypeEnv.Below

/-- Whether the row variables of all written variables in scope are among the first `n`. -/
structure TypeScope.Below (n : Nat) (scope : TypeScope) : Prop where
  types : ∀ name t, scope.types.get? name = some t → t.Below n
  rows : ∀ name v, scope.rows.get? name = some v → v < n

theorem TypeScope.Below.mono {n m : Nat} {scope : TypeScope} (h : scope.Below n) (hnm : n ≤ m) :
    scope.Below m :=
  ⟨fun name t ht => (h.types name t ht).mono hnm,
    fun name v hv => Nat.lt_of_lt_of_le (h.rows name v hv) hnm⟩

theorem TypeScope.below_opened (n : Nat) : TypeScope.opened.Below n :=
  ⟨fun _ _ h => by simp [opened] at h, fun _ _ h => by simp [opened] at h⟩

/-! ## Checking -/

namespace Checker

/-- A valid state of unification, and an environment, a context and written variables that mention
only row variables that it has made. -/
structure Valid (c : Checker) : Prop where
  unifier : c.unifier.Valid
  env : c.env.Below c.unifier.rowCount
  context : c.context.Below c.unifier.rowCount
  scope : c.scope.Below c.unifier.rowCount

/-- A later state within the same context. -/
structure Advances (c c' : Checker) : Prop where
  valid : c'.Valid
  unifier : c.unifier.Advances c'.unifier
  context : c'.context = c.context

variable {c c' c'' : Checker}

theorem Valid.advances (h : c.Valid) : c.Advances c := ⟨h, h.unifier.advances, rfl⟩

theorem Advances.trans (h : c.Advances c') (h' : c'.Advances c'') : c.Advances c'' :=
  ⟨h'.valid, h.unifier.trans h'.unifier, h'.context.trans h.context⟩

theorem Advances.rows (h : c.Advances c') : c.unifier.rowCount ≤ c'.unifier.rowCount :=
  h.unifier.rows

/-- An action advances a state, and its answer and the state it ends in have some property. -/
def Does {α : Type} (c : Checker) (m : CheckM α) (Q : α → Checker → Prop) : Prop :=
  c.Advances (m c).2 ∧ Q (m c).1 (m c).2

section

variable {α β : Type} {m : CheckM α} {f : α → CheckM β} {Q Q' : α → Checker → Prop}
  {R : β → Checker → Prop}

theorem Does.bind (h : c.Does m Q) (hf : ∀ a c', c.Advances c' → Q a c' → c'.Does (f a) R) :
    c.Does (m >>= f) R := by
  obtain ⟨hadv, hq⟩ := h
  obtain ⟨hadv', hr⟩ := hf _ _ hadv hq
  exact ⟨hadv.trans hadv', hr⟩

theorem Does.pure (hc : c.Valid) {a : α} (hq : Q a c) : c.Does (pure a) Q := ⟨hc.advances, hq⟩

theorem Does.imp (h : c.Does m Q) (hq : ∀ a c', c.Advances c' → Q a c' → Q' a c') :
    c.Does m Q' :=
  ⟨h.1, hq _ _ h.1 h.2⟩

theorem Does.get_bind {f : Checker → CheckM β} (h : c.Does (f c) R) : c.Does (get >>= f) R := h

/-- What is done to the state of unification is done within a check. -/
theorem Does.lift (hc : c.Valid) {x : UnifyM α} {Q : α → Unifier → Prop}
    (h : c.unifier.Does x Q) : c.Does (liftM x) (fun a c' => Q a c'.unifier) := by
  have hrows := h.1.rows
  exact ⟨⟨⟨h.1.valid, hc.env.mono hrows, hc.context.mono hrows, hc.scope.mono hrows⟩, h.1, rfl⟩, h.2⟩

theorem Does.lift_bind (hc : c.Valid) {x : UnifyM α} {Q : α → Unifier → Prop}
    (h : c.unifier.Does x Q)
    (hf : ∀ a c', c.Advances c' → Q a c'.unifier → c'.Does (f a) R) :
    c.Does (liftM x >>= f) R :=
  (Does.lift hc h).bind hf

end

/-- Whether all answers of an action have some property. -/
def Always {α : Type} (m : CheckM α) (P : α → Prop) : Prop := ∀ c, P (m c).1

section

variable {α β : Type} {m : CheckM α} {f : α → CheckM β} {P : α → Prop} {Q : β → Prop}

theorem Always.pure {a : α} (h : P a) : Always (pure a) P := fun _ => h

theorem Always.next (h : Always m P) (hf : ∀ a, P a → Always (f a) Q) : Always (m >>= f) Q :=
  fun c => hf _ (h c) _

/-- An action whose answers need not be known. -/
theorem Always.bind (h : ∀ a, Always (f a) Q) : Always (m >>= f) Q := fun _ => h _ _

theorem Always.get_bind {f : Checker → CheckM β} (h : ∀ c, Always (f c) Q) :
    Always (get >>= f) Q := fun c => h c c

end

theorem modifyEnv_does (hc : c.Valid) {f : TypeEnv → TypeEnv}
    (hf : (f c.env).Below c.unifier.rowCount) : c.Does (modifyEnv f) (fun _ _ => True) :=
  ⟨⟨⟨hc.unifier, hf, hc.context, hc.scope⟩, hc.unifier.advances, rfl⟩, trivial⟩

theorem pushScope_does (hc : c.Valid) : c.Does (modifyEnv .pushScope) (fun _ _ => True) :=
  modifyEnv_does hc hc.env.pushScope

theorem popScope_does (hc : c.Valid) : c.Does (modifyEnv .popScope) (fun _ _ => True) :=
  modifyEnv_does hc hc.env.popScope

theorem bindMono_does (hc : c.Valid) (name : String) {t : Ty} (ht : t.Below c.unifier.rowCount) :
    c.Does (bindMono name t) (fun _ _ => True) :=
  modifyEnv_does hc (hc.env.bind name (Scheme.below_mono_iff.2 ht))

theorem fail_does (hc : c.Valid) (category : Category) (message : String) (span : Span) :
    c.Does (fail category message span) (fun _ _ => True) :=
  (Does.lift hc (Unifier.report_does hc.unifier _)).imp fun _ _ _ _ => trivial

theorem report_does (hc : c.Valid) (d : Diagnostic) :
    c.Does (liftM (Unifier.report d)) (fun _ _ => True) :=
  (Does.lift hc (Unifier.report_does hc.unifier d)).imp fun _ _ _ _ => trivial

theorem record_does (hc : c.Valid) (rule : InferRule) (e : Expr) (t : Ty) (detail : String) :
    c.Does (record rule e t detail) (fun _ _ => True) := by
  simp only [record, Does, modify, modifyGet, MonadStateOf.modifyGet, StateT.modifyGet, Pure.pure]
  split
  · exact ⟨⟨⟨hc.unifier, hc.env, hc.context, hc.scope⟩, hc.unifier.advances, rfl⟩, trivial⟩
  · exact ⟨hc.advances, trivial⟩

theorem recordScheme_does (hc : c.Valid) (name : Name) (s : Scheme) :
    c.Does (recordScheme name s) (fun _ _ => True) := by
  simp only [recordScheme, Does, modify, modifyGet, MonadStateOf.modifyGet, StateT.modifyGet,
    Pure.pure]
  split
  · exact ⟨⟨⟨hc.unifier, hc.env, hc.context, hc.scope⟩, hc.unifier.advances, rfl⟩, trivial⟩
  · exact ⟨hc.advances, trivial⟩

theorem checkName_does (hc : c.Valid) (name : Name) : c.Does (checkName name) (fun _ _ => True) := by
  unfold checkName
  split
  · exact .pure hc trivial
  · split
    · exact .pure hc trivial
    · exact fail_does hc _ _ _

theorem checkLiteral_does (hc : c.Valid) (value : Literal) (span : Span) :
    c.Does (checkLiteral value span) (fun _ _ => True) := by
  unfold checkLiteral
  split
  · split
    · exact .pure hc trivial
    · exact report_does hc _
  · exact .pure hc trivial

end Checker

end RowCheck
