import RowCheck.Proofs.Unify.Schemes

/-!
Whole runs of a pass. Whatever is done in whatever order, no cycle arises, looking up ends, and what
was made equal stays equal.
-/
namespace RowCheck

/-- What can be asked of the state of a pass. -/
inductive PassOp where
  | freshTypeVar
  | freshRowVar
  | find (t : Ty)
  | unify (expected actual : Ty) (why : Provenance)
  | include (row within : Row) (why : Provenance)
  | requireNumeric (t : Ty) (why : Provenance)
  | instantiate (s : Scheme) (span : Span)
  | generalize (t : Ty) (env : TypeEnv) (topLevel : Bool)
  | finish

namespace PassOp

/-- The state after an operation. -/
def step (u : Unifier) : PassOp → Unifier
  | freshTypeVar => (Unifier.freshTypeVar u).2
  | freshRowVar => (Unifier.freshRowVar u).2
  | find t => (Unifier.find t u).2
  | unify expected actual why => (Unifier.unify expected actual why u).2
  | .include row within why => (Unifier.includeRow row within why u).2
  | requireNumeric t why => (Unifier.requireNumeric t why u).2
  | instantiate s span => (s.instantiate span u).2
  | generalize t env topLevel => (RowCheck.generalize t env topLevel u).2
  | finish => (Unifier.finish u).2

/-- Whether all row variables that an operation mentions were made. -/
def Made (u : Unifier) : PassOp → Prop
  | freshTypeVar | freshRowVar | finish => True
  | find t | requireNumeric t _ | generalize t _ _ => t.Below u.rowCount
  | unify expected actual _ => expected.Below u.rowCount ∧ actual.Below u.rowCount
  | .include row within _ => row.Below u.rowCount ∧ within.Below u.rowCount
  | instantiate s _ => s.Below u.rowCount

/-- The state after some operations. -/
def run (u : Unifier) (ops : List PassOp) : Unifier := ops.foldl step u

/-- Whether each of some operations mentions only row variables that were made before it. -/
def AllMade (u : Unifier) : List PassOp → Prop
  | [] => True
  | op :: ops => op.Made u ∧ AllMade (op.step u) ops

/-- An operation keeps equations and errors, and leaves a valid state valid. -/
theorem step_grows {u : Unifier} (hu : u.Valid) {op : PassOp} (hop : op.Made u) :
    u.Grows (op.step u) := by
  cases op with
  | freshTypeVar => exact (Unifier.freshTypeVar_does hu).1.toGrows
  | freshRowVar => exact (Unifier.freshRowVar_does hu).1.toGrows
  | find t => exact (Unifier.find_does hu hop).1.toGrows
  | unify a b why => exact (Unifier.unify_does hu hop.1 hop.2 why).1.toGrows
  | «include» row within why => exact (Unifier.includeRow_does hu hop.1 hop.2 why).1.toGrows
  | requireNumeric t why => exact (Unifier.requireNumeric_does hu hop why).1.toGrows
  | instantiate s span => exact (Unifier.instantiate_does hu hop span).1.toGrows
  | generalize t env topLevel => exact (Unifier.generalize_does hu hop env topLevel).1.toGrows
  | finish => exact (Unifier.finish_grows hu).1

theorem run_grows {u : Unifier} (hu : u.Valid) {ops : List PassOp} (hops : AllMade u ops) :
    u.Grows (run u ops) := by
  induction ops generalizing u with
  | nil => exact hu.grows
  | cons op ops ih =>
    have hstep := step_grows hu hops.1
    exact hstep.trans (ih hstep.valid hops.2)

theorem run_concat (u : Unifier) (ops : List PassOp) (op : PassOp) :
    run u (ops ++ [op]) = op.step (run u ops) := by simp [run]

theorem allMade_append {u : Unifier} {ops more : List PassOp} :
    AllMade u (ops ++ more) ↔ AllMade u ops ∧ AllMade (run u ops) more := by
  induction ops generalizing u with
  | nil => simp [AllMade, run]
  | cons op ops ih => simp [AllMade, ih, run, and_assoc]

end PassOp

/-- Whether looking up comes to an end: it leaves no variable that is bound. -/
structure Substitution.Resolves (s : Substitution) : Prop where
  find : ∀ t v, (s.find t).1 = .var v → s.type? v = none
  findRow : ∀ r v, (s.findRow r).tail = some v → s.row? v = none
  typeVars : ∀ t, ∀ v ∈ (s.apply t).vars, s.type? v = none
  rowVars : ∀ t, ∀ v ∈ (s.apply t).rows, s.row? v = none

theorem Substitution.Acyclic.resolves {s : Substitution} (h : s.Acyclic) : s.Resolves where
  find t v hv := by
    rcases find_eq h t with ⟨w, vs, rfl, hc, -⟩ | ⟨hne, he⟩
    · exact Chain.unbound_head (hv ▸ hc)
    · rw [he] at hv
      exact absurd hv (hne v)
  findRow _ _ hv := h.row?_tail_findRow hv
  typeVars _ _ hv := h.type?_of_mem_vars_apply hv
  rowVars t v hv := by
    obtain ⟨e, he, hv⟩ := Ty.mem_rows.1 hv
    exact h.row?_of_mem_effects_apply he hv

theorem Unifier.empty_valid : Unifier.empty.Valid :=
  ⟨Substitution.empty_valid, fun c hc => by cases hc⟩

namespace Unifier

variable {u : Unifier}

/-! ## Reachable states -/

/-- The states that a pass can come to. -/
inductive Reachable : Unifier → Prop
  | new : Reachable .empty
  | step {u : Unifier} {op : PassOp} : Reachable u → op.Made u → Reachable (op.step u)
  | defer {u : Unifier} {c : Constraint} :
    Reachable u → c.Below u.rowCount → Reachable (Unifier.defer c u).2
  | addNumeric {u : Unifier} (v : TyVar) (span : Span) :
    Reachable u → Reachable (Unifier.addNumeric v span u).2
  | report {u : Unifier} (d : Diagnostic) : Reachable u → Reachable (Unifier.report d u).2
  | takeErrors {u : Unifier} : Reachable u → Reachable { u with errors := [] }
  | trace {u : Unifier} : Reachable u → Reachable { u with tracing := true }
  | takeSteps {u : Unifier} : Reachable u → Reachable { u with steps := [] }

theorem Reachable.valid (h : Reachable u) : u.Valid := by
  induction h with
  | new => exact empty_valid
  | step _ hop ih => exact (PassOp.step_grows ih hop).valid
  | defer _ hc ih => exact (defer_does ih hc).1.valid
  | addNumeric v span _ ih => exact (addNumeric_does ih v span).1.valid
  | report d _ ih => exact (report_does ih d).1.valid
  | takeErrors _ ih | trace _ ih | takeSteps _ ih => exact ⟨ih.substitution, ih.pending⟩

theorem reachable_run {ops : List PassOp} (h : PassOp.AllMade .empty ops) :
    Reachable (PassOp.run .empty ops) := by
  induction ops using List.reverseRecOn with
  | nil => exact .new
  | append_singleton ops op ih =>
    obtain ⟨hops, hop, -⟩ := PassOp.allMade_append.1 h
    rw [PassOp.run_concat]
    exact .step (ih hops) hop

end Unifier

/-- After any operations in any order there is no cycle among the type variables or among the row
variables, so looking up ends, and types that were looked up stay as they are. Two types without
errors that were made equal without a report are equal from then on, effects included. -/
theorem pass_sound {ops : List PassOp} (h : PassOp.AllMade .empty ops) :
    (PassOp.run .empty ops).substitution.Acyclic ∧
    (PassOp.run .empty ops).substitution.Resolves ∧
    (∀ t, (PassOp.run .empty ops).apply ((PassOp.run .empty ops).apply t) =
      (PassOp.run .empty ops).apply t) ∧
    ∀ before a b why after, ops = before ++ .unify a b why :: after →
      ((PassOp.run .empty before).apply a).containsError = false →
      ((PassOp.run .empty before).apply b).containsError = false →
      (PassOp.run .empty (before ++ [.unify a b why])).errors =
        (PassOp.run .empty before).errors →
      (PassOp.run .empty (before ++ [.unify a b why])).apply a =
        (PassOp.run .empty (before ++ [.unify a b why])).apply b ∧
      (PassOp.run .empty ops).apply a = (PassOp.run .empty ops).apply b := by
  have hgrows := PassOp.run_grows Unifier.empty_valid h
  have hac := hgrows.valid.acyclic
  refine ⟨hac, hac.resolves, hac.apply_apply, ?_⟩
  rintro before a b why after rfl ha hb he
  obtain ⟨hbefore, hunify, hafter⟩ := PassOp.allMade_append.1 h
  have hu := (PassOp.run_grows Unifier.empty_valid hbefore).valid
  have hdoes := Unifier.unify_does hu hunify.1 hunify.2 why
  have hrun : ∀ more, PassOp.run .empty (before ++ .unify a b why :: more) =
      PassOp.run (Unifier.unify a b why (PassOp.run .empty before)).2 more := fun more => by
    simp [PassOp.run, PassOp.step]
  rw [hrun []] at he ⊢
  rw [hrun after]
  obtain ⟨-, heq⟩ := hdoes.2 he ha hb
  exact ⟨heq, (PassOp.run_grows hdoes.1.valid hafter).apply_eq hdoes.1.valid heq⟩

/-- Two arrows with open rows are made equal, and a third effect comes in afterwards. -/
def openArrows : List PassOp :=
  let why := .of .synthetic .ifBranches
  [.freshTypeVar, .freshTypeVar, .freshRowVar, .freshRowVar,
    .unify (.fn (.var 0) .unit ⟨.ofList ["io"], some 0⟩)
      (.fn .string (.var 1) ⟨.ofList ["net"], some 1⟩) why,
    .include (.closed ["log"]) (.ofVar 1) why, .finish]

/-- The arrows are equal at the end. -/
theorem openArrows_equal :
    (PassOp.run .empty openArrows).apply (.fn (.var 0) .unit ⟨.ofList ["io"], some 0⟩) =
      (PassOp.run .empty openArrows).apply (.fn .string (.var 1) ⟨.ofList ["net"], some 1⟩) := by
  have h : PassOp.AllMade .empty openArrows :=
    ⟨trivial, trivial, trivial, trivial, ⟨by decide +kernel, by decide +kernel⟩,
      ⟨by decide +kernel, by decide +kernel⟩, trivial, trivial⟩
  exact ((pass_sound h).2.2.2 (openArrows.take 4) _ _ _ _ rfl rfl rfl rfl).2

end RowCheck
