import RowCheck.Match.Check
import RowCheck.Proofs.Match.FirstMatch

/-!
Ways through a decision tree. A tree can fail exactly if a way through it ends without an arm, and
such a way is what the search for an uncovered value looks for.
-/
namespace RowCheck

/-! ## Ways through a tree -/

namespace DecisionTree

mutual

/-- The arms that a tree selects or tries, each as often as it occurs, and `none` for every way that
ends without an arm. -/
def visits : DecisionTree → List (Option Nat)
  | leaf arm _ => [some arm]
  | guard arm _ otherwise => some arm :: otherwise.visits
  | switch _ cases (some fallback) => visitsOfCases cases ++ fallback.visits
  | switch _ cases none => visitsOfCases cases
  | fail => [none]

def visitsOfCases : List (Constructor × DecisionTree) → List (Option Nat)
  | [] => []
  | (_, t) :: rest => t.visits ++ visitsOfCases rest

end

mutual

theorem canFail_iff : (t : DecisionTree) → (t.canFail = true ↔ none ∈ t.visits)
  | leaf .. => by simp [canFail, visits]
  | guard _ _ otherwise => by simp [canFail, visits, canFail_iff otherwise]
  | switch _ cases (some fallback) => by
    simp [canFail, visits, canFail_iff fallback, canFailInCases_iff cases]
  | switch _ cases none => by simp [canFail, visits, canFailInCases_iff cases]
  | fail => by simp [canFail, visits]

theorem canFailInCases_iff : (cases : List (Constructor × DecisionTree)) →
    (canFailInCases cases = true ↔ none ∈ visitsOfCases cases)
  | [] => by simp [canFailInCases, visitsOfCases]
  | (_, t) :: rest => by
    simp [canFailInCases, visitsOfCases, canFail_iff t, canFailInCases_iff rest]

end

theorem mem_visitsOfCases {x : Option Nat} {cases : List (Constructor × DecisionTree)} :
    x ∈ visitsOfCases cases ↔ ∃ c ∈ cases, x ∈ c.2.visits := by
  induction cases with
  | nil => simp [visitsOfCases]
  | cons c cases ih => simp [visitsOfCases, ih]

end DecisionTree

namespace Registries

variable {r : Registries} {scrutinee : Ty}

mutual

/-- A way that ends without an arm is found if there is one. -/
theorem failPath_eq_none_iff : (path : TreePath) → (t : DecisionTree) →
    (r.failPath scrutinee path t = none ↔ t.canFail = false)
  | path, .leaf .. => by simp [failPath, DecisionTree.canFail]
  | path, .guard _ _ otherwise => by
    simp [failPath, DecisionTree.canFail, failPath_eq_none_iff path otherwise]
  | path, .switch o cases (some fallback) => by
    have hc := failPathInCases_eq_none_iff path o cases
    have hf := fun path => failPath_eq_none_iff path fallback
    simp only [failPath, DecisionTree.canFail, Bool.or_eq_false_iff, ← hc]
    cases r.failPathInCases scrutinee path o cases with
    | some found => simp
    | none =>
      cases r.missing? (r.typeAt scrutinee path o) (cases.map (·.1)) with
      | some c => simp [hf]
      | none => simp [hf]
  | path, .switch o cases none => by
    simp [failPath, DecisionTree.canFail, failPathInCases_eq_none_iff path o cases]
  | path, .fail => by simp [failPath, DecisionTree.canFail]

theorem failPathInCases_eq_none_iff : (path : TreePath) → (o : Occurrence) →
    (cases : List (Constructor × DecisionTree)) →
    (r.failPathInCases scrutinee path o cases = none ↔ DecisionTree.canFailInCases cases = false)
  | path, o, [] => by simp [failPathInCases, DecisionTree.canFailInCases]
  | path, o, (c, t) :: rest => by
    have ht := failPath_eq_none_iff (path ++ [(o, c)]) t
    have hr := failPathInCases_eq_none_iff path o rest
    simp only [failPathInCases, DecisionTree.canFailInCases, Bool.or_eq_false_iff, ← ht, ← hr]
    cases r.failPath scrutinee (path ++ [(o, c)]) t <;> simp

end

theorem uncovered?_eq_none_iff {t : DecisionTree} :
    r.uncovered? t scrutinee = none ↔ t.canFail = false := by
  rw [uncovered?, Option.map_eq_none_iff, failPath_eq_none_iff]

end Registries

/-! ## What is visited -/

/-- The arms visited by evaluation while no guard holds, given the clauses of the accepting rows,
and `none` at the end if no arm is selected. -/
def trail : List Clause → List (Option Nat)
  | [] => [none]
  | c :: cs => if c.guarded = true then some c.arm :: trail cs else [some c.arm]

theorem none_mem_trail {cs : List Clause} : none ∈ trail cs ↔ ∀ c ∈ cs, c.guarded = true := by
  induction cs with
  | nil => simp [trail]
  | cons c cs ih =>
    simp only [trail]
    split <;> simp_all

/-! ## Failing -/

namespace DecisionTree

variable {s : Subject} {holds : Nat → Bool}

mutual

/-- A tree that fails for some subject can fail. -/
theorem canFail_of_run_eq_failed : {t : DecisionTree} → t.run s holds = .failed → t.canFail = true
  | leaf .., h => by simp [run] at h
  | guard _ _ otherwise, h => by
    simp only [run] at h
    split at h
    · cases h
    · exact canFail_of_run_eq_failed (t := otherwise) h
  | switch o cases (some fallback), h => by
    simp only [run] at h
    simp only [canFail, Bool.or_eq_true]
    split at h
    · rename_i found _
      cases hc : runCases s holds found.value.constructor? cases with
      | none =>
        rw [hc] at h
        exact .inr (canFail_of_run_eq_failed (t := fallback) h)
      | some o =>
        rw [hc] at h
        obtain rfl : o = .failed := h
        exact .inl (canFailInCases_of_runCases hc)
    · cases h
  | switch o cases none, h => by
    simp only [run] at h
    simp only [canFail]
    split at h
    · rename_i found _
      cases hc : runCases s holds found.value.constructor? cases with
      | none =>
        rw [hc] at h
        cases h
      | some o =>
        rw [hc] at h
        obtain rfl : o = .failed := h
        exact canFailInCases_of_runCases hc
    · cases h
  | fail, _ => rfl

theorem canFailInCases_of_runCases {head : Option Constructor} :
    {cases : List (Constructor × DecisionTree)} →
    runCases s holds head cases = some .failed → canFailInCases cases = true
  | [], h => by cases h
  | (c, t) :: rest, h => by
    simp only [runCases] at h
    simp only [canFailInCases, Bool.or_eq_true]
    split at h
    · exact .inl (canFail_of_run_eq_failed (Option.some.inj h))
    · exact .inr (canFailInCases_of_runCases h)

end

end DecisionTree

/-- While no guard holds, evaluation fails if every accepting row has a guard. -/
theorem Ends.eq_failed {cs : List Clause} {o : Outcome} (h : Ends (fun _ => false) cs o)
    (hg : ∀ c ∈ cs, c.guarded = true) : o = .failed := by
  induction cs with
  | nil => exact h
  | cons c cs ih =>
    rw [Ends, if_pos ⟨hg c List.mem_cons_self, rfl⟩] at h
    exact ih h (fun d hd => hg d (List.mem_cons_of_mem _ hd))

theorem guarded_of_mem_armClauses {s : Subject} {n : Nat} {arms : List (TPattern × Bool)} :
    (∀ c ∈ armClauses s n arms, c.guarded = true) ↔ ¬ ∃ p, (p, false) ∈ arms ∧ p.accepts s = true := by
  induction arms generalizing n with
  | nil => simp [armClauses]
  | cons a arms ih =>
    obtain ⟨p, guarded⟩ := a
    rw [armClauses_cons]
    by_cases hp : p.accepts s = true
    · cases guarded with
      | true => simp [hp, ih]
      | false =>
        simp only [hp, if_true, List.mem_cons, forall_eq_or_imp, Bool.false_eq_true, false_and,
          false_iff, not_not]
        exact ⟨p, .inl rfl, hp⟩
    · rw [if_neg hp, ih, not_iff_not]
      constructor
      · rintro ⟨q, hq, ha⟩
        exact ⟨q, List.mem_cons_of_mem _ hq, ha⟩
      · rintro ⟨q, hq, ha⟩
        rcases List.mem_cons.1 hq with e | hq
        · cases e
          exact absurd ha hp
        · exact ⟨q, hq, ha⟩

end RowCheck
