import RowCheck.Proofs.Match.Exhaustive

/-!
The arms that a compiled match keeps are those that some subject comes to. An arm stands in many
branches of the tree; one direction is that evaluation follows the order of the arms, the other that
every branch is taken for some subject while no guard holds.
-/
namespace RowCheck

/-- Whether an arm is tried: its pattern accepts the subject, and no earlier arm is selected. What
its own guard says does not matter. -/
def Tries (arms : List (TPattern × Bool)) (s : Subject) (holds : Nat → Bool) (i : Nat) : Prop :=
  (∃ p guarded, arms[i]? = some (p, guarded) ∧ p.accepts s = true) ∧
    ∀ j < i, ¬ Selects arms s holds j

/-! ## Arms of a tree -/

namespace DecisionTree

mutual

theorem mem_arms_iff {i : Nat} : (t : DecisionTree) → (i ∈ t.arms ↔ some i ∈ t.visits)
  | leaf .. => by simp [arms, visits]
  | guard _ _ otherwise => by simp [arms, visits, mem_arms_iff otherwise]
  | switch _ cases (some fallback) => by
    simp [arms, visits, mem_arms_iff fallback, mem_armsOfCases_iff cases]
  | switch _ cases none => by simp [arms, visits, mem_armsOfCases_iff cases]
  | fail => by simp [arms, visits]

theorem mem_armsOfCases_iff {i : Nat} : (cases : List (Constructor × DecisionTree)) →
    (i ∈ armsOfCases cases ↔ some i ∈ visitsOfCases cases)
  | [] => by simp [armsOfCases, visitsOfCases]
  | (_, t) :: rest => by
    simp [armsOfCases, visitsOfCases, mem_arms_iff t, mem_armsOfCases_iff rest]

end

theorem mem_reachableArms {i : Nat} {t : DecisionTree} :
    i ∈ t.reachableArms ↔ some i ∈ t.visits := by
  rw [reachableArms, SortedSet.mem_ofList, mem_arms_iff]

variable {s : Subject} {holds : Nat → Bool} {i : Nat} {bindings : Bindings}

mutual

/-- A tree selects none but its own arms. -/
theorem mem_arms_of_run : {t : DecisionTree} → t.run s holds = .selected i bindings → i ∈ t.arms
  | leaf .., h => by
    simp only [run, Outcome.selected.injEq] at h
    simp [arms, h.1]
  | guard _ _ otherwise, h => by
    simp only [run] at h
    simp only [arms, List.mem_cons]
    split at h
    · cases h
      exact .inl rfl
    · exact .inr (mem_arms_of_run (t := otherwise) h)
  | switch o cases (some fallback), h => by
    simp only [run] at h
    simp only [arms, List.mem_append]
    split at h
    · rename_i found _
      cases hc : runCases s holds found.value.constructor? cases with
      | none =>
        rw [hc] at h
        exact .inr (mem_arms_of_run (t := fallback) h)
      | some o =>
        rw [hc] at h
        obtain rfl : o = .selected i bindings := h
        exact .inl (mem_arms_of_runCases hc)
    · cases h
  | switch o cases none, h => by
    simp only [run] at h
    simp only [arms]
    split at h
    · rename_i found _
      cases hc : runCases s holds found.value.constructor? cases with
      | none =>
        rw [hc] at h
        cases h
      | some o =>
        rw [hc] at h
        obtain rfl : o = .selected i bindings := h
        exact mem_arms_of_runCases hc
    · cases h
  | fail, h => by simp [run] at h

theorem mem_arms_of_runCases {head : Option Constructor} :
    {cases : List (Constructor × DecisionTree)} →
    runCases s holds head cases = some (.selected i bindings) → i ∈ armsOfCases cases
  | [], h => by cases h
  | (c, t) :: rest, h => by
    simp only [runCases] at h
    simp only [armsOfCases, List.mem_append]
    split at h
    · exact .inl (mem_arms_of_run (Option.some.inj h))
    · exact .inr (mem_arms_of_runCases h)

end

end DecisionTree

/-! ## Arms that are tried -/

section

variable {arms : List (TPattern × Bool)} {s : Subject} {holds : Nat → Bool} {i : Nat}

/-- An arm that is tried is selected first once its own guard holds. -/
theorem Tries.selectsFirst (h : Tries arms s holds i) :
    SelectsFirst arms s (Function.update holds i true) i := by
  obtain ⟨⟨p, guarded, hi, ha⟩, hbefore⟩ := h
  refine ⟨⟨p, guarded, hi, ha, fun _ => by simp⟩, fun j hj hsel => hbefore j hj ?_⟩
  obtain ⟨q, g, hq, haq, hg⟩ := hsel
  exact ⟨q, g, hq, haq, fun e => by simpa [Function.update_of_ne (Nat.ne_of_lt hj)] using hg e⟩

theorem tries_cons_zero {p : TPattern} {guarded : Bool} :
    Tries ((p, guarded) :: arms) s holds 0 ↔ p.accepts s = true := by
  constructor
  · rintro ⟨⟨q, g, he, ha⟩, -⟩
    cases he
    exact ha
  · exact fun ha => ⟨⟨p, guarded, rfl, ha⟩, fun j hj => absurd hj (Nat.not_lt_zero j)⟩

/-- While no guard holds, an arm behind another one is tried if the other one does not accept or has
a guard. -/
theorem tries_cons_succ {p : TPattern} {guarded : Bool}
    (hp : p.accepts s = true → guarded = true) (h : Tries arms s (fun _ => false) i) :
    Tries ((p, guarded) :: arms) s (fun _ => false) (i + 1) := by
  obtain ⟨hi, hbefore⟩ := h
  refine ⟨by simpa using hi, fun j hj => ?_⟩
  cases j with
  | zero =>
    rw [selects_cons_zero]
    exact fun hsel => by simpa using hsel.2 (hp hsel.1)
  | succ j =>
    rw [selects_cons_succ]
    exact hbefore j (by omega)

/-- The arms that are visited while no guard holds are tried. The arms are numbered from `n`. -/
theorem tries_of_mem_trail {n : Nat} (h : some i ∈ trail (armClauses s n arms)) :
    ∃ k, i = n + k ∧ Tries arms s (fun _ => false) k := by
  induction arms generalizing n with
  | nil => simp [armClauses, trail] at h
  | cons a arms ih =>
    obtain ⟨p, guarded⟩ := a
    rw [armClauses_cons] at h
    have behind : (p.accepts s = true → guarded = true) →
        some i ∈ trail (armClauses s (n + 1) arms) →
        ∃ k, i = n + k ∧ Tries ((p, guarded) :: arms) s (fun _ => false) k := by
      intro hp hmem
      obtain ⟨k, rfl, hk⟩ := ih hmem
      exact ⟨k + 1, by omega, tries_cons_succ hp hk⟩
    by_cases ha : p.accepts s = true
    · rw [if_pos ha, trail] at h
      have here : i = n → ∃ k, i = n + k ∧ Tries ((p, guarded) :: arms) s (fun _ => false) k :=
        fun e => ⟨0, e, tries_cons_zero.2 ha⟩
      cases guarded with
      | true =>
        rcases List.mem_cons.1 h with e | h
        · exact here (Option.some.inj e)
        · exact behind (fun _ => rfl) h
      | false => exact here (Option.some.inj (List.mem_singleton.1 h))
    · rw [if_neg ha] at h
      exact behind (fun e => absurd e ha) h

end

/-! ## Reachability -/

/-- An arm of a match is reported as unreachable exactly if no subject of the type of the scrutinee
comes to it, whatever the active patterns give and the guards say. -/
theorem mem_unreachable_iff {r : Registries} (hr : r.types.WellFormed) (hp : r.Populated) {t : Ty}
    {arms : List (TPattern × Bool)} (harms : ∀ a ∈ arms, a.1.Fits r t)
    (ho : ∀ m, Matrix.Arises r (Matrix.ofArms t arms) m → m.IntegersOpen) (i : Nat) :
    i ∈ (r.compileMatch t arms).unreachable ↔
      i < arms.length ∧ ¬ ∃ s : Subject, s.Fits r t ∧ ∃ holds, Tries arms s holds i := by
  have hlisted : i ∈ (r.compileMatch t arms).unreachable ↔
      i < arms.length ∧ i ∉ ((Matrix.ofArms t arms).compile r).reachableArms := by
    simp [Registries.compileMatch]
  rw [hlisted]
  refine and_congr_right fun _ => not_congr ⟨fun hi => ?_, ?_⟩
  · obtain ⟨ss, hss, hx⟩ := Matrix.visited_of_mem_visits hr hp (Matrix.fits_ofArms harms) ho
      (DecisionTree.mem_reachableArms.1 hi)
    cases hss with
    | @cons _ s _ _ hs hss =>
      cases hss
      rw [accepting_ofArms] at hx
      obtain ⟨k, rfl, hk⟩ := tries_of_mem_trail hx
      exact ⟨s, hs, fun _ => false, by simpa using hk⟩
  · rintro ⟨s, hs, holds, htries⟩
    have hsel := htries.selectsFirst
    rw [DecisionTree.reachableArms, SortedSet.mem_ofList]
    rcases Matrix.run_ofArms hr.named harms hs (Function.update holds i true) with
      ⟨-, hnone⟩ | ⟨j, p, guarded, bindings, hrun, -, -, hfirst⟩
    · exact absurd hsel.1 (hnone i)
    · obtain rfl := hsel.unique hfirst
      exact DecisionTree.mem_arms_of_run hrun

/-- Behind an arm that takes every `Some` there is nothing left for `Some (Positive _)`, and the last
arm is not reported: `None` comes to it. -/
theorem unreachable_behind_some :
    let positive := TPattern.variant .synthetic (.named "Option" [.s32]) "Option" "Some"
      [.active .synthetic .s32 "Sign" "Positive" [.wild .synthetic .s32]]
    let m := positives.compileMatch (.named "Option" [.s32])
      (positiveArms.insertIdx 2 (positive, false))
    2 ∈ m.unreachable ∧ 3 ∉ m.unreachable := by
  intro positive m
  have hfits : ∀ a ∈ positiveArms.insertIdx 2 (positive, false),
      a.1.Fits positives (.named "Option" [.s32]) := by
    intro a ha
    rcases List.eq_or_mem_of_mem_insertIdx ha with rfl | ha
    · exact .variant _ _ builds_some
        (.cons (.active _ _ _ (by decide) builds_positive (.cons (.wild ..) .nil)) .nil)
    · exact fits_positiveArms a ha
  have hiff := mem_unreachable_iff positives_wellFormed positives_populated hfits
    (fun n hn => hn.integersOpen (by decide))
  constructor
  · refine (hiff 2).2 ⟨by decide, ?_⟩
    rintro ⟨s, -, holds, ⟨p, guarded, hp, ha⟩, hbefore⟩
    cases hp
    -- whatever `Some (Positive _)` accepts has been taken by `Some n`
    refine hbefore 1 (by decide) ⟨_, _, rfl, ?_, by simp⟩
    simp only [positive, TPattern.accepts, List.length_singleton, Bool.and_eq_true,
      decide_eq_true_eq] at ha ⊢
    refine ⟨ha.1, ?_⟩
    cases hf : s.fields with
    | nil => simp [hf, TPattern.acceptsAll] at ha
    | cons field fields =>
      cases fields with
      | nil => rfl
      | cons _ _ => simp [hf, TPattern.acceptsAll] at ha
  · refine fun h => ((hiff 3).1 h).2 ⟨⟨.variant "Option" "None" [], someSeven.results⟩, ?_,
      fun _ => false, ⟨_, _, rfl, by decide⟩, fun j hj => ?_⟩
    · exact ⟨.built builds_none .nil, fits_someSeven.results⟩
    · rintro ⟨p, guarded, hp, ha, -⟩
      have hj : j = 0 ∨ j = 1 ∨ j = 2 := by omega
      rcases hj with rfl | rfl | rfl <;> cases hp <;> revert ha <;> decide

end RowCheck
