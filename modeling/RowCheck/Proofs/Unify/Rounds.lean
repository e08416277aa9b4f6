import RowCheck.Proofs.Unify.Runs

/-!
The rounds at the end of a pass. In each round labels flow once through every inclusion that is left. A round
that changes a row gives some row a label that it lacked, out of finitely many, so the rounds end, whatever
circles the inclusions make and however many of them are refused on the way. After the last round labels
have flowed through all inclusions that are left, and one more round would do nothing at all.
-/
namespace RowCheck
namespace Unifier

variable {u u' u'' : Unifier} {is left left' : List Inclusion}

/-- Rounds of labels flowing, with no bound on how many. A round that changes a row, or makes a row variable,
is followed by one on the inclusions that it has left; any other round is the last. -/
inductive Rounds : Nat → Unifier → List Inclusion → Unifier → List Inclusion → Prop
  | last {u u' : Unifier} {is left : List Inclusion} :
      flowOnce is u = ((left, false), u') → u'.rowCount = u.rowCount → Rounds 1 u is u' left
  | again {n : Nat} {u u' u'' : Unifier} {is left left' : List Inclusion} {changed : Bool} :
      flowOnce is u = ((left, changed), u') → changed = true ∨ u'.rowCount ≠ u.rowCount →
      Rounds n u' left u'' left' → Rounds (n + 1) u is u'' left'

/-! ## Rounds that do nothing -/

theorem includeLabels_idle {row within : Row} (h : u.Flows row within) :
    includeLabels row within u = (∅, u) := by
  have hempty : ((u.findRow row).labels.diff (u.findRow within).labels).isEmpty = true :=
    SortedSet.isEmpty_diff.2 h
  show (if _ then pure ∅ else _ : UnifyM _) u = _
  rw [if_pos hempty]
  rfl

/-- Where labels have flowed through all inclusions, a round does nothing. -/
theorem flowOnce_idle (h : u.AllFlow is) : flowOnce is u = ((is, false), u) := by
  induction is with
  | nil => rfl
  | cons i is ih =>
    simp only [AllFlow, List.mem_cons, forall_eq_or_imp] at h
    have hempty : (∅ : SortedSet String).isEmpty = true := rfl
    have hstill : (u.findRow i.within != u.findRow i.within) = false := bne_self_eq_false _
    rw [flowOnce, get_bind_run, bind_run, includeLabels_idle h.1]
    dsimp only
    rw [if_pos hempty, bind_run, bind_run]
    show ((if _ then _ :: (flowOnce is u).1.1 else _,
      (u.findRow i.within != u.findRow i.within) || (flowOnce is u).1.2), (flowOnce is u).2) = _
    rw [ih h.2, if_pos hempty, hstill, Bool.or_false]

theorem flow_idle (h : u.AllFlow is) (n : Nat) : flow n is u = (is, u) := by
  cases n with
  | zero => rfl
  | succ n =>
    rw [flow, bind_run, flowOnce_idle h]
    rfl

/-! ## Enough rounds -/

/-- One round: it leaves some of the inclusions, and either changes nothing or gives a row a label. -/
theorem flowOnce_round (hu : u.Valid) (his : ∀ i ∈ is, u.Made i) :
    u.Grows (flowOnce is u).2 ∧ (flowOnce is u).1.1 ⊆ is ∧
      Round u (flowOnce is u).2 is (flowOnce is u).1.1 (flowOnce is u).1.2 := by
  have hunmarked : unmarked (is.map fun i => ((), i)) = is := by simp
  have hmade : ∀ i ∈ is.map fun i => ((), i), u.Made i.2 := by simpa using his
  obtain ⟨hadv, left, refused, hsettles, hleft, -, hround⟩ := flowOnce_settles hu hmade
  rw [hunmarked] at hadv hleft hround
  refine ⟨hadv.toGrows, fun i hi => ?_, hleft ▸ hround⟩
  rw [hleft] at hi
  obtain ⟨j, hj, rfl⟩ := List.mem_map.1 hi
  exact hunmarked ▸ List.mem_map_of_mem (hsettles.mem hj)

/-- With more rounds to go than labels that can be gained, the rounds end, and labels have flowed
through all inclusions that are left. -/
theorem rounds_of_gap (n : Nat) (hu : u.Valid) (his : ∀ i ∈ is, u.Made i) {labels : Finset String}
    (hl : u.Within labels is) (hn : u.gap labels is < n) :
    ∃ k ≤ n, ∃ u' left, Rounds k u is u' left ∧ flow n is u = (left, u') ∧ u'.AllFlow left := by
  induction n generalizing u is with
  | zero => exact absurd hn (Nat.not_lt_zero _)
  | succ n ih =>
    obtain ⟨hg, hsub, hround⟩ := flowOnce_round hu his
    have hflow : flow (n + 1) is u = (if (flowOnce is u).1.2 then flow n (flowOnce is u).1.1
      else pure (flowOnce is u).1.1 : UnifyM _) (flowOnce is u).2 := rfl
    cases hchanged : (flowOnce is u).1.2 with
    | false =>
      obtain ⟨hs, hall⟩ := hround.still hchanged
      have honce : flowOnce is u = (((flowOnce is u).1.1, false), (flowOnce is u).2) :=
        Prod.ext (Prod.ext rfl hchanged) rfl
      have hrows : (flowOnce is u).2.rowCount = u.rowCount := by rw [rowCount, hs]
      rw [hflow, hchanged]
      exact ⟨1, Nat.le_add_left 1 n, _, _, .last honce hrows, rfl, hall⟩
    | true =>
      have hgap := hround.gap_lt labels hl hchanged
      have hwithin : (flowOnce is u).2.Within labels (flowOnce is u).1.1 := fun i hi =>
        hround.labels labels hl i.row (hl i (hsub hi))
      obtain ⟨k, hk, u', left, hrounds, hrun, hall⟩ := ih hg.valid
        (fun i hi => (his i (hsub hi)).grows hg) hwithin (by omega)
      rw [hflow, hchanged]
      exact ⟨k + 1, Nat.succ_le_succ hk, u', left, .again rfl (.inl hchanged) hrounds, hrun, hall⟩

/-! ## The end of a pass -/

/-- The end of a pass: what waits is taken, labels flow in rounds, and the tails of what is left are
identified. -/
theorem finish_run {cs : List Constraint} {u₁ u₂ : Unifier}
    (htake : takePending cs { u with pending := [] } = (is, u₁))
    (hflow : flow (flowBound u₁ is) is u₁ = (left, u₂)) :
    finish { u with pending := cs } = (do
      for i in left do
        identifyTail i : UnifyM Unit) u₂ := by
  rw [finish, get_bind_run, bind_run]
  show ((takePending cs >>= _ : UnifyM Unit)) { u with pending := [] } = _
  rw [bind_run, htake, get_bind_run, bind_run, hflow]

/-- At the end of a pass the rounds come to an end, whatever waits: circles of inclusions, inclusions with
tails in common, and ones that are refused in one of the rounds. After the last round one more would
leave the state as it is. -/
theorem finish_rounds_end (hu : u.Reachable) {cs : List Constraint}
    (hcs : ∀ c ∈ cs, c.Below u.rowCount) :
    ∃ is u₁ n left u₂,
      takePending cs { u with pending := [] } = (is, u₁) ∧
      is = cs.filterMap Constraint.inclusion? ∧
      n ≤ flowBound u₁ is ∧ Rounds n u₁ is u₂ left ∧
      flowOnce left u₂ = ((left, false), u₂) ∧
      finish { u with pending := cs } = (do
        for i in left do
          identifyTail i : UnifyM Unit) u₂ := by
  have hcleared : u.Grows { u with pending := [] } :=
    hu.valid.grows_of_eq rfl (by simp) (List.prefix_refl _)
  obtain ⟨hadv, -, his⟩ := takePending_does hcleared.valid hcs
  have hmade : ∀ i ∈ cs.filterMap Constraint.inclusion?, Made { u with pending := [] } i :=
    Valid.made_pending (u := { u with pending := cs }) ⟨hu.valid.substitution, hcs⟩
  obtain ⟨labels, hlabels, hgap⟩ := gap_lt_flowBound
    (takePending cs { u with pending := [] }).2 (takePending cs { u with pending := [] }).1
  obtain ⟨n, hn, u₂, left, hrounds, hflow, hall⟩ := rounds_of_gap _ hadv.valid
    (fun i hi => (hmade i (his ▸ hi)).grows hadv.toGrows) hlabels hgap
  exact ⟨_, _, n, left, u₂, rfl, his, hn, hrounds, flowOnce_idle hall, finish_run rfl hflow⟩

/-- A pass that has made two row variables. -/
def twoRows : Unifier := PassOp.run .empty [.freshRowVar, .freshRowVar]

/-- Two row variables each of which must include the other, and the first of which must stay within a
closed row: that is refused in the second round, when a label has come around. -/
def circle : List Constraint :=
  let why := .of .synthetic .ifBranches
  [.inclusion (.ofVar 0) (.closed ["net"]) why,
    .inclusion ⟨.ofList ["io"], some 0⟩ (.ofVar 1) why,
    .inclusion (.ofVar 1) ⟨.ofList ["log"], some 0⟩ why]

/-- The rounds on the circle end, with one inclusion refused and two left. -/
theorem circle_rounds_end :
    (finish { twoRows with pending := circle }).2.errors.length = 1 ∧
    ∃ is u₁ n left u₂, takePending circle { twoRows with pending := [] } = (is, u₁) ∧
      Rounds n u₁ is u₂ left ∧ flowOnce left u₂ = ((left, false), u₂) := by
  have hu : Reachable twoRows := reachable_run ⟨trivial, trivial, trivial⟩
  have hcs : ∀ c ∈ circle, c.Below twoRows.rowCount := by
    simp only [circle, List.forall_mem_cons, List.not_mem_nil, false_imp_iff, implies_true, and_true]
    exact ⟨⟨by decide +kernel, by decide +kernel⟩, ⟨by decide +kernel, by decide +kernel⟩,
      ⟨by decide +kernel, by decide +kernel⟩⟩
  obtain ⟨is, u₁, n, left, u₂, htake, -, -, hrounds, hstill, -⟩ := finish_rounds_end hu hcs
  exact ⟨by decide +kernel, is, u₁, n, left, u₂, htake, hrounds, hstill⟩

end Unifier

end RowCheck
