import RowCheck.Proofs.Dependency.Search

/-!
The search finds the strongly connected components. What visiting a node does is told by the number
it answers: that of a node lower on the stack which it leads back to, or else its component has been
completed and nothing of it is left on the stack.
-/
namespace RowCheck

open Relation

namespace DependencyGraph

variable {g : DependencyGraph}

/-- What has happened when a node has been visited, `new` being what that has left on the stack. -/
structure Visited (g : DependencyGraph) (opened : List Nat) (n : Nat) (s : Search) (new : List Nat)
    (r : Nat × Search) : Prop where
  explored : r.2.Explored g opened
  adds : s.Extends r.2 new
  seen : r.2.Seen n
  low_le : ∀ a ∈ new, ∀ b ∈ s.stack, g.Leads a b → r.1 ≤ s.place b
  low_eq : (new = [] ∧ s.count ≤ r.1) ∨ ∃ b ∈ s.stack, r.1 = s.place b ∧ g.Reaches n b

/-- Whether visiting a node that was not visited does so, as long as there is room for further nodes.
-/
def Visits (g : DependencyGraph) (room : Nat) (visit : Nat → SearchM Nat) : Prop :=
  ∀ (opened : List Nat) (n : Nat) (s : Search), s.Explored g opened → ¬ s.Seen n → n < g.size →
    (∀ a ∈ opened, g.Reaches a n) → g.size ≤ room + s.count →
    ∃ new, Visited g opened n s new (visit n s)

/-- What has happened when some successors of the innermost open node `n` have been looked at, above
the part `base` of the stack below that node. -/
structure Scanned (g : DependencyGraph) (opened : List Nat) (n : Nat) (base ks : List Nat) (low : Nat)
    (s : Search) (new : List Nat) (r : Nat × Search) : Prop where
  explored : r.2.Explored g (n :: opened)
  adds : s.Extends r.2 new
  seen : ∀ k ∈ ks, r.2.Seen k
  le : r.1 ≤ low
  low_le : ∀ a ∈ new, ∀ b ∈ base, g.Leads a b → r.1 ≤ s.place b
  next_le : ∀ k ∈ ks, k ∈ base → r.1 ≤ s.place k
  low_eq : r.1 = low ∨ ∃ b ∈ base, r.1 = s.place b ∧ g.Reaches n b

theorem lowest_cons_seen {visit : Nat → SearchM Nat} {k : Nat} {ks : List Nat} {low : Nat}
    {s : Search} (h : s.Seen k) : lowest visit (k :: ks) low s =
      lowest visit ks (if k ∈ s.stack then min low (s.place k) else low) s := by
  rw [lowest]
  simp only [bind, StateT.bind, get, getThe, MonadStateOf.get, StateT.get, pure]
  rw [Search.get?_eq_place h]

theorem lowest_cons_unseen {visit : Nat → SearchM Nat} {k : Nat} {ks : List Nat} {low : Nat}
    {s : Search} (h : ¬ s.Seen k) : lowest visit (k :: ks) low s =
      lowest visit ks (min low (visit k s).1) (visit k s).2 := by
  rw [lowest]
  simp only [bind, StateT.bind, get, getThe, MonadStateOf.get, StateT.get, pure]
  rw [Search.get?_eq_none h]
  rfl

/-- The state in which the search below a node ends, and the least number it leads back to. -/
def below (g : DependencyGraph) (fuel n : Nat) (s : Search) : Nat × Search :=
  lowest (g.visit fuel) (g.next n) s.count (s.enter n)

theorem visit_succ (g : DependencyGraph) (fuel n : Nat) (s : Search) :
    g.visit (fuel + 1) n s = ((g.below fuel n s).1,
      if (g.below fuel n s).1 = s.count then (g.below fuel n s).2.complete n
      else (g.below fuel n s).2) := by
  have hvisit : g.visit (fuel + 1) n s = (if (g.below fuel n s).1 = s.count then
      complete n >>= fun _ => pure (g.below fuel n s).1
      else pure (g.below fuel n s).1 : SearchM Nat) (g.below fuel n s).2 := by
    rw [visit]
    rfl
  rw [hvisit]
  by_cases h : (g.below fuel n s).1 = s.count
  · rw [if_pos h, if_pos h]
    rfl
  · rw [if_neg h, if_neg h]
    rfl

section

variable {opened : List Nat} {n k low : Nat} {above base ks new : List Nat} {s : Search}
  {r : Nat × Search}

/-- A successor that was visited counts if it is still on the stack. -/
theorem Scanned.cons_seen (h : s.Explored g (n :: opened)) (hs : s.stack = above ++ n :: base)
    (hlow : low ≤ s.place n) (hk : g.Leads n k) (hseen : s.Seen k)
    (hscan : Scanned g opened n base ks (if k ∈ s.stack then min low (s.place k) else low) s new r) :
    Scanned g opened n base (k :: ks) low s new r := by
  have hbase : ∀ b ∈ base, b ∈ s.stack := fun b hb => by simp [hs, hb]
  have hnext : k ∈ base → (if k ∈ s.stack then min low (s.place k) else low) ≤ s.place k := by
    intro hb
    rw [if_pos (hbase k hb)]
    exact Nat.min_le_right _ _
  have hle : (if k ∈ s.stack then min low (s.place k) else low) ≤ low := by
    split
    · exact Nat.min_le_left _ _
    · exact Nat.le_refl _
  refine ⟨hscan.explored, hscan.adds, ?_, Nat.le_trans hscan.le hle, hscan.low_le, ?_, ?_⟩
  · intro j hj
    rcases List.mem_cons.1 hj with rfl | hj
    · exact hscan.adds.seen _ hseen
    · exact hscan.seen j hj
  · intro j hj hb
    rcases List.mem_cons.1 hj with rfl | hj
    · exact Nat.le_trans hscan.le (hnext hb)
    · exact hscan.next_le j hj hb
  · rcases hscan.low_eq with he | he
    · by_cases hb : k ∈ base ∧ s.place k < low
      · refine .inr ⟨k, hb.1, ?_, .single hk⟩
        rw [he, if_pos (hbase k hb.1)]
        omega
      · refine .inl ?_
        rw [he]
        split
        · rename_i hstack
          by_cases hkb : k ∈ base
          · have : ¬ s.place k < low := fun hlt => hb ⟨hkb, hlt⟩
            omega
          · have := h.place_le_of_not_mem hs hstack hkb
            omega
        · rfl
    · exact .inr he

/-- A successor that was visited just now counts by what it leads back to. -/
theorem Scanned.cons_visited (h : s.Explored g (n :: opened)) (hs : s.stack = above ++ n :: base)
    (hlow : low ≤ s.place n) (hk : g.Leads n k) (hseen : ¬ s.Seen k) {new' : List Nat}
    {r' : Nat × Search} (hv : Visited g (n :: opened) k s new' r')
    (hscan : Scanned g opened n base ks (min low r'.1) r'.2 new r) :
    Scanned g opened n base (k :: ks) low s (new ++ new') r := by
  have hbase : ∀ b ∈ base, b ∈ s.stack := fun b hb => by simp [hs, hb]
  have hplace : ∀ b ∈ base, r'.2.place b = s.place b := fun b hb =>
    hv.adds.place b (h.seen_of_mem_stack (hbase b hb))
  have hle := hscan.le
  refine ⟨hscan.explored, hv.adds.trans hscan.adds, ?_, by omega, ?_, ?_, ?_⟩
  · intro j hj
    rcases List.mem_cons.1 hj with rfl | hj
    · exact hscan.adds.seen _ hv.seen
    · exact hscan.seen j hj
  · intro a ha b hb hab
    rcases List.mem_append.1 ha with ha | ha
    · rw [← hplace b hb]
      exact hscan.low_le a ha b hb hab
    · have := hv.low_le a ha b (hbase b hb) hab
      omega
  · intro j hj hb
    rcases List.mem_cons.1 hj with rfl | hj
    · exact absurd (h.seen_of_mem_stack (hbase j hb)) hseen
    · rw [← hplace j hb]
      exact hscan.next_le j hj hb
  · rcases hscan.low_eq with he | ⟨b, hb, he, hreach⟩
    · by_cases hlt : r'.1 < low
      · rcases hv.low_eq with ⟨-, hcount⟩ | ⟨b, hb, hbeq, hreach⟩
        · have := h.place_lt n (h.seen_of_mem_stack (by simp [hs]))
          omega
        · by_cases hbb : b ∈ base
          · refine .inr ⟨b, hbb, ?_, .head hk hreach⟩
            rw [he, ← hbeq]
            omega
          · have := h.place_le_of_not_mem hs hb hbb
            omega
      · exact .inl (by rw [he]; omega)
    · exact .inr ⟨b, hb, by rw [he, hplace b hb], hreach⟩

end

/-- Looking at the successors of an open node visits those that were not visited, and answers the
least number that is led back to. -/
theorem lowest_scans {visit : Nat → SearchM Nat} {room : Nat} (hvisit : g.Visits room visit)
    (hg : g.Closed) {opened : List Nat} {n : Nat} {base : List Nat} (ks : List Nat) :
    ∀ (low : Nat) (s : Search) (above : List Nat), s.Explored g (n :: opened) →
      s.stack = above ++ n :: base → (∀ a ∈ opened, a ∈ base) → (∀ k ∈ ks, g.Leads n k) →
      low ≤ s.place n → g.size ≤ room + s.count →
      ∃ new, Scanned g opened n base ks low s new (lowest visit ks low s) := by
  induction ks with
  | nil =>
    intro low s above h _ _ _ _ _
    exact ⟨[], h, .refl s, by simp, Nat.le_refl _, by simp, by simp, .inl rfl⟩
  | cons k ks ih =>
    intro low s above h hs hopen hks hlow hroom
    simp only [List.mem_cons, forall_eq_or_imp] at hks
    obtain ⟨hk, hks⟩ := hks
    by_cases hseen : s.Seen k
    · rw [lowest_cons_seen hseen]
      obtain ⟨new, hscan⟩ := ih (if k ∈ s.stack then min low (s.place k) else low) s above h hs hopen hks
        (by split <;> omega) hroom
      exact ⟨new, hscan.cons_seen h hs hlow hk hseen⟩
    · obtain ⟨new', hv⟩ := hvisit (n :: opened) k s h hseen (hg n k hk)
        (h.reaches_of_leads hs hopen hk) hroom
      have hn : s.Seen n := h.seen_of_mem_stack (by simp [hs])
      have hs' : (visit k s).2.stack = (new' ++ above) ++ n :: base := by
        rw [hv.adds.stack, hs, List.append_assoc]
      have hcount := hv.adds.count
      rw [lowest_cons_unseen hseen]
      obtain ⟨new, hscan⟩ := ih (min low (visit k s).1) (visit k s).2 (new' ++ above) hv.explored hs'
        hopen hks (by rw [hv.adds.place n hn]; omega) (by omega)
      exact ⟨new ++ new', hscan.cons_visited h hs hlow hk hseen hv⟩

/-- With room for all nodes that were not visited, visiting one visits what it leads to, and completes
the components found on the way. -/
theorem visit_visits (hg : g.Closed) (fuel : Nat) : g.Visits fuel (g.visit fuel) := by
  induction fuel with
  | zero =>
    intro opened n s h hseen hn _ hroom
    have := Search.count_lt h.seen_lt hseen hn
    omega
  | succ fuel ih =>
    intro opened n s h hseen hn hreach hroom
    have henter := h.enter hseen hn hreach
    have hopened : ∀ a ∈ opened, a ∈ s.stack := h.opened_stack
    have hcount := Search.count_enter hseen
    obtain ⟨new, hscan⟩ := lowest_scans ih hg (g.next n) s.count (s.enter n) [] henter rfl hopened
      (fun _ hk => hk) (Nat.le_of_eq Search.place_enter_self.symm) (by omega)
    have hstack : (g.below fuel n s).2.stack = new ++ n :: s.stack := hscan.adds.stack
    have hextends := (Search.extends_enter hseen).trans hscan.adds
    have hplace : ∀ b ∈ s.stack, (s.enter n).place b = s.place b := fun b hb =>
      (Search.extends_enter hseen).place b (h.seen_of_mem_stack hb)
    have hn' : (g.below fuel n s).2.Seen n :=
      hscan.adds.seen n (Search.seen_enter.2 (.inl rfl))
    have hlow : ∀ a ∈ new ++ [n], ∀ b ∈ s.stack, g.Leads a b → (g.below fuel n s).1 ≤ s.place b := by
      intro a ha b hb hab
      rw [← hplace b hb]
      rcases List.mem_append.1 ha with ha | ha
      · exact hscan.low_le a ha b hb hab
      · exact hscan.next_le b (List.mem_singleton.1 ha ▸ hab) hb
    rw [visit_succ]
    by_cases he : (g.below fuel n s).1 = s.count
    · rw [if_pos he]
      have hback : ∀ a ∈ new ++ [n], ∀ b ∈ s.stack, ¬ g.Leads a b := by
        intro a ha b hb hab
        have := hlow a ha b hb hab
        have := h.place_lt b (h.seen_of_mem_stack hb)
        omega
      have hdone := hscan.explored.complete hstack hopened hscan.seen hback
      refine ⟨[], hdone, ⟨?_, hextends.seen, hextends.place, hextends.later, hextends.count⟩, hn',
        by simp, .inl ⟨rfl, Nat.le_of_eq he.symm⟩⟩
      have hnotin : n ∉ new := by
        intro hmem
        have := hscan.explored.place_lt_of_append hstack hmem List.mem_cons_self
        omega
      rw [Search.Explored.complete_eq hstack hnotin]
      rfl
    · rw [if_neg he]
      obtain ⟨b, hb, hbeq, hnb⟩ := hscan.low_eq.resolve_left he
      refine ⟨new ++ [n], hscan.explored.leave hstack hscan.seen hb hnb, hextends, hn', hlow, ?_⟩
      exact .inr ⟨b, hb, by rw [← hplace b hb]; exact hbeq, hnb⟩

theorem visitAll_explores (hg : g.Closed) (ns : List Nat) : ∀ s : Search, s.Explored g [] →
    (∀ n ∈ ns, n < g.size) → (g.visitAll ns s).2.Explored g [] ∧
      ∀ n, s.Seen n ∨ n ∈ ns → (g.visitAll ns s).2.Seen n := by
  induction ns with
  | nil =>
    intro s h _
    exact ⟨h, fun n hn => hn.resolve_right (List.not_mem_nil)⟩
  | cons n ns ih =>
    intro s h hns
    simp only [List.mem_cons, forall_eq_or_imp] at hns
    by_cases hseen : s.Seen n
    · have hrun : g.visitAll (n :: ns) s = g.visitAll ns s := by
        rw [visitAll]
        simp only [bind, StateT.bind, get, getThe, MonadStateOf.get, StateT.get, pure]
        rw [Search.get?_eq_place hseen]
      rw [hrun]
      obtain ⟨hex, hall⟩ := ih s h hns.2
      refine ⟨hex, fun k hk => hall k ?_⟩
      rcases hk with hk | hk
      · exact .inl hk
      · rcases List.mem_cons.1 hk with rfl | hk
        · exact .inl hseen
        · exact .inr hk
    · have hrun : g.visitAll (n :: ns) s = g.visitAll ns (g.visit g.size n s).2 := by
        rw [visitAll]
        simp only [bind, StateT.bind, get, getThe, MonadStateOf.get, StateT.get, pure]
        rw [Search.get?_eq_none hseen]
        rfl
      rw [hrun]
      obtain ⟨new, hv⟩ := visit_visits hg g.size [] n s h hseen hns.1 (by simp) (by omega)
      obtain ⟨hex, hall⟩ := ih _ hv.explored hns.2
      refine ⟨hex, fun k hk => hall k ?_⟩
      rcases hk with hk | hk
      · exact .inl (hv.adds.seen k hk)
      · rcases List.mem_cons.1 hk with rfl | hk
        · exact .inl hv.seen
        · exact .inr hk

theorem explored_start : Search.Explored g [] ⟨∅, [], []⟩ := by
  constructor
  all_goals simp [Search.Seen]
  exact ⟨by simp, by simp, .nil⟩

/-- The components of a graph are its strongly connected components, each node is in just one, and no
component leads to a later one. -/
theorem components_condensed (hg : g.Closed) :
    g.Condensed g.components ∧ g.components.flatten.Perm (List.range g.size) := by
  obtain ⟨hex, hall⟩ := visitAll_explores hg (List.range g.size) ⟨∅, [], []⟩ explored_start
    (fun n hn => List.mem_range.1 hn)
  refine ⟨hex.condensed, ?_⟩
  have hstack := hex.stack_eq_nil
  have hnd := hex.nodup
  have hiff := hex.seen_iff
  rw [hstack, List.nil_append] at hnd
  simp only [hstack, List.nil_append] at hiff
  refine (List.perm_ext_iff_of_nodup hnd List.nodup_range).2 fun n => ?_
  constructor
  · exact fun hn => List.mem_range.2 (hex.seen_lt n ((hiff n).2 hn))
  · exact fun hn => (hiff n).1 (hall n (.inr hn))

end DependencyGraph
end RowCheck
