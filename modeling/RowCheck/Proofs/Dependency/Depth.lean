import RowCheck.Proofs.Dependency.Levels

/-!
How deep a declaration stands. The level of a group is the length of the longest chain of
dependencies that starts in it, where each declaration of the chain does not depend on the one before
it. This is told from the dependencies alone: the order of the module and the numbers of the
components leave no trace in it.
-/
namespace RowCheck

/-- Whether a chain of so many dependencies, none of them mutual, starts at a declaration. -/
def Module.Deep (m : Module) (active : ActiveRegistry) : Nat → Nat → Prop
  | 0, _ => True
  | n + 1, i => ∃ j, m.Depends active i j ∧ ¬ m.Depends active j i ∧ m.Deep active n j

namespace DependencyGraph

variable {g : DependencyGraph} {m : Module} {active : ActiveRegistry}

/-- What a component of some depth leads to: unless the depth is zero, a component other than itself
that is less deep by one at most. -/
theorem exists_leads_of_lt_depth (hg : g.Closed) {n k : Nat} {c : List Nat}
    (hk : g.components[k]? = some c) (h : n < g.depth k) : ∃ j d, g.components[j]? = some d ∧
      j ≠ k ∧ n ≤ g.depth j ∧ ∃ a ∈ c, ∃ b ∈ d, g.Leads a b := by
  have hdepth : g.depth k = g.depthAfter g.components ((g.depths g.components).take k) (c, k) := by
    rw [depth, depths_getElem? hk]
    rfl
  rw [hdepth, depthAfter, Nat.lt_iff_add_one_le, le_foldl_max_iff] at h
  obtain ⟨z, hz, hn⟩ := h.resolve_left (Nat.not_succ_le_zero n)
  obtain ⟨j, hj, rfl⟩ := List.mem_map.1 hz
  obtain ⟨hj, hne⟩ := List.mem_filter.1 hj
  obtain ⟨b, hb, rfl⟩ := List.mem_map.1 hj
  obtain ⟨a, ha, hab⟩ := List.mem_flatMap.1 hb
  obtain ⟨d, hd, hbd⟩ : ∃ d ∈ g.components, b ∈ d := by
    rw [← List.mem_flatten, (components_condensed hg).2.mem_iff]
    exact List.mem_range.2 (hg a b hab)
  obtain ⟨j, hj⟩ := List.mem_iff_getElem?.1 hd
  rw [componentOf_eq (nodup_components hg) hj hbd] at hne hn
  refine ⟨j, d, hj, by simpa using hne, ?_, a, ha, b, hbd, hab⟩
  rw [List.getElem?_take] at hn
  split at hn
  · rw [depths_eq_depth hj] at hn
    exact Nat.le_of_succ_le_succ hn
  · exact Nat.le_trans (Nat.le_of_succ_le_succ hn) (Nat.zero_le _)

namespace Represents

variable (h : g.Represents m active)

include h

/-- The depth of a component is that of its declarations. -/
theorem le_depth_iff (n : Nat) : ∀ {k a : Nat} {c : List Nat}, g.components[k]? = some c → a ∈ c →
    (n ≤ g.depth k ↔ m.Deep active n (g.decl a)) := by
  have hstrong := (components_condensed h.closed).1.strong
  induction n with
  | zero => exact fun _ _ => ⟨fun _ => trivial, fun _ => Nat.zero_le _⟩
  | succ n ih =>
    intro k a c hk ha
    have hc := List.mem_of_getElem? hk
    have hlt := lt_size_of_mem h.closed hc a ha
    constructor
    · intro hn
      obtain ⟨j, d, hj, hne, hle, x, hx, b, hb, hxb⟩ := exists_leads_of_lt_depth h.closed hk hn
      have hab : g.Reaches a b := ((hstrong c hc a ha x).1 hx).1.tail hxb
      refine ⟨g.decl b, h.depends_of_reaches hab, fun hback => hne ?_, (ih hj hb).1 hle⟩
      have hblt := lt_size_of_mem h.closed (List.mem_of_getElem? hj) b hb
      have hba := (h.reaches_iff_depends hblt hlt).2 hback
      have hbc : b ∈ c := (hstrong c hc a ha b).2 ⟨hab, hba⟩
      exact index_unique (nodup_components h.closed) hj hk hb hbc
    · rintro ⟨i, hdep, hback, hdeep⟩
      obtain ⟨b, hb, rfl, hab⟩ := h.exists_reaches hlt hdep
      obtain ⟨d, hd, hbd⟩ := List.mem_flatten.1
        ((components_condensed h.closed).2.mem_iff.2 (List.mem_range.2 hb))
      obtain ⟨j, hj⟩ := List.mem_iff_getElem?.1 hd
      have hne : j ≠ k := by
        rintro rfl
        obtain rfl : c = d := Option.some.inj (hk.symm.trans hj)
        exact hback (h.depends_of_reaches ((hstrong c hc a ha b).1 hbd).2)
      have hle : n ≤ g.depth j := (ih hj hbd).2 hdeep
      exact Nat.lt_of_le_of_lt hle (depth_lt_of_reaches h.closed hk hj ha hbd hne hab)

/-- The declarations of a level are those of one depth. -/
theorem le_level_iff {k : Nat} (hk : k < g.levels.length) {group : List Nat}
    (hgroup : group ∈ g.levels[k]) {i : Nat} (hi : i ∈ group) (n : Nat) :
    n ≤ k ↔ m.Deep active n i := by
  obtain ⟨j, c, hj, rfl, rfl⟩ := (mem_level hk).1 hgroup
  obtain ⟨a, ha, rfl⟩ := mem_group.1 hi
  exact h.le_depth_iff n hj ha

end Represents

end DependencyGraph
end RowCheck
