import Mathlib.Data.List.Induction
import RowCheck.Proofs.Dependency.Graph

/-!
The levels of a graph. The depth of a component is told from those before it in the list, which is
enough because a component comes after all those it leads to; so an edge that leaves a component
leads to a lesser depth, and a level, which holds the components of one depth, has no edges between
its groups.
-/
namespace RowCheck

/-- What a schedule of a module is to be: the first values in groups that depend on each other, where
a group depends only on itself and on groups of levels before its own. -/
structure Module.Scheduled (m : Module) (active : ActiveRegistry) (levels : List (List (List Nat))) :
    Prop where
  once : levels.flatten.flatten.Nodup
  covers : ∀ i, i ∈ levels.flatten.flatten ↔ ∃ name, m.FirstValue name i
  nonempty : ∀ group ∈ levels.flatten, group ≠ []
  ascending : ∀ group ∈ levels.flatten, group.Pairwise fun i j => i < j
  strong : ∀ group ∈ levels.flatten, ∀ i ∈ group, ∀ j,
    j ∈ group ↔ m.Depends active i j ∧ m.Depends active j i
  earlier : ∀ k (hk : k < levels.length), ∀ l (hl : l < levels.length), ∀ group ∈ levels[k],
    ∀ other ∈ levels[l], group ≠ other → ∀ i ∈ group, ∀ j ∈ other, m.Depends active i j → l < k
  apart : ∀ level ∈ levels, level.Pairwise fun group other =>
    ∀ i ∈ group, ∀ j ∈ other, ¬ m.Depends active i j ∧ ¬ m.Depends active j i

namespace DependencyGraph

variable {g : DependencyGraph}

/-- The declarations of a component in ascending order. -/
def group (g : DependencyGraph) (c : List Nat) : List Nat := (c.map g.decl).mergeSort (· ≤ ·)

/-- One more than the greatest depth of the components, other than its own, that a component leads to. -/
def depthAfter (g : DependencyGraph) (components : List (List Nat)) (depths : List Nat)
    (c : List Nat × Nat) : Nat :=
  ((((c.1.flatMap g.next).map (componentOf components)).filter (fun k => k != c.2)).map
    (fun k => (depths[k]?).getD 0 + 1)).foldl max 0

theorem le_foldl_max_iff {xs : List Nat} {x y : Nat} :
    x ≤ xs.foldl max y ↔ x ≤ y ∨ ∃ z ∈ xs, x ≤ z := by
  induction xs generalizing y with
  | nil => simp
  | cons z xs ih => rw [List.foldl_cons, ih, Std.le_max, or_assoc, List.exists_mem_cons_iff]

/-- A fold that appends to its answer one entry for each element: the entry is told from those
before it. -/
theorem foldl_concat_getElem? {α β : Type} (f : List β → α → β) (xs : List α) :
    (xs.foldl (fun ys x => ys ++ [f ys x]) []).length = xs.length ∧
      ∀ i x, xs[i]? = some x → (xs.foldl (fun ys x => ys ++ [f ys x]) [])[i]? =
        some (f ((xs.foldl (fun ys x => ys ++ [f ys x]) []).take i) x) := by
  induction xs using List.reverseRecOn with
  | nil => simp
  | append_singleton xs a ih =>
    obtain ⟨hlength, ih⟩ := ih
    rw [List.foldl_concat]
    generalize xs.foldl (fun ys x => ys ++ [f ys x]) [] = ys at hlength ih
    refine ⟨by simp [hlength], fun i x hx => ?_⟩
    by_cases hi : i < xs.length
    · rw [List.getElem?_append_left hi] at hx
      rw [List.getElem?_append_left (hlength ▸ hi), List.take_append_of_le_length (by omega)]
      exact ih i x hx
    · have hi' : i = xs.length := by
        have := (List.getElem?_eq_some_iff.1 hx).1
        simp only [List.length_append, List.length_singleton] at this
        omega
      subst hi'
      simp only [List.getElem?_concat_length, Option.some.injEq] at hx
      simp [← hlength, hx]

theorem depths_eq (components : List (List Nat)) : g.depths components =
    components.zipIdx.foldl (fun depths c => depths ++ [g.depthAfter components depths c]) [] := rfl

theorem length_depths (components : List (List Nat)) :
    (g.depths components).length = components.length := by
  rw [depths_eq, (foldl_concat_getElem? _ _).1, List.length_zipIdx]

theorem depths_getElem? {components : List (List Nat)} {k : Nat} {c : List Nat}
    (h : components[k]? = some c) : (g.depths components)[k]? =
      some (g.depthAfter components ((g.depths components).take k) (c, k)) := by
  refine (foldl_concat_getElem? (g.depthAfter components) components.zipIdx).2 k (c, k) ?_
  simp [List.getElem?_zipIdx, h]

section Components

variable {components : List (List Nat)} (hnodup : components.flatten.Nodup)

include hnodup

theorem index_unique {j k : Nat} {c d : List Nat} {b : Nat} (hj : components[j]? = some c)
    (hk : components[k]? = some d) (hc : b ∈ c) (hd : b ∈ d) : j = k := by
  obtain ⟨hj', rfl⟩ := List.getElem?_eq_some_iff.1 hj
  obtain ⟨hk', rfl⟩ := List.getElem?_eq_some_iff.1 hk
  have hdisjoint := List.pairwise_iff_getElem.1 (List.nodup_flatten.1 hnodup).2
  rcases Nat.lt_trichotomy j k with h | h | h
  · exact absurd hd (hdisjoint j k hj' hk' h hc)
  · exact h
  · exact absurd hc (hdisjoint k j hk' hj' h hd)

theorem componentOf_eq {j : Nat} {c : List Nat} {b : Nat} (hj : components[j]? = some c)
    (hb : b ∈ c) : componentOf components b = j := by
  obtain ⟨hj', hc⟩ := List.getElem?_eq_some_iff.1 hj
  rw [componentOf, List.findIdx_eq hj']
  refine ⟨by simpa [hc] using hb, fun k hk => ?_⟩
  have hk' : components[k]? = some components[k] := List.getElem?_eq_getElem _
  rw [decide_eq_false_iff_not]
  intro hmem
  have := index_unique hnodup hk' hj hmem hb
  omega

end Components

/-- The depth of the component at an index. -/
def depth (g : DependencyGraph) (k : Nat) : Nat := ((g.depths g.components)[k]?).getD 0

theorem depths_eq_depth {k : Nat} {c : List Nat} (h : g.components[k]? = some c) :
    (g.depths g.components)[k]? = some (g.depth k) := by
  rw [depth, depths_getElem? h]
  rfl

theorem nodup_components (hg : g.Closed) : g.components.flatten.Nodup :=
  (components_condensed hg).2.nodup_iff.2 List.nodup_range

/-- An edge that leaves a component leads to one of lesser depth. -/
theorem depth_lt_of_leads (hg : g.Closed) {j k : Nat} {c d : List Nat} {a b : Nat}
    (hk : g.components[k]? = some c) (hj : g.components[j]? = some d) (ha : a ∈ c) (hb : b ∈ d)
    (hne : j ≠ k) (hab : g.Leads a b) : g.depth j < g.depth k := by
  have hlt : j < k := by
    rcases Nat.lt_or_gt_of_ne hne with h | h
    · exact h
    · obtain ⟨hk', rfl⟩ := List.getElem?_eq_some_iff.1 hk
      obtain ⟨hj', rfl⟩ := List.getElem?_eq_some_iff.1 hj
      have hordered := List.pairwise_iff_getElem.1 (components_condensed hg).1.ordered
      exact absurd (.single hab) (hordered k j hk' hj' h a ha b hb)
  have hbelow : ((g.depths g.components).take k)[j]? = some (g.depth j) := by
    rw [List.getElem?_take_of_lt hlt, depths_eq_depth hj]
  have hdepth : g.depth k = g.depthAfter g.components ((g.depths g.components).take k) (c, k) := by
    rw [depth, depths_getElem? hk]
    rfl
  have hmem : j ∈ ((c.flatMap g.next).map (componentOf g.components)).filter (fun i => i != k) := by
    rw [List.mem_filter, List.mem_map]
    have hcomponent := componentOf_eq (nodup_components hg) hj hb
    exact ⟨⟨b, List.mem_flatMap.2 ⟨a, ha, hab⟩, hcomponent⟩, by simpa using hne⟩
  rw [hdepth]
  refine le_foldl_max_iff.2 (.inr ⟨g.depth j + 1, ?_, Nat.le_refl _⟩)
  exact List.mem_map.2 ⟨j, hmem, by rw [hbelow]; rfl⟩

/-- What a component reaches beyond itself has a lesser depth. -/
theorem depth_lt_of_reaches (hg : g.Closed) {j k : Nat} {c d : List Nat} {a b : Nat}
    (hk : g.components[k]? = some c) (hj : g.components[j]? = some d) (ha : a ∈ c) (hb : b ∈ d)
    (hne : j ≠ k) (hab : g.Reaches a b) : g.depth j < g.depth k := by
  induction hab generalizing j d with
  | refl => exact absurd (index_unique (nodup_components hg) hj hk hb ha) hne
  | @tail x b hax hxb ih =>
    have hx : x ∈ g.components.flatten := by
      rcases hax.cases_tail with rfl | ⟨y, -, hyx⟩
      · exact List.mem_flatten_of_mem (List.mem_of_getElem? hk) ha
      · exact (components_condensed hg).2.mem_iff.2 (List.mem_range.2 (hg y x hyx))
    obtain ⟨e, he, hxe⟩ := List.mem_flatten.1 hx
    obtain ⟨i, hi⟩ := List.mem_iff_getElem?.1 he
    by_cases hij : j = i
    · subst hij
      exact ih hi hxe hne
    · have hji := depth_lt_of_leads hg hi hj hxe hb hij hxb
      by_cases hik : i = k
      · exact hik ▸ hji
      · exact Nat.lt_trans hji (ih hi hxe hik)

/-- The levels hold the groups of all components. -/
theorem perm_flatten_filter {α : Type} (groups : List (α × Nat)) (height : Nat) :
    ((List.range height).map fun level =>
      (groups.filter (fun p => decide (p.2 = level))).map (·.1)).flatten.Perm
      ((groups.filter (fun p => decide (p.2 < height))).map (·.1)) := by
  induction height with
  | zero => simp
  | succ height ih =>
    rw [List.range_succ, List.map_append, List.flatten_append, List.map_singleton,
      List.flatten_singleton]
    refine (ih.append_right _).trans ?_
    rw [← List.map_append]
    refine .map _ ?_
    have hsplit := List.filter_append_perm (fun p : α × Nat => decide (p.2 < height))
      (groups.filter (fun p => decide (p.2 < height + 1)))
    rw [List.filter_filter, List.filter_filter] at hsplit
    refine .trans (.of_eq ?_) hsplit
    congr 1
    · refine List.filter_congr fun p _ => ?_
      rw [← Bool.decide_and, decide_eq_decide]
      omega
    · refine List.filter_congr fun p _ => ?_
      rw [← decide_not, ← Bool.decide_and, decide_eq_decide]
      omega

/-- The groups of all components with their depths. -/
def groups (g : DependencyGraph) : List (List Nat × Nat) :=
  (g.components.map g.group).zip (g.depths g.components)

/-- One more than the greatest depth. -/
def height (g : DependencyGraph) : Nat := ((g.depths g.components).map (· + 1)).foldl max 0

theorem levels_eq : g.levels = (List.range g.height).map fun level =>
    ((g.groups.filter (fun p => decide (p.2 = level))).map (·.1)).mergeSort
      (fun a b => !b.lex a (fun i j => decide (i < j))) := rfl

theorem mem_groups {A : List Nat} {k : Nat} : (A, k) ∈ g.groups ↔
    ∃ (j : Nat) (c : List Nat), g.components[j]? = some c ∧ g.depth j = k ∧ A = g.group c := by
  rw [groups, List.mem_iff_getElem?]
  simp only [List.getElem?_zip_eq_some, List.getElem?_map, Option.map_eq_some_iff]
  constructor
  · rintro ⟨j, ⟨c, hc, rfl⟩, hk⟩
    rw [depths_eq_depth hc] at hk
    exact ⟨j, c, hc, Option.some.inj hk, rfl⟩
  · rintro ⟨j, c, hc, rfl, rfl⟩
    exact ⟨j, ⟨c, hc, rfl⟩, depths_eq_depth hc⟩

/-- A level has the groups of the components of its depth. -/
theorem mem_level {k : Nat} (hk : k < g.levels.length) {A : List Nat} : A ∈ g.levels[k] ↔
    ∃ (j : Nat) (c : List Nat), g.components[j]? = some c ∧ g.depth j = k ∧ A = g.group c := by
  rw [← mem_groups]
  simp [levels_eq]

theorem lt_height {p : List Nat × Nat} (hp : p ∈ g.groups) : p.2 < g.height := by
  have hmem : p.2 ∈ g.depths g.components := (List.of_mem_zip hp).2
  exact le_foldl_max_iff.2 (.inr ⟨p.2 + 1, List.mem_map.2 ⟨p.2, hmem, rfl⟩, Nat.le_refl _⟩)

/-- The levels have one group for each component. -/
theorem levels_flatten_perm : g.levels.flatten.Perm (g.components.map g.group) := by
  have hsort : g.levels.flatten.Perm ((List.range g.height).map fun level =>
      (g.groups.filter (fun p => decide (p.2 = level))).map (·.1)).flatten := by
    rw [levels_eq]
    apply List.Perm.flatten_congr
    rw [List.forall₂_map_left_iff, List.forall₂_map_right_iff, List.forall₂_same]
    exact fun level _ => List.mergeSort_perm _ _
  have hall : g.groups.filter (fun p => decide (p.2 < g.height)) = g.groups :=
    List.filter_eq_self.2 fun p hp => decide_eq_true (lt_height hp)
  have hfst : g.groups.map (·.1) = g.components.map g.group := by
    apply List.map_fst_zip
    exact Nat.le_of_eq (by rw [List.length_map, length_depths])
  have h := hsort.trans (perm_flatten_filter g.groups g.height)
  rwa [hall, hfst] at h

theorem mem_group {c : List Nat} {i : Nat} : i ∈ g.group c ↔ ∃ a ∈ c, g.decl a = i := by
  rw [group, List.mem_mergeSort, List.mem_map]

/-- The levels have every node once. -/
theorem levels_perm_nodes (h : g.components.flatten.Perm (List.range g.size)) :
    g.levels.flatten.flatten.Perm g.nodes := by
  have hgroup : (g.components.map g.group).flatten.Perm
      (g.components.map (List.map g.decl)).flatten := by
    apply List.Perm.flatten_congr
    rw [List.forall₂_map_left_iff, List.forall₂_map_right_iff, List.forall₂_same]
    exact fun c _ => List.mergeSort_perm _ _
  have hnodes : (List.range g.size).map g.decl = g.nodes := by
    apply List.ext_getElem?
    intro a
    rw [List.getElem?_map]
    by_cases ha : a < g.size
    · rw [List.getElem?_range ha, nodes_getElem? ha]
      rfl
    · have hnone : g.nodes[a]? = none := List.getElem?_eq_none (Nat.not_lt.1 ha)
      rw [hnone, List.getElem?_eq_none (by simpa using ha)]
      rfl
  rw [← List.map_flatten] at hgroup
  exact hnodes ▸ (levels_flatten_perm.flatten.trans hgroup).trans (h.map g.decl)

/-- A group that depends on another one is of a later level. -/
theorem level_lt_of_reaches (hg : g.Closed) {k l : Nat} (hk : k < g.levels.length)
    (hl : l < g.levels.length) {A B : List Nat} (hA : A ∈ g.levels[k]) (hB : B ∈ g.levels[l])
    (hne : A ≠ B) : ∃ c ∈ g.components, ∃ d ∈ g.components, A = g.group c ∧ B = g.group d ∧
      ∀ a ∈ c, ∀ b ∈ d, g.Reaches a b → l < k := by
  obtain ⟨p, c, hc, rfl, rfl⟩ := (mem_level hk).1 hA
  obtain ⟨q, d, hd, rfl, rfl⟩ := (mem_level hl).1 hB
  refine ⟨c, List.mem_of_getElem? hc, d, List.mem_of_getElem? hd, rfl, rfl, ?_⟩
  intro a ha b hb hab
  refine depth_lt_of_reaches hg hc hd ha hb ?_ hab
  rintro rfl
  exact hne (congrArg g.group (Option.some.inj (hc.symm.trans hd)))

theorem group_ne_nil {c : List Nat} (h : c ≠ []) : g.group c ≠ [] := by
  intro he
  have hlength := (List.mergeSort_perm (c.map g.decl) (· ≤ ·)).length_eq
  rw [← group, he, List.length_map] at hlength
  exact h (List.eq_nil_of_length_eq_zero hlength.symm)

theorem group_ascending {c : List Nat} (h : (g.group c).Nodup) :
    (g.group c).Pairwise fun i j => i < j := by
  have hsorted : (g.group c).Pairwise fun i j => decide (i ≤ j) = true :=
    List.pairwise_mergeSort (by simpa using fun a b c => Nat.le_trans)
      (by simpa using Nat.le_total) (c.map g.decl)
  refine hsorted.imp₂ (fun i j hle hne => ?_) h
  exact Nat.lt_of_le_of_ne (of_decide_eq_true hle) hne

/-- The declarations of a strongly connected component are those that depend on each other. -/
theorem Represents.mem_group_iff {m : Module} {active : ActiveRegistry} (h : g.Represents m active)
    {c : List Nat} (hlt : ∀ a ∈ c, a < g.size)
    (hstrong : ∀ a ∈ c, ∀ b, b ∈ c ↔ g.Reaches a b ∧ g.Reaches b a) {i : Nat} (hi : i ∈ g.group c)
    (j : Nat) : j ∈ g.group c ↔ m.Depends active i j ∧ m.Depends active j i := by
  obtain ⟨a, ha, rfl⟩ := mem_group.1 hi
  rw [mem_group]
  constructor
  · rintro ⟨b, hb, rfl⟩
    obtain ⟨hab, hba⟩ := (hstrong a ha b).1 hb
    exact ⟨h.depends_of_reaches hab, h.depends_of_reaches hba⟩
  · rintro ⟨hij, hji⟩
    obtain ⟨b, hb, rfl, hab⟩ := h.exists_reaches (hlt a ha) hij
    have hba := (h.reaches_iff_depends hb (hlt a ha)).2 hji
    exact ⟨b, (hstrong a ha b).2 ⟨hab, hba⟩, rfl⟩

theorem lt_size_of_mem (hg : g.Closed) {c : List Nat} (hc : c ∈ g.components) :
    ∀ a ∈ c, a < g.size := fun _ ha =>
  List.mem_range.1 ((components_condensed hg).2.mem_iff.1 (List.mem_flatten_of_mem hc ha))

/-- The schedule of a graph is one of the module that the graph represents. -/
theorem Represents.scheduled {m : Module} {active : ActiveRegistry} (h : g.Represents m active) :
    m.Scheduled active g.levels := by
  obtain ⟨hcond, hperm⟩ := components_condensed h.closed
  have hnodes : g.levels.flatten.flatten.Perm g.nodes := levels_perm_nodes hperm
  have hgroup : ∀ A ∈ g.levels.flatten, ∃ c ∈ g.components, A = g.group c := by
    intro A hA
    obtain ⟨c, hc, rfl⟩ := List.mem_map.1 (levels_flatten_perm.mem_iff.1 hA)
    exact ⟨c, hc, rfl⟩
  have hlt : ∀ c ∈ g.components, ∀ a ∈ c, a < g.size := fun _ => lt_size_of_mem h.closed
  have honce : g.levels.flatten.flatten.Nodup :=
    hnodes.nodup_iff.2 (h.ascending.imp Nat.ne_of_lt)
  have hearlier : ∀ k (hk : k < g.levels.length), ∀ l (hl : l < g.levels.length),
      ∀ A ∈ g.levels[k], ∀ B ∈ g.levels[l], A ≠ B →
        ∀ i ∈ A, ∀ j ∈ B, m.Depends active i j → l < k := by
    intro k hk l hl A hA B hB hne i hi j hj hij
    obtain ⟨c, hc, d, hd, rfl, rfl, hlevel⟩ := level_lt_of_reaches h.closed hk hl hA hB hne
    obtain ⟨a, ha, rfl⟩ := mem_group.1 hi
    obtain ⟨b, hb, rfl⟩ := mem_group.1 hj
    exact hlevel a ha b hb ((h.reaches_iff_depends (hlt c hc a ha) (hlt d hd b hb)).2 hij)
  constructor
  case once => exact honce
  case covers => exact fun i => hnodes.mem_iff.trans (h.covers i)
  case nonempty =>
    intro A hA
    obtain ⟨c, hc, rfl⟩ := hgroup A hA
    exact group_ne_nil (hcond.nonempty c hc)
  case ascending =>
    intro A hA
    obtain ⟨c, hc, rfl⟩ := hgroup A hA
    exact group_ascending ((List.nodup_flatten.1 honce).1 _ hA)
  case strong =>
    intro A hA i hi j
    obtain ⟨c, hc, rfl⟩ := hgroup A hA
    exact h.mem_group_iff (hlt c hc) (hcond.strong c hc) hi j
  case earlier => exact hearlier
  case apart =>
    intro level hlevel
    obtain ⟨k, hk, rfl⟩ := List.mem_iff_getElem.1 hlevel
    have hdisjoint : g.levels[k].Pairwise List.Disjoint :=
      (List.nodup_flatten.1 honce).2.sublist (List.sublist_flatten_of_mem hlevel)
    refine hdisjoint.imp_of_mem fun {A B} hA hB hAB i hi j hj => ?_
    have hne : A ≠ B := by
      rintro rfl
      exact hAB hi hi
    constructor
    · intro hij
      exact absurd (hearlier k hk k hk A hA B hB hne i hi j hj hij) (Nat.lt_irrefl k)
    · intro hji
      exact absurd (hearlier k hk k hk B hB A hA hne.symm j hj i hi hji) (Nat.lt_irrefl k)

/-- The graph of a module represents its references; the components of the graph are its strongly
connected components, in an order in which they can be checked; and the levels, with one group for
each component, are a schedule of the module. -/
theorem ofModule_scheduled (m : Module) (active : ActiveRegistry) :
    (ofModule m active).Represents m active ∧
    (ofModule m active).Condensed (ofModule m active).components ∧
    (ofModule m active).components.flatten.Perm (List.range (ofModule m active).size) ∧
    (ofModule m active).levels.flatten.Perm
      ((ofModule m active).components.map (ofModule m active).group) ∧
    m.Scheduled active (ofModule m active).levels := by
  have hrep := ofModule_represents m active
  obtain ⟨hcond, hperm⟩ := components_condensed hrep.closed
  exact ⟨hrep, hcond, hperm, levels_flatten_perm, hrep.scheduled⟩

end DependencyGraph
end RowCheck
