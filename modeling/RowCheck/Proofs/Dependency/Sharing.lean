import RowCheck.Proofs.Dependency.Depth
import RowCheck.Proofs.Dependency.Mentions

/-!
Modules that share some declarations. If two modules bind the same values under some names, and these
mention no other names, then the values of these names depend on each other in one module as in the
other; so they stand equally deep, and in groups that correspond. Where else the values are declared,
and what the modules declare besides, makes no difference.
-/
namespace RowCheck

open Relation

namespace Module

/-- The declaration that binds a name among values: of those that do, the first. -/
def value? (m : Module) (name : String) : Option Decl :=
  m.find? (fun d => d.valueText? = some name)

theorem value?_eq_some_iff {m : Module} {name : String} {d : Decl} :
    m.value? name = some d ↔ ∃ i, m.FirstValue name i ∧ m[i]? = some d := by
  rw [value?, List.find?_eq_some_iff_getElem]
  simp only [decide_eq_true_eq, Bool.not_eq_true', decide_eq_false_iff_not]
  constructor
  · rintro ⟨hd, i, hi, rfl, hbefore⟩
    have hget : m[i]? = some m[i] := List.getElem?_eq_getElem hi
    refine ⟨i, ⟨by rw [hget]; exact hd, fun j hj => ?_⟩, hget⟩
    rw [List.getElem?_eq_getElem (Nat.lt_trans hj hi)]
    exact hbefore j hj
  · rintro ⟨i, ⟨hname, hbefore⟩, hget⟩
    rw [hget] at hname
    obtain ⟨hi, rfl⟩ := List.getElem?_eq_some_iff.1 hget
    refine ⟨hname, i, hi, rfl, fun j hj => ?_⟩
    have hne := hbefore j hj
    rwa [List.getElem?_eq_getElem (Nat.lt_trans hj hi)] at hne

theorem FirstValue.exists_decl {m : Module} {name : String} {i : Nat} (h : m.FirstValue name i) :
    ∃ d, m[i]? = some d ∧ m.value? name = some d := by
  obtain ⟨d, hd, -⟩ := Option.bind_eq_some_iff.1 h.1
  exact ⟨d, hd, value?_eq_some_iff.2 ⟨i, h, hd⟩⟩

theorem FirstValue.name_unique {m : Module} {name other : String} {i : Nat}
    (h : m.FirstValue name i) (h' : m.FirstValue other i) : name = other :=
  Option.some.inj (h.1.symm.trans h'.1)

/-- Whether two declarations, each by its index in a module of its own, are the values of one name,
which is among some names. -/
def Counterparts (m m' : Module) (names : String → Prop) (i i' : Nat) : Prop :=
  ∃ name, names name ∧ m.FirstValue name i ∧ m'.FirstValue name i'

/-- Whether two modules bind the same values under some names, which mention only such names. -/
structure Shares (m m' : Module) (active : ActiveRegistry) (names : String → Prop) : Prop where
  same : ∀ name, names name → m.value? name = m'.value? name
  closed : ∀ name d, names name → m.value? name = some d → ∀ other ∈ d.mentioned active, names other

variable {m m' : Module} {active : ActiveRegistry} {names : String → Prop} {i j i' j' : Nat}

namespace Counterparts

theorem symm (h : Counterparts m m' names i i') : Counterparts m' m names i' i :=
  let ⟨name, hname, hi, hi'⟩ := h
  ⟨name, hname, hi', hi⟩

theorem right_unique (h : Counterparts m m' names i i') (h' : Counterparts m m' names i j') :
    i' = j' := by
  obtain ⟨name, -, hi, hi'⟩ := h
  obtain ⟨other, -, hj, hj'⟩ := h'
  obtain rfl := hi.name_unique hj
  exact hi'.unique hj'

end Counterparts

namespace Shares

variable (h : m.Shares m' active names)

include h

theorem symm : m'.Shares m active names where
  same name hname := (h.same name hname).symm
  closed name d hname hd := h.closed name d hname ((h.same name hname).trans hd)

theorem exists_counterpart {name : String} (hname : names name) (hi : m.FirstValue name i) :
    ∃ i', m'.FirstValue name i' ∧ m'[i']? = m[i]? := by
  obtain ⟨d, hget, hd⟩ := hi.exists_decl
  rw [h.same name hname] at hd
  obtain ⟨i', hi', hget'⟩ := value?_eq_some_iff.1 hd
  exact ⟨i', hi', hget'.trans hget.symm⟩

theorem getElem?_eq (hc : Counterparts m m' names i i') : m[i]? = m'[i']? := by
  obtain ⟨name, hname, hi, hi'⟩ := hc
  obtain ⟨j', hj', hget⟩ := h.exists_counterpart hname hi
  rw [hi'.unique hj', hget]

theorem refers (hc : Counterparts m m' names i i') (href : m.Refers active i j) :
    ∃ j', Counterparts m m' names j j' ∧ m'.Refers active i' j' := by
  obtain ⟨d, other, hd, hother, hj⟩ := href
  have hd' : m'[i']? = some d := (h.getElem?_eq hc).symm.trans hd
  obtain ⟨name, hname, hi, -⟩ := hc
  have hshared : names other := h.closed name d hname (value?_eq_some_iff.2 ⟨i, hi, hd⟩) other
    (Decl.mentioned_of_references hother)
  obtain ⟨j', hj', -⟩ := h.exists_counterpart hshared hj
  exact ⟨j', ⟨other, hshared, hj, hj'⟩, d, other, hd', hother, hj'⟩

theorem depends (hc : Counterparts m m' names i i') (hdep : m.Depends active i j) :
    ∃ j', Counterparts m m' names j j' ∧ m'.Depends active i' j' := by
  induction hdep with
  | refl => exact ⟨i', hc, .refl⟩
  | tail _ hstep ih =>
    obtain ⟨k', hk, hdep'⟩ := ih
    obtain ⟨j', hj, href⟩ := h.refers hk hstep.2
    have hfirst : ∃ name, m'.FirstValue name k' := let ⟨name, _, _, hk'⟩ := hk; ⟨name, hk'⟩
    exact ⟨j', hj, hdep'.tail ⟨hfirst, href⟩⟩

theorem depends_iff (hi : Counterparts m m' names i i') (hj : Counterparts m m' names j j') :
    m.Depends active i j ↔ m'.Depends active i' j' := by
  constructor
  · intro hdep
    obtain ⟨k', hk, hdep'⟩ := h.depends hi hdep
    exact hj.right_unique hk ▸ hdep'
  · intro hdep
    obtain ⟨k, hk, hdep'⟩ := h.symm.depends hi.symm hdep
    exact hj.symm.right_unique hk ▸ hdep'

theorem deep_of_deep {n : Nat} (hc : Counterparts m m' names i i') (hdeep : m.Deep active n i) :
    m'.Deep active n i' := by
  induction n generalizing i i' with
  | zero => trivial
  | succ n ih =>
    obtain ⟨j, hdep, hback, hj⟩ := hdeep
    obtain ⟨j', hc', hdep'⟩ := h.depends hc hdep
    exact ⟨j', hdep', fun hback' => hback ((h.depends_iff hc' hc).2 hback'), ih hc' hj⟩

/-- Values that are shared stand equally deep. -/
theorem deep_iff (n : Nat) (hc : Counterparts m m' names i i') :
    m.Deep active n i ↔ m'.Deep active n i' :=
  ⟨h.deep_of_deep hc, h.symm.deep_of_deep hc.symm⟩

end Shares

/-! ## Groups -/

/-- Whether, besides, values that depend on each other are declared in the same order in both. -/
structure Aligned (m m' : Module) (active : ActiveRegistry) (names : String → Prop) : Prop extends
    m.Shares m' active names where
  ordered : ∀ {i i' j j'}, Counterparts m m' names i i' → Counterparts m m' names j j' →
    m.Depends active i j → m.Depends active j i → i < j → i' < j'

/-- Ascending lists are related entry by entry if each entry is related to one of the other list, in
the same order. -/
theorem forall₂_of_ascending {R : Nat → Nat → Prop} {xs ys : List Nat}
    (hxs : xs.Pairwise (· < ·)) (hys : ys.Pairwise (· < ·)) (hleft : ∀ x ∈ xs, ∃ y ∈ ys, R x y)
    (hright : ∀ y ∈ ys, ∃ x ∈ xs, R x y)
    (hordered : ∀ x ∈ xs, ∀ x' ∈ xs, ∀ y y', R x y → R x' y' → (x < x' ↔ y < y')) :
    List.Forall₂ R xs ys := by
  induction xs generalizing ys with
  | nil =>
    cases ys with
    | nil => exact .nil
    | cons y ys =>
      obtain ⟨x, hx, -⟩ := hright y List.mem_cons_self
      cases hx
  | cons x xs ih =>
    rw [List.pairwise_cons] at hxs
    cases ys with
    | nil =>
      obtain ⟨y, hy, -⟩ := hleft x List.mem_cons_self
      cases hy
    | cons y ys =>
      rw [List.pairwise_cons] at hys
      obtain ⟨y₀, hy₀, hxy₀⟩ := hleft x List.mem_cons_self
      obtain ⟨x₀, hx₀, hx₀y⟩ := hright y List.mem_cons_self
      -- If the first entries were not related, each would be related to a later one.
      have hxy : R x y := by
        rcases List.mem_cons.1 hy₀ with rfl | hy₀
        · exact hxy₀
        · have hlt : x₀ < x := (hordered x₀ hx₀ x List.mem_cons_self y y₀ hx₀y hxy₀).2 (hys.1 y₀ hy₀)
          rcases List.mem_cons.1 hx₀ with rfl | hx₀
          · exact hx₀y
          · exact absurd (hxs.1 x₀ hx₀) (Nat.lt_asymm hlt)
      refine .cons hxy (ih hxs.2 hys.2 (fun a ha => ?_) (fun b hb => ?_) ?_)
      · obtain ⟨b, hb, hab⟩ := hleft a (List.mem_cons_of_mem x ha)
        have hlt : y < b :=
          (hordered x List.mem_cons_self a (List.mem_cons_of_mem x ha) y b hxy hab).1 (hxs.1 a ha)
        exact ⟨b, (List.mem_cons.1 hb).resolve_left (Nat.ne_of_gt hlt), hab⟩
      · obtain ⟨a, ha, hab⟩ := hright b (List.mem_cons_of_mem y hb)
        have hlt : x < a := (hordered x List.mem_cons_self a ha y b hxy hab).2 (hys.1 b hb)
        exact ⟨a, (List.mem_cons.1 ha).resolve_left (Nat.ne_of_gt hlt), hab⟩
      · exact fun a ha a' ha' => hordered a (List.mem_cons_of_mem x ha) a' (List.mem_cons_of_mem x ha')

namespace Aligned

variable (h : m.Aligned m' active names)

include h

theorem lt_iff (hi : Counterparts m m' names i i') (hj : Counterparts m m' names j j')
    (hij : m.Depends active i j) (hji : m.Depends active j i) : i < j ↔ i' < j' := by
  refine ⟨h.ordered hi hj hij hji, fun hlt => ?_⟩
  rcases Nat.lt_trichotomy i j with hlt' | rfl | hlt'
  · exact hlt'
  · exact absurd (hi.right_unique hj) (Nat.ne_of_lt hlt)
  · exact absurd (h.ordered hj hi hji hij hlt') (Nat.lt_asymm hlt)

theorem symm : m'.Aligned m active names where
  toShares := h.toShares.symm
  ordered hi hj hij hji hlt := by
    have hij' := (h.depends_iff hi.symm hj.symm).2 hij
    have hji' := (h.depends_iff hj.symm hi.symm).2 hji
    exact (h.lt_iff hi.symm hj.symm hij' hji').2 hlt

/-- The group of a shared value has a counterpart of the same level in the other module, entry by
entry. -/
theorem exists_group {g g' : DependencyGraph} (hg : g.Represents m active)
    (hg' : g'.Represents m' active) {k : Nat} (hk : k < g.levels.length) {group : List Nat}
    (hgroup : group ∈ g.levels[k]) (hi : i ∈ group) (hc : Counterparts m m' names i i') :
    ∃ (_ : k < g'.levels.length), ∃ group' ∈ g'.levels[k],
      List.Forall₂ (Counterparts m m' names) group group' := by
  have hs := hg.scheduled
  have hs' := hg'.scheduled
  obtain ⟨name, -, -, hfirst⟩ := id hc
  obtain ⟨group', hgroup', hi'⟩ := List.mem_flatten.1 ((hs'.covers i').2 ⟨name, hfirst⟩)
  obtain ⟨level, hlevel, hmem⟩ := List.mem_flatten.1 hgroup'
  obtain ⟨l, hl, rfl⟩ := List.mem_iff_getElem.1 hlevel
  have hle : ∀ n, n ≤ k ↔ n ≤ l := fun n =>
    (hg.le_level_iff hk hgroup hi n).trans ((h.deep_iff n hc).trans
      (hg'.le_level_iff hl hmem hi' n).symm)
  obtain rfl : k = l := Nat.le_antisymm ((hle k).1 (Nat.le_refl k)) ((hle l).2 (Nat.le_refl l))
  have hin : group ∈ g.levels.flatten := List.mem_flatten_of_mem (List.getElem_mem hk) hgroup
  refine ⟨hl, group', hmem, forall₂_of_ascending (hs.ascending group hin) (hs'.ascending group' hgroup')
    (fun j hj => ?_) (fun j' hj' => ?_) (fun x hx y hy x' y' hcx hcy => ?_)⟩
  · obtain ⟨hij, hji⟩ := (hs.strong group hin i hi j).1 hj
    obtain ⟨j', hcj, hij'⟩ := h.depends hc hij
    have hji' := (h.depends_iff hcj hc).1 hji
    exact ⟨j', (hs'.strong group' hgroup' i' hi' j').2 ⟨hij', hji'⟩, hcj⟩
  · obtain ⟨hij, hji⟩ := (hs'.strong group' hgroup' i' hi' j').1 hj'
    obtain ⟨j, hcj, hij'⟩ := h.toShares.symm.depends hc.symm hij
    have hji' := (h.toShares.symm.depends_iff hcj hc.symm).1 hji
    exact ⟨j, (hs.strong group hin i hi j).2 ⟨hij', hji'⟩, hcj.symm⟩
  · obtain ⟨hxy, hyx⟩ := (hs.strong group hin x hx y).1 hy
    exact h.lt_iff hcx hcy hxy hyx

end Aligned

end Module
end RowCheck
