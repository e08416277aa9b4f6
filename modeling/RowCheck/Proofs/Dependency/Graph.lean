import Mathlib.Data.List.Nodup
import RowCheck.Proofs.Dependency.Components

/-!
What the graph of a module stands for. Its nodes are, in order, the declarations that are the first
to bind a value under their name, and its edges are the references between these.
-/
namespace RowCheck

open Relation

/-- The name a declaration binds among values, without its place. -/
def Decl.valueText? (d : Decl) : Option String := d.valueName?.map (·.text)

namespace Module

section

variable {f : Decl → Option String} {m : Module} {d : Decl} {name : String} {i : Nat}

/-- Whether the declaration at an index is the first that has a name, in some sense of names. -/
def FirstOf (m : Module) (f : Decl → Option String) (name : String) (i : Nat) : Prop :=
  (m[i]?.bind f) = some name ∧ ∀ j < i, (m[j]?.bind f) ≠ some name

theorem FirstOf.unique {j : Nat} (hi : m.FirstOf f name i) (hj : m.FirstOf f name j) : i = j := by
  rcases Nat.lt_trichotomy i j with h | h | h
  · exact absurd hi.1 (hj.2 i h)
  · exact h
  · exact absurd hj.1 (hi.2 j h)

theorem firstOf_zero : FirstOf (d :: m) f name 0 ↔ f d = some name :=
  ⟨fun h => h.1, fun h => ⟨h, fun j hj => absurd hj (Nat.not_lt_zero j)⟩⟩

theorem firstOf_succ : FirstOf (d :: m) f name (i + 1) ↔ f d ≠ some name ∧ m.FirstOf f name i := by
  constructor
  · intro h
    exact ⟨h.2 0 (Nat.succ_pos i), h.1, fun j hj => h.2 (j + 1) (Nat.succ_lt_succ hj)⟩
  · intro ⟨hd, h⟩
    refine ⟨h.1, fun j hj => ?_⟩
    cases j with
    | zero => exact hd
    | succ j => exact h.2 j (Nat.lt_of_succ_lt_succ hj)

/-- What comes first under its name is the first declaration, or comes first under its name among
the others and has another name than the first. -/
theorem exists_firstOf_cons {P : String → Nat → Prop} :
    (∃ name i, FirstOf (d :: m) f name i ∧ P name i) ↔ (∃ name, f d = some name ∧ P name 0) ∨
      ∃ name i, m.FirstOf f name i ∧ f d ≠ some name ∧ P name (i + 1) := by
  constructor
  · rintro ⟨name, i, hfirst, hp⟩
    cases i with
    | zero => exact .inl ⟨name, firstOf_zero.1 hfirst, hp⟩
    | succ i =>
      obtain ⟨hd, hfirst⟩ := firstOf_succ.1 hfirst
      exact .inr ⟨name, i, hfirst, hd, hp⟩
  · rintro (⟨name, hd, hp⟩ | ⟨name, i, hfirst, hd, hp⟩)
    · exact ⟨name, 0, firstOf_zero.2 hd, hp⟩
    · exact ⟨name, i + 1, firstOf_succ.2 ⟨hd, hfirst⟩, hp⟩

end

/-- Whether the declaration at an index is the first that binds a value under a name. -/
def FirstValue (m : Module) (name : String) (i : Nat) : Prop :=
  (m[i]?.bind Decl.valueText?) = some name ∧
    ∀ j < i, (m[j]?.bind Decl.valueText?) ≠ some name

/-- Whether one declaration refers to the value that another one binds. -/
def Refers (m : Module) (active : ActiveRegistry) (i j : Nat) : Prop :=
  ∃ d name, m[i]? = some d ∧ name ∈ d.references active ∧ m.FirstValue name j

/-- Whether one first value refers to another, directly or by way of others. -/
def Depends (m : Module) (active : ActiveRegistry) : Nat → Nat → Prop :=
  ReflTransGen fun i j => (∃ name, m.FirstValue name i) ∧ m.Refers active i j

theorem FirstValue.unique {m : Module} {name : String} {i j : Nat} (hi : m.FirstValue name i)
    (hj : m.FirstValue name j) : i = j :=
  FirstOf.unique hi hj

theorem firstValue_zero {d : Decl} {m : Module} {name : String} :
    FirstValue (d :: m) name 0 ↔ d.valueText? = some name :=
  firstOf_zero

theorem firstValue_succ {d : Decl} {m : Module} {name : String} {i : Nat} :
    FirstValue (d :: m) name (i + 1) ↔ d.valueText? ≠ some name ∧ FirstValue m name i :=
  firstOf_succ

/-- A first value is the first declaration, or a first value of the others under another name. -/
theorem exists_firstValue_cons {d e : Decl} {m : Module} {name : String} {k index : Nat} :
    (∃ i, index = k + i ∧ (d :: m)[i]? = some e ∧ FirstValue (d :: m) name i) ↔
      (index = k ∧ d = e ∧ d.valueText? = some name) ∨
        (d.valueText? ≠ some name ∧ ∃ i, index = k + 1 + i ∧ m[i]? = some e ∧ FirstValue m name i) := by
  constructor
  · rintro ⟨i, hi, he, hfirst⟩
    cases i with
    | zero => exact .inl ⟨hi, by simpa using he, firstValue_zero.1 hfirst⟩
    | succ i =>
      obtain ⟨hd, hfirst⟩ := firstValue_succ.1 hfirst
      exact .inr ⟨hd, i, by omega, he, hfirst⟩
  · rintro (⟨hi, rfl, hd⟩ | ⟨hd, i, hi, he, hfirst⟩)
    · exact ⟨0, hi, rfl, firstValue_zero.2 hd⟩
    · exact ⟨i + 1, by omega, he, firstValue_succ.2 ⟨hd, hfirst⟩⟩

end Module

namespace DependencyGraph

/-- Whether a graph is that of the references between the first values of a module. -/
structure Represents (g : DependencyGraph) (m : Module) (active : ActiveRegistry) : Prop where
  ascending : g.nodes.Pairwise fun i j => i < j
  covers : ∀ i, i ∈ g.nodes ↔ ∃ name, m.FirstValue name i
  leads : ∀ a b, g.Leads a b ↔ a < g.size ∧ b < g.size ∧ m.Refers active (g.decl a) (g.decl b)

theorem nodes_getElem? {g : DependencyGraph} {a : Nat} (ha : a < g.size) :
    g.nodes[a]? = some (g.decl a) := by
  rw [decl, List.getElem?_eq_getElem (show a < g.nodes.length from ha)]
  rfl

namespace Represents

variable {g : DependencyGraph} {m : Module} {active : ActiveRegistry} (h : g.Represents m active)

include h

theorem closed : g.Closed := fun a b hab => ((h.leads a b).1 hab).2.1

theorem exists_decl {name : String} {i : Nat} (hi : m.FirstValue name i) :
    ∃ a < g.size, g.decl a = i := by
  obtain ⟨a, ha, rfl⟩ := List.mem_iff_getElem.1 ((h.covers i).2 ⟨name, hi⟩)
  refine ⟨a, ha, ?_⟩
  rw [decl, List.getElem?_eq_getElem ha]
  rfl

theorem decl_inj {a b : Nat} (ha : a < g.size) (hb : b < g.size) (he : g.decl a = g.decl b) :
    a = b := by
  have hnodup : g.nodes.Nodup := h.ascending.imp Nat.ne_of_lt
  apply (List.getElem?_inj ha hnodup).1
  rw [nodes_getElem? ha, nodes_getElem? hb, he]

theorem firstValue_decl {a : Nat} (ha : a < g.size) : ∃ name, m.FirstValue name (g.decl a) :=
  (h.covers _).1 (List.mem_of_getElem? (nodes_getElem? ha))

/-- What the declaration of a node depends on has a node, which is reached. -/
theorem exists_reaches {a j : Nat} (ha : a < g.size) (hdep : m.Depends active (g.decl a) j) :
    ∃ b < g.size, g.decl b = j ∧ g.Reaches a b := by
  induction hdep with
  | refl => exact ⟨a, ha, rfl, .refl⟩
  | tail _ hstep ih =>
    obtain ⟨b, hb, rfl, hab⟩ := ih
    obtain ⟨-, d, name, hd, href, hfirst⟩ := hstep
    obtain ⟨c, hc, rfl⟩ := h.exists_decl hfirst
    have hbc : g.Leads b c := (h.leads b c).2 ⟨hb, hc, d, name, hd, href, hfirst⟩
    exact ⟨c, hc, rfl, hab.tail hbc⟩

theorem depends_of_reaches {a b : Nat} (hab : g.Reaches a b) :
    m.Depends active (g.decl a) (g.decl b) := by
  induction hab with
  | refl => exact .refl
  | tail _ hstep ih =>
    obtain ⟨hx, -, href⟩ := (h.leads _ _).1 hstep
    exact ih.tail ⟨h.firstValue_decl hx, href⟩

/-- What a node reaches is what its declaration depends on. -/
theorem reaches_iff_depends {a b : Nat} (ha : a < g.size) (hb : b < g.size) :
    g.Reaches a b ↔ m.Depends active (g.decl a) (g.decl b) := by
  constructor
  · exact h.depends_of_reaches
  · intro hdep
    obtain ⟨c, hc, hdecl, hac⟩ := h.exists_reaches ha hdep
    exact h.decl_inj hc hb hdecl ▸ hac

end Represents

/-- The entries of `firstValues` are the first declarations of names that were not seen before. -/
theorem mem_firstValues {m : Module} {seen : List String} {k : Nat} {name : String} {index : Nat}
    {e : Decl} : (name, index, e) ∈ firstValues seen (m.zipIdx k) ↔
      name ∉ seen ∧ ∃ i, index = k + i ∧ m[i]? = some e ∧ m.FirstValue name i := by
  induction m generalizing seen k with
  | nil => simp [firstValues]
  | cons d m ih =>
    rw [List.zipIdx_cons, Module.exists_firstValue_cons, firstValues]
    cases hd : d.valueName? with
    | none =>
      have hnone : d.valueText? = none := by simp [Decl.valueText?, hd]
      simp only [ih, hnone]
      simp
    | some n =>
      have hsome : d.valueText? = some n.text := by simp [Decl.valueText?, hd]
      simp only [hsome, Option.some.injEq, ne_eq]
      by_cases hseen : n.text ∈ seen
      · rw [if_pos hseen, ih]
        constructor
        · intro ⟨hs, h⟩
          exact ⟨hs, .inr ⟨fun he => hs (he ▸ hseen), h⟩⟩
        · rintro ⟨hs, ⟨-, -, he⟩ | ⟨-, h⟩⟩
          · exact absurd (he ▸ hseen) hs
          · exact ⟨hs, h⟩
      · rw [if_neg hseen, List.mem_cons, ih, List.mem_cons, not_or]
        constructor
        · rintro (h | ⟨⟨hne, hs⟩, h⟩)
          · cases h
            exact ⟨hseen, .inl ⟨rfl, rfl, rfl⟩⟩
          · exact ⟨hs, .inr ⟨fun he => hne he.symm, h⟩⟩
        · rintro ⟨hs, ⟨hi, rfl, rfl⟩ | ⟨hne, h⟩⟩
          · exact .inl (hi ▸ rfl)
          · exact .inr ⟨⟨fun he => hne he.symm, hs⟩, h⟩

/-- They come in the order of the module. -/
theorem pairwise_firstValues {m : Module} {seen : List String} {k : Nat} :
    (firstValues seen (m.zipIdx k)).Pairwise fun v w => v.2.1 < w.2.1 ∧ v.1 ≠ w.1 := by
  induction m generalizing seen k with
  | nil => exact .nil
  | cons d m ih =>
    rw [List.zipIdx_cons, firstValues]
    split
    · exact ih
    · split
      · exact ih
      · rw [List.pairwise_cons]
        refine ⟨fun (name, index, e) hv => ?_, ih⟩
        obtain ⟨hname, i, hi, -⟩ := mem_firstValues.1 hv
        rw [List.mem_cons, not_or] at hname
        exact ⟨show k < index by omega, fun he => hname.1 he.symm⟩

variable (m : Module) (active : ActiveRegistry)

theorem size_ofModule : (ofModule m active).size = (firstValues [] m.zipIdx).length := by
  simp [size, ofModule]

/-- A node stands for the first value of its name. -/
theorem decl_ofModule {a : Nat} {v : String × Nat × Decl} (h : (firstValues [] m.zipIdx)[a]? = some v) :
    (ofModule m active).decl a = v.2.1 ∧ m[v.2.1]? = some v.2.2 ∧ m.FirstValue v.1 v.2.1 := by
  obtain ⟨-, i, hi, hd, hfirst⟩ := mem_firstValues.1 (List.mem_of_getElem? h)
  rw [Nat.zero_add] at hi
  refine ⟨?_, hi ▸ hd, hi ▸ hfirst⟩
  simp [decl, ofModule, h]

theorem exists_value {a : Nat} (ha : a < (ofModule m active).size) :
    ∃ v, (firstValues [] m.zipIdx)[a]? = some v := by
  rw [size_ofModule] at ha
  exact ⟨_, List.getElem?_eq_getElem ha⟩

/-- Each first value has a node. -/
theorem exists_node {name : String} {i : Nat} (h : m.FirstValue name i) :
    ∃ (a : Nat) (d : Decl), (firstValues [] m.zipIdx)[a]? = some (name, i, d) := by
  obtain ⟨d, hd⟩ : ∃ d, m[i]? = some d := by
    cases hd : m[i]? with
    | none => simp [Module.FirstValue, hd] at h
    | some d => exact ⟨d, rfl⟩
  have hmem : (name, i, d) ∈ firstValues [] m.zipIdx :=
    mem_firstValues.2 ⟨List.not_mem_nil, i, (Nat.zero_add i).symm, hd, h⟩
  obtain ⟨a, ha⟩ := List.mem_iff_getElem?.1 hmem
  exact ⟨a, d, ha⟩

/-- An edge leads to the node of a name that the declaration refers to. -/
theorem leads_ofModule {a b : Nat} {v : String × Nat × Decl}
    (h : (firstValues [] m.zipIdx)[a]? = some v) : (ofModule m active).Leads a b ↔
      ∃ w, (firstValues [] m.zipIdx)[b]? = some w ∧ w.1 ∈ v.2.2.references active := by
  have hnext : (ofModule m active).next a = (SortedSet.ofList ((v.2.2.references active).filterMap
      ((firstValues [] m.zipIdx).map (·.1)).idxOf?)).toList := by
    simp [next, ofModule, h]
  have hidx : ∀ {name : String}, ((firstValues [] m.zipIdx).map (·.1)).idxOf? name = some b ↔
      ∃ w, (firstValues [] m.zipIdx)[b]? = some w ∧ w.1 = name := by
    intro name
    rw [List.idxOf?_eq_some_iff]
    constructor
    · rintro ⟨hb, hname, -⟩
      rw [List.length_map] at hb
      exact ⟨_, List.getElem?_eq_getElem hb, by simpa using hname⟩
    · rintro ⟨w, hw, rfl⟩
      obtain ⟨hb, rfl⟩ := List.getElem?_eq_some_iff.1 hw
      refine ⟨by simpa using hb, by simp, fun j hj => ?_⟩
      simpa using (List.pairwise_iff_getElem.1 (pairwise_firstValues (m := m)) j b _ hb hj).2
  rw [Leads, hnext, ← SortedSet.mem_def, SortedSet.mem_ofList, List.mem_filterMap]
  constructor
  · rintro ⟨name, hname, hb⟩
    obtain ⟨w, hw, rfl⟩ := hidx.1 hb
    exact ⟨w, hw, hname⟩
  · rintro ⟨w, hw, hname⟩
    exact ⟨w.1, hname, hidx.2 ⟨w, hw, rfl⟩⟩

/-- The graph of a module represents the references between its first values. -/
theorem ofModule_represents : (ofModule m active).Represents m active where
  ascending := by
    rw [ofModule, List.pairwise_map]
    exact pairwise_firstValues.imp fun h => h.1
  covers i := by
    rw [ofModule, List.mem_map]
    constructor
    · rintro ⟨⟨name, index, d⟩, hv, rfl⟩
      obtain ⟨-, j, hj, -, hfirst⟩ := mem_firstValues.1 hv
      rw [Nat.zero_add] at hj
      exact ⟨name, hj ▸ hfirst⟩
    · rintro ⟨name, hfirst⟩
      obtain ⟨a, d, ha⟩ := exists_node m hfirst
      exact ⟨_, List.mem_of_getElem? ha, rfl⟩
  leads a b := by
    by_cases ha : a < (ofModule m active).size
    · obtain ⟨v, hv⟩ := exists_value m active ha
      obtain ⟨hdecl, hd, -⟩ := decl_ofModule m active hv
      rw [leads_ofModule m active hv, hdecl]
      constructor
      · rintro ⟨w, hw, href⟩
        obtain ⟨hdecl', -, hfirst⟩ := decl_ofModule m active hw
        refine ⟨ha, ?_, v.2.2, w.1, hd, href, hdecl' ▸ hfirst⟩
        rw [size_ofModule]
        exact (List.getElem?_eq_some_iff.1 hw).1
      · rintro ⟨-, hb, d, name, hd', href, hfirst⟩
        obtain ⟨w, hw⟩ := exists_value m active hb
        obtain ⟨hdecl', -, hfirst'⟩ := decl_ofModule m active hw
        rw [hdecl'] at hfirst
        obtain rfl : v.2.2 = d := Option.some.inj (hd.symm.trans hd')
        obtain rfl : w.1 = name := Option.some.inj (hfirst'.1.symm.trans hfirst.1)
        exact ⟨w, hw, href⟩
    · have hnone : (firstValues [] m.zipIdx)[a]? = none := by
        rw [size_ofModule, Nat.not_lt] at ha
        exact List.getElem?_eq_none ha
      have hnext : (ofModule m active).next a = [] := by simp [next, ofModule, hnone]
      simp [Leads, hnext, ha]

end DependencyGraph
end RowCheck
