import RowCheck.Proofs.Match.Subject

/-!
Constructors against types: the fields that compiling assumes are those that values have, the
constructors listed for a type are those its values are built with, and every value of such a type
is built with one of them.
-/
namespace RowCheck

/-- Whether every definition stands under its own name. -/
def TypeRegistry.Named (r : TypeRegistry) : Prop := ∀ name d, r.get? name = some d → d.name = name

/-- Whether moreover the variants of every definition have names of their own. -/
structure TypeRegistry.WellFormed (r : TypeRegistry) : Prop where
  named : r.Named
  distinct : ∀ name d, r.get? name = some d → (d.variants.map Variant.name).Nodup

theorem TypeRegistry.get?_insert (r : TypeRegistry) (d : SumType) (name : String) :
    (r.insert d).get? name = if d.name = name then some d else r.get? name := by
  simp [TypeRegistry.get?, TypeRegistry.insert, SortedMap.get?_insert]

theorem TypeRegistry.get?_empty (name : String) : TypeRegistry.empty.get? name = none := rfl

theorem TypeRegistry.named_empty : TypeRegistry.empty.Named := fun name d h => by
  simp [get?_empty] at h

/-- Registering a definition puts it under its own name. -/
theorem TypeRegistry.Named.insert {r : TypeRegistry} (h : r.Named) (d : SumType) :
    (r.insert d).Named := by
  intro name e he
  rw [get?_insert] at he
  split at he
  · cases he
    assumption
  · exact h name e he

theorem TypeRegistry.wellFormed_empty : TypeRegistry.empty.WellFormed :=
  ⟨named_empty, fun name d h => by simp [get?_empty] at h⟩

/-- Registering definitions with distinct variants keeps a registry well-formed. -/
theorem TypeRegistry.WellFormed.insert {r : TypeRegistry} (h : r.WellFormed) {d : SumType}
    (hd : (d.variants.map Variant.name).Nodup) : (r.insert d).WellFormed := by
  refine ⟨h.named.insert d, fun name e he => ?_⟩
  rw [get?_insert] at he
  split at he
  · cases he
    exact hd
  · exact h.distinct name e he

namespace Registries

variable {r : Registries} {t : Ty} {c : Constructor} {types : List Ty}

/-- A constructor has the fields that compiling a match gives columns to. -/
theorem Builds.fieldTypes_eq (h : r.Builds t c types) : r.fieldTypes t c = types := by
  cases h with
  | literal _ => rfl
  | tuple items => simp [fieldTypes]
  | variant args hd hv => simp [fieldTypes, hd, hv]

theorem Builds.arity_eq (h : r.Builds t c types) : c.arity = types.length := by
  cases h with
  | literal _ => rfl
  | tuple items => rfl
  | variant args hd hv => simp [Constructor.arity, SumType.fieldsAt]

/-- What builds values of a type is listed among its constructors, if there is a list. -/
theorem Builds.mem_signature (hr : r.types.Named) (h : r.Builds t c types)
    {all : List Constructor} (ha : r.signature? t = some all) : c ∈ all := by
  cases h with
  | literal hk =>
    cases hk with
    | unit => simp [signature?] at ha; simp [← ha]
    | bool b => cases b <;> simp [signature?] at ha <;> simp [← ha]
    | @int n low high p hp _ _ => cases p <;> simp [signature?, Primitive.range?] at ha hp
    | f32 _ => simp [signature?] at ha
    | f64 _ => simp [signature?] at ha
    | string _ => simp [signature?] at ha
  | tuple items => simp [signature?] at ha; simp [← ha]
  | @variant type name d v args hd hv =>
    simp only [signature?, hd, Option.map_some, Option.some.injEq] at ha
    subst ha
    refine List.mem_map.2 ⟨v, List.mem_of_find?_eq_some hv, ?_⟩
    have hn : v.name = name := by simpa using List.find?_some hv
    rw [hr type d hd, hn]

/-- The constructors listed for a type build its values. -/
theorem exists_builds_of_mem_signature (hr : r.types.WellFormed) {all : List Constructor}
    (ha : r.signature? t = some all) (hc : c ∈ all) : ∃ types, r.Builds t c types := by
  unfold signature? at ha
  split at ha
  · simp only [Option.some.injEq] at ha
    subst ha
    rcases List.mem_pair.1 hc with rfl | rfl <;> exact ⟨[], .literal (.bool _)⟩
  · simp only [Option.some.injEq] at ha
    subst ha
    obtain rfl := List.mem_singleton.1 hc
    exact ⟨[], .literal .unit⟩
  · simp only [Option.some.injEq] at ha
    subst ha
    obtain rfl := List.mem_singleton.1 hc
    exact ⟨_, .tuple _⟩
  · rename_i name args
    obtain ⟨d, hd, rfl⟩ := Option.map_eq_some_iff.1 ha
    obtain ⟨v, hv, rfl⟩ := List.mem_map.1 hc
    refine ⟨d.fieldsAt v args, ?_⟩
    rw [hr.named name d hd]
    refine .variant args hd ?_
    -- names are distinct, so looking a name up gives the variant itself
    have hnd := hr.distinct name d hd
    unfold SumType.variant?
    generalize d.variants = vs at hv hnd
    induction vs with
    | nil => cases hv
    | cons w vs ih =>
      obtain ⟨hw, hvs⟩ := List.nodup_cons.1 hnd
      rcases List.mem_cons.1 hv with rfl | hv
      · simp
      · have hne : w.name ≠ v.name := fun e => hw (e ▸ List.mem_map_of_mem hv)
        simp [hne, ih hv hvs]
  · cases ha

end Registries

namespace Registries

variable {r : Registries} {t : Ty} {c d : Constructor} {v : Value} {types : List Ty}

theorem Builds.constructor?_build (h : r.Builds t c types) {parts : List Value}
    (hp : parts.length = types.length) : (c.build parts).constructor? = some c := by
  have hlen := h.arity_eq.trans hp.symm
  cases h with
  | literal _ => rfl
  | tuple items =>
    simp only [Constructor.arity] at hlen
    simp [Constructor.build, Value.constructor?, hlen]
  | variant args _ _ =>
    simp only [Constructor.arity] at hlen
    simp [Constructor.build, Value.constructor?, hlen]

theorem Builds.parts_build (h : r.Builds t c types) {parts : List Value}
    (hp : parts.length = types.length) : (c.build parts).parts = parts := by
  cases h with
  | literal _ => exact (List.length_eq_zero_iff.1 hp).symm
  | tuple items => rfl
  | variant args _ _ => rfl

/-- A constructed value of a type that has constructors is built with one of them, from fields of
the right types. -/
theorem HasType.exists_built (h : r.HasType v t) (ht : r.Builds t d types)
    (hv : v.constructor? = some c) :
    ∃ us, r.Builds t c us ∧ List.Forall₂ r.HasType v.parts us := by
  cases h with
  | @built _ e us parts hb hp =>
    rw [hb.constructor?_build hp.length_eq] at hv
    cases hv
    exact ⟨us, hb, (hb.parts_build hp.length_eq).symm ▸ hp⟩
  | sealed _ => cases hv
  | var _ _ =>
    cases ht with
    | literal hk => cases hk
  | error _ =>
    cases ht with
    | literal hk => cases hk

/-- A value of a type whose constructors are listed is built with one of them. -/
theorem HasType.exists_constructor (hr : r.types.Named) (h : r.HasType v t)
    {all : List Constructor} (ha : r.signature? t = some all) :
    ∃ c ∈ all, v.constructor? = some c := by
  cases h with
  | @built _ e us parts hb hp =>
    exact ⟨e, hb.mem_signature hr ha, hb.constructor?_build hp.length_eq⟩
  | @sealed _ hs =>
    cases t <;> simp [signature?, isSealed] at ha hs
    rw [hs] at ha
    cases ha.choose_spec.1
  | var _ _ => simp [signature?] at ha
  | error _ => simp [signature?] at ha

end Registries

end RowCheck
