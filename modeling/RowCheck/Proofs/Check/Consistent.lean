import RowCheck.Proofs.Check.Definitions
import RowCheck.Proofs.Typing.Group

/-!
Whatever a module declares, what is collected from it is consistent: looking up the name of a type, of
a constructor, of an active pattern or of a case leads to the one definition that has it. If nothing
is reported, the fields of definitions mention known types and the parameters of their own type only.
-/
namespace RowCheck

namespace Ty

mutual

/-- The types of a module that are mentioned in a type, each with the number of its arguments. -/
def applications : Ty → List (String × Nat)
  | named name args => (name, args.length) :: applicationsList args
  | fn p r _ => p.applications ++ r.applications
  | tuple items => applicationsList items
  | ref _ inner => inner.applications
  | prim _ | string | unit | var _ | error => []

def applicationsList : List Ty → List (String × Nat)
  | [] => []
  | t :: ts => t.applications ++ applicationsList ts

end

theorem applicationsList_eq (ts : List Ty) : applicationsList ts = ts.flatMap applications := by
  induction ts with
  | nil => rfl
  | cons t ts ih => rw [applicationsList, ih, List.flatMap_cons]

end Ty

namespace Registries

/-- Whether looking up names leads to the definitions that have them. Definitions stand under their
own names, and a variant other than the reserved one belongs to one definition. An active pattern
classifies into a type of its own, whose variants are its cases, and last the reserved one if it is
partial. -/
structure Consistent (r : Registries) : Prop where
  named : ∀ {name d}, r.types.get? name = some d → d.name = name
  nodup : ∀ {name d}, r.types.get? name = some d → (d.variants.map Variant.name).Nodup
  apart : ∀ {name d name' d'}, r.types.get? name = some d → r.types.get? name' = some d' →
    name ≠ name' → ∀ c ∈ d.variants.map Variant.name, c ∈ d'.variants.map Variant.name → c = noMatch
  constructors : ∀ {c d v}, r.types.constructor? c = some (d, v) ↔
    c ≠ noMatch ∧ r.types.get? d.name = some d ∧ v ∈ d.variants ∧ v.name = c
  patterns : ∀ {name p}, r.active.get? name = some p → p.name = name ∧ noMatch ∉ p.cases ∧
    ∃ d vs, r.types.get? p.resultType = some d ∧
      d.variants = vs ++ (if p.total then [] else [⟨noMatch, []⟩]) ∧ vs.map Variant.name = p.cases
  reserved : ∀ {name d}, r.types.get? name = some d → noMatch ∈ d.variants.map Variant.name →
    ∃ p, r.active.get? name = some p ∧ p.total = false
  cases : ∀ {c p}, r.active.ofCase? c = some p ↔ r.active.get? p.name = some p ∧ c ∈ p.cases

/-- Whether the fields of definitions mention known types only, each with as many arguments as it has
parameters, and of variables the parameters of their own type only; and no field is at fault. -/
structure WellScoped (r : Registries) : Prop where
  applied : ∀ {name d}, r.types.get? name = some d → ∀ v ∈ d.variants, ∀ t ∈ v.fields,
    ∀ a ∈ t.applications, ∃ e, r.types.get? a.1 = some e ∧ e.params.length = a.2
  params : ∀ {name d}, r.types.get? name = some d → ∀ v ∈ d.variants, ∀ t ∈ v.fields,
    ∀ w ∈ t.vars, w ∈ d.params
  proper : r.ErrorFree

end Registries

/-- A variant is found by its name if no other has it. -/
theorem SumType.variant?_eq_some {d : SumType} (h : (d.variants.map Variant.name).Nodup)
    {v : Variant} (hv : v ∈ d.variants) : d.variant? v.name = some v := by
  obtain ⟨w, hw⟩ : ∃ w, d.variant? v.name = some w := by
    rw [← Option.isSome_iff_exists, variant?, List.find?_isSome]
    exact ⟨v, hv, decide_eq_true rfl⟩
  rw [hw, List.inj_on_of_nodup_map h (List.mem_of_find?_eq_some hw) hv (name_of_variant? hw)]

/-! ## Definitions that are apart -/

namespace Definition

theorem distinct_constructors {d : Definition} (h : d.Distinct) {c : String}
    (hc : c ∈ d.constructors) : c ≠ noMatch := by
  obtain ⟨v, hv, rfl⟩ := List.mem_map.1 hc
  exact (distinct_iff.1 h).2 v hv

theorem name_of_pattern? {d : Definition} {p : ActivePattern} (h : d.pattern? = some p) :
    p.name = d.name := by
  cases d <;> cases h
  rfl

theorem cases_of_pattern? {d : Definition} {p : ActivePattern} (h : d.pattern? = some p) :
    p.cases = d.constructors := by
  cases d <;> cases h
  rfl

theorem unclassified_of_pattern? {d : Definition} {p : ActivePattern} (h : d.pattern? = some p) :
    d.unclassified = if p.total then [] else [⟨noMatch, []⟩] := by
  cases d <;> cases h
  rfl

theorem exists_pattern_of_unclassified {d : Definition} {v : Variant} (h : v ∈ d.unclassified) :
    ∃ p, d.pattern? = some p ∧ p.total = false := by
  cases d with
  | sum name params vs => cases h
  | active name total cases =>
    refine ⟨_, rfl, ?_⟩
    cases total with
    | false => rfl
    | true => cases h

theorem nodup_sumType (outlines : TypeRegistry) {d : Definition} (h : d.Distinct) :
    ((d.sumType outlines).variants.map Variant.name).Nodup := by
  rw [names_sumType, List.nodup_append']
  refine ⟨(distinct_iff.1 h).1, ?_, fun n hn hn' => ?_⟩
  · cases d with
    | sum name params vs => exact List.nodup_nil
    | active name total cases => cases total <;> simp [unclassified]
  · exact distinct_constructors h hn (eq_noMatch_of_mem_unclassified hn')

end Definition

namespace Registries

variable {outlines : TypeRegistry} {ds : List Definition}

/-! What is registered of definitions, one after the other, as bindings of names. -/

theorem types_foldl_add (ds : List Definition) (r : Registries) :
    (ds.foldl (add outlines) r).types.types =
      (ds.map fun d => (d.name, d.sumType outlines)).foldl (fun m e => m.insert e.1 e.2)
        r.types.types := by
  rw [List.foldl_map]
  refine (List.foldl_hom (fun r : Registries => r.types.types) fun r d => ?_).symm
  rw [add, TypeRegistry.insert, Definition.name_sumType]

theorem owners_foldl_add (hdistinct : ∀ d ∈ ds, d.Distinct) (r : Registries) :
    (ds.foldl (add outlines) r).types.owners =
      (ds.flatMap fun d => d.constructors.map fun c => (c, d.name)).foldl
        (fun m e => m.insertNew e.1 e.2) r.types.owners := by
  induction ds generalizing r with
  | nil => rfl
  | cons d ds ih =>
    rw [List.forall_mem_cons] at hdistinct
    have hall : (d.constructors.filter fun n => n ≠ noMatch) = d.constructors :=
      List.filter_eq_self.2 fun n hn =>
        decide_eq_true (Definition.distinct_constructors hdistinct.1 hn)
    have hnone : ((d.unclassified.map Variant.name).filter fun n => n ≠ noMatch) = [] :=
      List.filter_eq_nil_iff.2 fun n hn => by
        simp [Definition.eq_noMatch_of_mem_unclassified hn]
    rw [List.foldl_cons, ih hdistinct.2, List.flatMap_cons, List.foldl_append, List.foldl_map, add,
      TypeRegistry.owners_insert, Definition.names_sumType, List.filter_append, hall, hnone,
      List.append_nil, Definition.name_sumType]

theorem active_foldl_add (ds : List Definition) (r : Registries) :
    (ds.foldl (add outlines) r).active =
      (ds.filterMap Definition.pattern?).foldl ActiveRegistry.insert r.active := by
  induction ds generalizing r with
  | nil => rfl
  | cons d ds ih =>
    rw [List.foldl_cons, ih]
    cases d <;> rfl

theorem patterns_foldl_insert (ps : List ActivePattern) (r : ActiveRegistry) :
    (ps.foldl ActiveRegistry.insert r).patterns =
      (ps.map fun p => (p.name, p)).foldl (fun m e => m.insert e.1 e.2) r.patterns := by
  rw [List.foldl_map]
  exact (List.foldl_hom ActiveRegistry.patterns fun _ _ => rfl).symm

theorem owners_foldl_insert (ps : List ActivePattern) (r : ActiveRegistry) :
    (ps.foldl ActiveRegistry.insert r).owners =
      (ps.flatMap fun p => p.cases.map fun c => (c, p.name)).foldl
        (fun m e => m.insertNew e.1 e.2) r.owners := by
  rw [List.foldl_flatMap]
  refine (List.foldl_hom ActiveRegistry.owners fun r p => ?_).symm
  rw [List.foldl_map]
  rfl

/-! What is found of definitions that are apart. -/

section

variable (hapart : ds.Pairwise Definition.Apart) (hdistinct : ∀ d ∈ ds, d.Distinct)

include hapart in
theorem eq_of_not_apart {d e : Definition} (hd : d ∈ ds) (he : e ∈ ds) (h : ¬ d.Apart e) : d = e := by
  have : Std.Symm Definition.Apart := ⟨fun _ _ => Definition.Apart.symm⟩
  by_contra hne
  exact h (hapart.forall hd he hne)

include hapart in
theorem get?_types_foldl_add {name : String} {e : SumType} :
    (ds.foldl (add outlines) .empty).types.get? name = some e ↔
      ∃ d ∈ ds, d.name = name ∧ d.sumType outlines = e := by
  have hnodup : ((ds.map fun d => (d.name, d.sumType outlines)).map (·.1)).Nodup := by
    rw [List.map_map]
    exact List.pairwise_map.2 (hapart.imp Definition.Apart.name)
  rw [TypeRegistry.get?, types_foldl_add, SortedMap.get?_foldl_insert_iff hnodup]
  simp [empty, TypeRegistry.empty]

include hapart hdistinct in
theorem get?_owners_foldl_add {c name : String} :
    (ds.foldl (add outlines) .empty).types.owners.get? c = some name ↔
      ∃ d ∈ ds, c ∈ d.constructors ∧ d.name = name := by
  have hnodup : ((ds.flatMap fun d => d.constructors.map fun c => (c, d.name)).map (·.1)).Nodup := by
    rw [List.map_flatMap]
    simp only [List.map_map, Function.comp_def, List.map_id']
    exact List.nodup_flatMap.2 ⟨fun d hd => (Definition.distinct_iff.1 (hdistinct d hd)).1,
      hapart.imp Definition.Apart.constructors⟩
  rw [owners_foldl_add hdistinct, SortedMap.get?_foldl_insertNew_iff hnodup]
  simp [empty, TypeRegistry.empty]

include hapart in
theorem pairwise_patterns : (ds.filterMap Definition.pattern?).Pairwise
    fun p q => p.name ≠ q.name ∧ p.cases.Disjoint q.cases := by
  refine List.pairwise_filterMap.2 (hapart.imp fun h p hp q hq => ?_)
  rw [Definition.name_of_pattern? hp, Definition.name_of_pattern? hq,
    Definition.cases_of_pattern? hp, Definition.cases_of_pattern? hq]
  exact ⟨h.name, h.constructors⟩

include hapart in
theorem get?_active_foldl_add {name : String} {p : ActivePattern} :
    (ds.foldl (add outlines) .empty).active.get? name = some p ↔
      (∃ d ∈ ds, d.pattern? = some p) ∧ p.name = name := by
  have hnodup : (((ds.filterMap Definition.pattern?).map fun p => (p.name, p)).map (·.1)).Nodup := by
    rw [List.map_map]
    exact List.pairwise_map.2 ((pairwise_patterns hapart).imp And.left)
  rw [ActiveRegistry.get?, active_foldl_add, patterns_foldl_insert,
    SortedMap.get?_foldl_insert_iff hnodup]
  simp only [empty, ActiveRegistry.empty, SortedMap.get?_empty, reduceCtorEq, and_false, or_false,
    List.mem_map, Prod.mk.injEq, List.mem_filterMap]
  constructor
  · rintro ⟨q, hq, rfl, rfl⟩
    exact ⟨hq, rfl⟩
  · rintro ⟨hp, rfl⟩
    exact ⟨p, hp, rfl, rfl⟩

include hapart hdistinct in
theorem get?_cases_foldl_add {c name : String} :
    (ds.foldl (add outlines) .empty).active.owners.get? c = some name ↔
      ∃ p, (∃ d ∈ ds, d.pattern? = some p) ∧ c ∈ p.cases ∧ p.name = name := by
  have hnodup : (((ds.filterMap Definition.pattern?).flatMap fun p =>
      p.cases.map fun c => (c, p.name)).map (·.1)).Nodup := by
    rw [List.map_flatMap]
    simp only [List.map_map, Function.comp_def, List.map_id']
    refine List.nodup_flatMap.2 ⟨fun p hp => ?_, (pairwise_patterns hapart).imp And.right⟩
    obtain ⟨d, hd, hdp⟩ := List.mem_filterMap.1 hp
    rw [Definition.cases_of_pattern? hdp]
    exact (Definition.distinct_iff.1 (hdistinct d hd)).1
  rw [active_foldl_add, owners_foldl_insert, SortedMap.get?_foldl_insertNew_iff hnodup]
  simp [empty, ActiveRegistry.empty]

include hapart hdistinct in
/-- A constructor is found at the one definition that declares it. -/
theorem constructor?_foldl_add {c : String} {e : SumType} {v : Variant} :
    (ds.foldl (add outlines) .empty).types.constructor? c = some (e, v) ↔
      ∃ d ∈ ds, c ∈ d.constructors ∧ d.sumType outlines = e ∧ v ∈ e.variants ∧ v.name = c := by
  simp only [TypeRegistry.constructor?, Option.bind_eq_bind, Option.bind_eq_some_iff,
    Option.pure_def, Option.some.injEq, Prod.mk.injEq]
  constructor
  · rintro ⟨owner, howner, e', he, v', hv, rfl, rfl⟩
    obtain ⟨d, hd, hc, rfl⟩ := (get?_owners_foldl_add hapart hdistinct).1 howner
    obtain ⟨d', hd', hname, rfl⟩ := (get?_types_foldl_add hapart).1 he
    obtain rfl := eq_of_not_apart hapart hd' hd fun h => h.name hname
    exact ⟨d', hd', hc, rfl, List.mem_of_find?_eq_some hv, SumType.name_of_variant? hv⟩
  · rintro ⟨d, hd, hc, rfl, hv, rfl⟩
    exact ⟨d.name, (get?_owners_foldl_add hapart hdistinct).2 ⟨d, hd, hc, rfl⟩, _,
      (get?_types_foldl_add hapart).2 ⟨d, hd, rfl, rfl⟩, v,
      SumType.variant?_eq_some (Definition.nodup_sumType outlines (hdistinct d hd)) hv, rfl, rfl⟩

include hapart hdistinct in
theorem consistent_foldl_add : (ds.foldl (add outlines) .empty).Consistent where
  named h := by
    obtain ⟨d, -, rfl, rfl⟩ := (get?_types_foldl_add hapart).1 h
    exact d.name_sumType outlines
  nodup h := by
    obtain ⟨d, hd, -, rfl⟩ := (get?_types_foldl_add hapart).1 h
    exact Definition.nodup_sumType outlines (hdistinct d hd)
  apart h h' hne c hc hc' := by
    obtain ⟨d, hd, rfl, rfl⟩ := (get?_types_foldl_add hapart).1 h
    obtain ⟨d', hd', rfl, rfl⟩ := (get?_types_foldl_add hapart).1 h'
    rcases Definition.mem_variants_sumType hc with hc | rfl
    · rcases Definition.mem_variants_sumType hc' with hc' | rfl
      · exact absurd (congrArg Definition.name (eq_of_not_apart hapart hd hd' fun h =>
          h.constructors hc hc')) hne
      · rfl
    · rfl
  constructors := by
    intro c e v
    rw [constructor?_foldl_add hapart hdistinct]
    constructor
    · rintro ⟨d, hd, hc, rfl, hv⟩
      refine ⟨Definition.distinct_constructors (hdistinct d hd) hc, ?_, hv⟩
      exact (get?_types_foldl_add hapart).2 ⟨d, hd, (d.name_sumType outlines).symm, rfl⟩
    · rintro ⟨hc, he, hv, rfl⟩
      obtain ⟨d, hd, -, rfl⟩ := (get?_types_foldl_add hapart).1 he
      have hdeclared := Definition.mem_variants_sumType (List.mem_map_of_mem hv)
      exact ⟨d, hd, hdeclared.resolve_right hc, rfl, hv, rfl⟩
  patterns h := by
    obtain ⟨⟨d, hd, hp⟩, hname⟩ := (get?_active_foldl_add hapart).1 h
    have hcases := Definition.cases_of_pattern? hp
    refine ⟨hname, fun hmem => ?_, d.sumType outlines, d.resolved outlines, ?_, ?_, ?_⟩
    · exact Definition.distinct_constructors (hdistinct d hd) (hcases ▸ hmem) rfl
    · exact (get?_types_foldl_add hapart).2 ⟨d, hd, (Definition.name_of_pattern? hp).symm, rfl⟩
    · rw [d.variants_sumType, Definition.unclassified_of_pattern? hp]
    · rw [d.names_resolved, hcases]
  reserved h hmem := by
    obtain ⟨d, hd, rfl, rfl⟩ := (get?_types_foldl_add hapart).1 h
    rw [Definition.names_sumType, List.mem_append] at hmem
    have hunclassified := hmem.resolve_left fun hc =>
      Definition.distinct_constructors (hdistinct d hd) hc rfl
    obtain ⟨v, hv, -⟩ := List.mem_map.1 hunclassified
    obtain ⟨p, hp, htotal⟩ := Definition.exists_pattern_of_unclassified hv
    exact ⟨p, (get?_active_foldl_add hapart).2 ⟨⟨d, hd, hp⟩, Definition.name_of_pattern? hp⟩, htotal⟩
  cases := by
    intro c p
    rw [ActiveRegistry.ofCase?, Option.bind_eq_bind, Option.bind_eq_some_iff]
    constructor
    · rintro ⟨owner, howner, hp⟩
      obtain ⟨q, hq, hc, rfl⟩ := (get?_cases_foldl_add hapart hdistinct).1 howner
      obtain ⟨⟨d, hd, hdp⟩, hname⟩ := (get?_active_foldl_add hapart).1 hp
      obtain ⟨d', hd', hdq⟩ := hq
      obtain rfl : d = d' := eq_of_not_apart hapart hd hd' fun h => h.name <| by
        rw [← Definition.name_of_pattern? hdp, ← Definition.name_of_pattern? hdq, hname]
      obtain rfl : p = q := Option.some.inj (hdp.symm.trans hdq)
      exact ⟨hp, hc⟩
    · rintro ⟨hp, hc⟩
      have hdefined := ((get?_active_foldl_add hapart).1 hp).1
      exact ⟨p.name, (get?_cases_foldl_add hapart hdistinct).2 ⟨p, hdefined, hc, rfl⟩, hp⟩

end

end Registries

/-! ## Fields -/

/-- What written types can stand for mentions known types only, if what is in scope mentions none. -/
theorem TypeScope.Resolves.applied {types : TypeRegistry} {scope : TypeScope}
    (hscope : ∀ name t, scope.types.get? name = some t → t.applications = []) {t : Ty}
    (h : scope.Resolves types t) :
    ∀ a ∈ t.applications, ∃ e, types.get? a.1 = some e ∧ e.params.length = a.2 := by
  induction h with
  | error => exact nofun
  | @builtin name t h =>
    unfold TypeExpr.builtin? at h
    split at h
    · cases h
      exact nofun
    · split at h
      · cases h
        exact nofun
      · obtain ⟨p, -, rfl⟩ := Option.map_eq_some_iff.1 h
        exact nofun
  | var h =>
    rw [hscope _ _ h]
    exact nofun
  | @named name d args hd hlength _ ih =>
    rw [Ty.applications, Ty.applicationsList_eq, List.forall_mem_cons]
    refine ⟨⟨d, hd, hlength⟩, fun a ha => ?_⟩
    obtain ⟨t, ht, ha⟩ := List.mem_flatMap.1 ha
    exact ih t ht a ha
  | tuple _ ih =>
    rw [Ty.applications, Ty.applicationsList_eq]
    intro a ha
    obtain ⟨t, ht, ha⟩ := List.mem_flatMap.1 ha
    exact ih t ht a ha
  | ref k _ ih => exact ih
  | fn _ _ _ hp hr => exact List.forall_mem_append.2 ⟨hp, hr⟩

namespace Definition

theorem scope_eq_var {d : Definition} : ∀ p ∈ d.scope, ∃ w, p.2 = .var w := by
  cases d with
  | active name total cases => exact nofun
  | sum name params vs =>
    intro p hp
    obtain ⟨q, -, rfl⟩ := List.mem_map.1 hp
    exact ⟨q.2, rfl⟩

/-- The fields of a definition mention known types only. -/
theorem fields_applied (outlines : TypeRegistry) (d : Definition) :
    ∀ v ∈ (d.sumType outlines).variants, ∀ t ∈ v.fields, ∀ a ∈ t.applications,
      ∃ e, outlines.get? a.1 = some e ∧ e.params.length = a.2 := by
  intro v hv t ht
  rw [variants_sumType, List.mem_append] at hv
  rcases hv with hv | hv
  · refine TypeScope.Resolves.applied (fun name u hu => ?_) ((VariantDecl.resolveAll_resolves
      outlines d.scope d.below_scope d.variants .empty).2 v hv t ht)
    obtain ⟨w, hw⟩ := d.scope_eq_var _ (SortedMap.mem_of_get?_ofList hu)
    obtain rfl : u = .var w := hw
    rfl
  · cases d with
    | sum name params vs => cases hv
    | active name total cases =>
      cases total with
      | true => cases hv
      | false =>
        obtain rfl := List.mem_singleton.1 hv
        cases ht

end Definition

section

open Unifier

variable {u : Unifier}

theorem VariantDecl.resolveAll_gives (hu : u.Sound) (types : TypeRegistry)
    {params : List (String × Ty)} (hparams : ∀ p ∈ params, ∃ w, p.2 = Ty.var w)
    (vs : List VariantDecl) : u.Gives (VariantDecl.resolveAll types params vs)
      (fun vs u' => ∀ v ∈ vs, ∀ t ∈ v.fields, u'.Knows t) := by
  induction vs generalizing u with
  | nil => exact .pure hu (by simp)
  | cons v vs ih =>
    have hscope : u.Admits (.ofParams params) := by
      have hvar : ∀ name t, (SortedMap.ofList params).get? name = some t → ∃ w, t = .var w :=
        fun name t ht => hparams _ (SortedMap.mem_of_get?_ofList ht)
      refine ⟨⟨fun name t ht => ?_, nofun⟩, fun name t ht => ?_⟩
      all_goals
        obtain ⟨w, rfl⟩ := hvar name t ht
      · exact Ty.below_of_effects_eq_nil rfl
      · exact knows_var w
    have hfields : u.Gives ((TypeExpr.resolveList types v.fields).run' (.ofParams params))
        (fun ts u' => ∀ t ∈ ts, u'.Knows t) :=
      have h := TypeExpr.resolveList_gives types v.fields u _ hu hscope
      ⟨h.1, h.2.2⟩
    unfold VariantDecl.resolveAll
    refine hfields.bind fun ts u₁ h₁ hts => ?_
    refine (ih h₁.sound).bind fun rest u₂ h₂ hrest => .pure h₂.sound ?_
    exact List.forall_mem_cons.2 ⟨fun t ht => (hts t ht).leads h₂, hrest⟩

theorem Registries.ErrorFree.insert {r : Registries} (h : r.ErrorFree) {d : SumType}
    (hd : ∀ v ∈ d.variants, ∀ t ∈ v.fields, t.containsError = false) (active : ActiveRegistry) :
    ErrorFree ⟨r.types.insert d, active⟩ := by
  intro name e he
  rw [TypeRegistry.get?_insert] at he
  split at he
  · cases he
    exact hd
  · exact h name e he

/-- If nothing is reported, no field is at fault. -/
theorem Registries.define_gives (hu : u.Sound) (outlines : TypeRegistry) (ds : List Definition)
    {r : Registries} (hr : u.errors = [] → r.ErrorFree) :
    u.Gives (Registries.define outlines ds r) (fun r u' => u'.errors = [] → r.ErrorFree) := by
  induction ds generalizing u r with
  | nil => exact .pure hu hr
  | cons d ds ih =>
    cases d with
    | sum name params vs =>
      refine (VariantDecl.resolveAll_gives hu outlines
        (Definition.scope_eq_var (d := .sum name params vs)) vs).bind fun vs u₁ h₁ hvs => ?_
      exact ih h₁.sound fun he => (hr (h₁.errors_nil he)).insert (fun v hv t ht =>
        (hvs v hv t ht).proper he) _
    | active name total cases =>
      refine (VariantDecl.resolveAll_gives hu outlines (by simp) cases).bind
        fun vs u₁ h₁ hvs => ih h₁.sound fun he => (hr (h₁.errors_nil he)).insert ?_ _
      intro v hv t ht
      split at hv
      · exact (hvs v hv t ht).proper he
      · rcases List.mem_append.1 hv with hv | hv
        · exact (hvs v hv t ht).proper he
        · obtain rfl := List.mem_singleton.1 hv
          cases ht

end

/-! ## Names that are free -/

namespace Claims

/-- Unless it reports a fault, an action gives an answer with some property. -/
def Blameless {α : Type} (c : Claims) (m : StateM Claims α) (Q : α → Prop) : Prop :=
  ∃ fs, (m c).2.faults = c.faults ++ fs ∧ (fs = [] → Q (m c).1)

section

variable {α β : Type} {c : Claims} {m : StateM Claims α} {f : α → StateM Claims β} {Q : α → Prop}
  {R : β → Prop}

theorem Blameless.bind (h : c.Blameless m Q)
    (hf : ∀ a (c' : Claims), c'.Blameless (f a) fun b => Q a → R b) : c.Blameless (m >>= f) R := by
  obtain ⟨fs, hfs, hq⟩ := h
  obtain ⟨gs, hgs, hr⟩ := hf (m c).1 (m c).2
  refine ⟨fs ++ gs, ?_, fun hnil => ?_⟩
  · rw [← List.append_assoc, ← hfs]
    exact hgs
  · rw [List.append_eq_nil_iff] at hnil
    exact hr hnil.2 (hq hnil.1)

theorem Blameless.pure {a : α} (h : Q a) : c.Blameless (pure a) Q :=
  ⟨[], (List.append_nil _).symm, fun _ => h⟩

theorem Blameless.get_bind {f : Claims → StateM Claims β} (h : c.Blameless (f c) R) :
    c.Blameless (get >>= f) R := h

theorem Blameless.imp {Q' : α → Prop} (h : c.Blameless m Q) (hq : ∀ a, Q a → Q' a) :
    c.Blameless m Q' :=
  let ⟨fs, hfs, h⟩ := h
  ⟨fs, hfs, fun hnil => hq _ (h hnil)⟩

end

variable {c : Claims}

theorem report_blameless (d : Diagnostic) : c.Blameless (report d) fun _ => False :=
  ⟨[d], rfl, nofun⟩

theorem checkName_blameless (name : Name) : c.Blameless (checkName name) fun _ => True := by
  unfold checkName
  split
  · exact .pure trivial
  · exact (report_blameless _).imp fun _ _ => trivial

theorem claimConstructor_blameless (name : Name) :
    c.Blameless (claimConstructor name) fun free => free = true := by
  unfold claimConstructor
  refine (checkName_blameless name).bind fun _ c₁ => ?_
  split
  · exact (report_blameless _).bind fun _ c₂ => .pure fun h => h.elim
  · refine .get_bind ?_
    split
    · exact (report_blameless _).bind fun _ c₂ => .pure fun h => h.elim
    · exact ⟨[], (List.append_nil _).symm, fun _ _ => rfl⟩

theorem usableVariants_blameless (vs : List VariantDecl) :
    c.Blameless (usableVariants vs) fun usable => usable = vs := by
  induction vs generalizing c with
  | nil => exact .pure rfl
  | cons v vs ih =>
    unfold usableVariants
    refine (claimConstructor_blameless v.name).bind fun free c₁ => ?_
    refine ih.bind fun rest c₂ => .pure fun hrest hfree => ?_
    rw [if_pos hfree, hrest]

theorem usableCases_blameless (pattern : Name) (seen : SortedMap String Span)
    (vs : List VariantDecl) :
    c.Blameless (usableCases pattern seen vs) fun usable => usable = vs := by
  induction vs generalizing c seen with
  | nil => exact .pure rfl
  | cons v vs ih =>
    have hreported : ∀ d, c.Blameless (report d >>= fun _ => usableCases pattern seen vs)
        fun usable => usable = v :: vs := fun d =>
      (report_blameless d).bind fun _ c₁ => (ih seen).imp fun _ _ h => h.elim
    unfold usableCases
    split
    · exact hreported _
    · split
      · exact hreported _
      · refine (claimConstructor_blameless v.name).bind fun free c₁ => ?_
        refine (ih _).bind fun rest c₂ => .pure fun hrest hfree => ?_
        rw [if_pos hfree, hrest]

end Claims

/-- The name of the type that a declaration defines, and its number of parameters. -/
def Decl.outline? : Decl → Option (String × Nat)
  | fn _ => none
  | type d => some (d.name.text, d.params.length)
  | active d => some (d.name.text, 0)

/-- The name of the type that is defined, and its number of parameters. -/
def Definition.outline : Definition → String × Nat
  | sum name params _ => (name, params.length)
  | active name _ _ => (name, 0)

theorem Definition.fst_outline (d : Definition) : d.outline.1 = d.name := by
  cases d <;> rfl

theorem Definition.snd_outline (outlines : TypeRegistry) (d : Definition) :
    d.outline.2 = (d.sumType outlines).params.length := by
  cases d with
  | sum name params vs => exact List.length_range.symm
  | active name total cases => rfl

/-- A type whose outline is known is declared. -/
theorem TypeRegistry.mem_of_get?_foldl_outline {ds : List Decl} {r : TypeRegistry} {name : String}
    {e : SumType} (h : (ds.foldl outline r).get? name = some e) :
    (name, e.params.length) ∈ ds.filterMap Decl.outline? ∨ r.get? name = some e := by
  induction ds generalizing r with
  | nil => exact .inr h
  | cons d ds ih =>
    have hinsert : ∀ {n : String} {ps : List TyVar}, (r.insert ⟨n, ps, []⟩).get? name = some e →
        (name, e.params.length) = (n, ps.length) ∨ r.get? name = some e := by
      intro n ps he
      rw [get?_insert] at he
      split at he
      · rename_i hn
        cases he
        exact .inl (Prod.ext hn.symm rfl)
      · exact .inr he
    rw [List.foldl_cons] at h
    cases d with
    | fn d => exact ih h
    | type d | active d =>
      simp only [List.filterMap_cons, Decl.outline?, List.mem_cons]
      rcases ih h with h | h
      · exact .inl (.inr h)
      · exact (hinsert h).imp_left fun h => .inl (by simpa using h)

/-- Unless a fault is reported, all types that are declared are defined. -/
theorem Claims.usableDefinitions_blameless {c : Claims} (ds : List Decl) :
    c.Blameless (usableDefinitions ds)
      fun defs => defs.map Definition.outline = ds.filterMap Decl.outline? := by
  induction ds generalizing c with
  | nil => exact .pure rfl
  | cons d ds ih =>
    cases d with
    | fn d => exact ih
    | type d =>
      unfold usableDefinitions
      refine (usableVariants_blameless d.variants).bind fun vs c₁ => ?_
      refine ih.bind fun rest c₂ => .pure fun hrest _ => ?_
      rw [List.map_cons, hrest]
      simp [Definition.outline, Decl.outline?]
    | active d =>
      have hclose : ∀ {c₁ : Claims} (cs : List VariantDecl), c₁.Blameless (do
          let rest ← usableDefinitions ds
          return if cs.isEmpty then rest else .active d.name.text d.total cs :: rest)
          fun defs => cs.isEmpty = false →
            defs.map Definition.outline = (Decl.active d :: ds).filterMap Decl.outline? := by
        intro c₁ cs
        refine ih.bind fun rest c₂ => .pure fun hrest hcs => ?_
        rw [hcs]
        exact congrArg (_ :: ·) hrest
      unfold usableDefinitions
      dsimp only
      split
      · exact (report_blameless _).bind fun _ c₁ => (hclose []).imp fun _ _ h => h.elim
      · rename_i hcases
        refine (usableCases_blameless d.name ∅ d.cases).bind fun cs c₁ => (hclose cs).imp ?_
        rintro _ h rfl
        exact h (eq_false_of_ne_true hcases)

/-! ## The definitions of a module -/

namespace Module

/-- The declarations that define a type under a name of their own. -/
def entitled (m : Module) : List Decl := (Claims.claimAll m .empty).1

/-- What written types know of the types of a module. -/
def sketch (m : Module) : TypeRegistry := m.entitled.foldl TypeRegistry.outline .empty

/-- What is defined in a module. -/
def definitions (m : Module) : List Definition :=
  (Claims.usableDefinitions m.entitled (Claims.claimAll m .empty).2).1

theorem registries_fst (m : Module) :
    m.registries.1 = m.definitions.foldl (Registries.add m.sketch) .empty :=
  Registries.define_eq_foldl m.sketch m.definitions .empty .empty

theorem registries_snd (m : Module) : m.registries.2 =
    (Claims.usableDefinitions m.entitled (Claims.claimAll m .empty).2).2.faults ++
      ((Registries.define m.sketch m.definitions .empty).run .empty).2.errors :=
  rfl

theorem definitions_distinct (m : Module) : ∀ d ∈ m.definitions, d.Distinct :=
  Claims.usableDefinitions_yields (c := (Claims.claimAll m .empty).2) m.entitled

/-- No two definitions of a module have a name or a constructor in common. -/
theorem definitions_apart (m : Module) : m.definitions.Pairwise Definition.Apart := by
  have hnames : (m.definitions.map Definition.name).Nodup :=
    List.Sublist.nodup (Claims.usableDefinitions_names (c := (Claims.claimAll m .empty).2) m.entitled)
      (Claims.claimAll_yields (c := .empty) m).nodup
  have hclaimed := Claims.usableDefinitions_claimed (c := (Claims.claimAll m .empty).2) m.entitled
  have hconstructors : (m.definitions.flatMap Definition.constructors).Nodup := by
    have hnodup := hclaimed.nodup
    rw [List.map_flatMap] at hnodup
    exact hnodup
  exact ((List.pairwise_map.1 hnames).and (List.nodup_flatMap.1 hconstructors).2).imp
    fun h => ⟨h.1, h.2⟩

/-- If nothing is reported, what written types know is defined. -/
theorem exists_of_sketch {m : Module} (h : m.registries.2 = []) {name : String} {e : SumType}
    (he : m.sketch.get? name = some e) :
    ∃ d, m.registries.1.types.get? name = some d ∧ d.params.length = e.params.length := by
  obtain ⟨fs, hfs, hdefined⟩ :=
    Claims.usableDefinitions_blameless (c := (Claims.claimAll m .empty).2) m.entitled
  rw [registries_snd, List.append_eq_nil_iff, hfs, List.append_eq_nil_iff] at h
  have hmem : (name, e.params.length) ∈ m.entitled.filterMap Decl.outline? :=
    (TypeRegistry.mem_of_get?_foldl_outline he).resolve_right (by simp [TypeRegistry.get?_empty])
  rw [← hdefined h.1.2] at hmem
  obtain ⟨d, hd, hout⟩ := List.mem_map.1 hmem
  refine ⟨d.sumType m.sketch, ?_, ?_⟩
  · rw [registries_fst, Registries.get?_types_foldl_add m.definitions_apart]
    exact ⟨d, hd, d.fst_outline.symm.trans (congrArg Prod.fst hout), rfl⟩
  · exact (d.snd_outline m.sketch).symm.trans (congrArg Prod.snd hout)

theorem registries_errorFree {m : Module} (h : m.registries.2 = []) : m.registries.1.ErrorFree := by
  rw [registries_snd, List.append_eq_nil_iff] at h
  refine (Registries.define_gives (Unifier.sound_empty false) m.sketch m.definitions
    fun _ => ?_).2 h.2
  exact fun name d hd => by simp [Registries.empty, TypeRegistry.get?_empty] at hd

/-- Whatever a module declares, looking up names in what is collected of it leads to the definitions
that have them. If nothing is reported, fields mention known types and parameters only. -/
theorem registries_consistent (m : Module) :
    m.registries.1.Consistent ∧ (m.registries.2 = [] → m.registries.1.WellScoped) := by
  refine ⟨?_, fun h => ⟨fun hd v hv t ht a ha => ?_, ?_, registries_errorFree h⟩⟩
  · rw [registries_fst]
    exact Registries.consistent_foldl_add m.definitions_apart m.definitions_distinct
  · rw [registries_fst, Registries.get?_types_foldl_add m.definitions_apart] at hd
    obtain ⟨d, -, -, rfl⟩ := hd
    obtain ⟨e, he, hlength⟩ := d.fields_applied m.sketch v hv t ht a ha
    obtain ⟨e', he', hlength'⟩ := exists_of_sketch h he
    exact ⟨e', he', hlength'.trans hlength⟩
  · exact m.registries_defined.params _ _

/-- A type that mentions itself and its parameter, and a partial active pattern with such a list:
`type List<'a> = Nil | Cons('a, List<'a>)` and `active Few = Small(List<s32>) | _`. -/
def lists : Module :=
  let name := Name.mk .synthetic
  let list := fun t => TypeExpr.named .synthetic "List" [t]
  let item := TypeExpr.var .synthetic "a"
  [.type ⟨.synthetic, name "List", [name "a"], [⟨name "Nil", []⟩, ⟨name "Cons", [item, list item]⟩]⟩,
    .active ⟨.synthetic, name "Few", [⟨name "Small", [list (.named .synthetic "s32" [])]⟩], false,
      ⟨name "n", none⟩, .construct .synthetic (name "NoMatch") []⟩]

theorem lists_consistent : lists.registries.2 = [] ∧ lists.registries.1.Consistent ∧
    lists.registries.1.WellScoped :=
  have hnone : lists.registries.2 = [] := by decide +kernel
  ⟨hnone, lists.registries_consistent.1, lists.registries_consistent.2 hnone⟩

end Module

end RowCheck
