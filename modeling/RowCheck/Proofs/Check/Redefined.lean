import RowCheck.Proofs.Check.Consistent

/-!
Looking up constructors and cases after any definitions, redefinitions included. A registry replaces
a definition of the same name, but a name that has an owner keeps it. So what is found under a name
is told by the definition that declared it first: it is what the name of that definition stands for
by now, and as long as no redefinition drops the name, it declares it.
-/
namespace RowCheck

namespace SumType

/-- Whether a type has a constructor of a name. The reserved name is none. -/
def Declares (d : SumType) (c : String) : Prop :=
  c ≠ noMatch ∧ c ∈ d.variants.map Variant.name

instance (d : SumType) (c : String) : Decidable (d.Declares c) :=
  inferInstanceAs (Decidable (_ ∧ _))

theorem isSome_variant? {d : SumType} {c : String} :
    (d.variant? c).isSome = true ↔ c ∈ d.variants.map Variant.name := by
  simp [variant?]

end SumType

namespace TypeRegistry

theorem constructor?_eq_some_iff {r : TypeRegistry} {c : String} {d : SumType} {v : Variant} :
    r.constructor? c = some (d, v) ↔
      ∃ name, r.owners.get? c = some name ∧ r.get? name = some d ∧ d.variant? c = some v := by
  simp only [constructor?, get?, Option.bind_eq_bind, Option.bind_eq_some_iff, Option.pure_def,
    Option.some.injEq, Prod.mk.injEq]
  constructor
  · rintro ⟨name, hname, e, he, w, hw, rfl, rfl⟩
    exact ⟨name, hname, he, hw⟩
  · rintro ⟨name, hname, he, hw⟩
    exact ⟨name, hname, d, he, v, hw, rfl, rfl⟩

theorem types_foldl_insert (ds : List SumType) (r : TypeRegistry) :
    (ds.foldl insert r).types =
      (ds.map fun d => (d.name, d)).foldl (fun m e => m.insert e.1 e.2) r.types := by
  rw [List.foldl_map]
  exact (List.foldl_hom types fun _ _ => rfl).symm

theorem mem_of_get?_foldl_insert {ds : List SumType} {name : String} {d : SumType}
    (h : (ds.foldl insert .empty).get? name = some d) : d ∈ ds ∧ d.name = name := by
  rw [get?, types_foldl_insert] at h
  have hmem := (SortedMap.get?_foldl_insert h).resolve_right (by simp [empty])
  obtain ⟨e, he, heq⟩ := List.mem_map.1 hmem
  cases heq
  exact ⟨he, rfl⟩

/-- A name that has been defined stands for a definition, the one given first or another. -/
theorem exists_get?_foldl_insert {ds : List SumType} {d : SumType} (h : d ∈ ds) :
    ∃ e, (ds.foldl insert .empty).get? d.name = some e := by
  rw [← Option.isSome_iff_exists, get?, types_foldl_insert]
  exact SortedMap.isSome_get?_foldl_insert (.inl (by simpa using ⟨d, h, rfl⟩))

/-- The owner of a constructor is the first type that declared it, whatever came afterwards. -/
theorem get?_owners_foldl_insert (ds : List SumType) (r : TypeRegistry) (c : String) :
    (ds.foldl insert r).owners.get? c =
      (r.owners.get? c).or ((ds.find? fun d => d.Declares c).map SumType.name) := by
  induction ds generalizing r with
  | nil => simp
  | cons d ds ih =>
    have hmem : c ∈ (d.variants.map Variant.name).filter (fun n => n ≠ noMatch) ↔ d.Declares c := by
      rw [List.mem_filter, decide_eq_true_iff, SumType.Declares, and_comm]
    rw [List.foldl_cons, ih, owners_insert, SortedMap.get?_foldl_insertNew, List.find?_cons]
    simp only [hmem]
    by_cases hd : d.Declares c
    · cases r.owners.get? c <;> simp [hd]
    · simp [hd]

/-- What is found under a name: what the name of the first type that declared it stands for now, if
that type still has the variant. -/
theorem constructor?_foldl_insert {ds : List SumType} {c : String} {d : SumType} {v : Variant} :
    (ds.foldl insert .empty).constructor? c = some (d, v) ↔
      ∃ o, ds.find? (fun e => e.Declares c) = some o ∧
        (ds.foldl insert .empty).get? o.name = some d ∧ d.variant? c = some v := by
  simp [constructor?_eq_some_iff, get?_owners_foldl_insert, empty]

/-- If no redefinition drops a constructor, it is found just when some type has it. -/
theorem isSome_constructor?_foldl_insert {ds : List SumType} {c : String}
    (hkeeps : ∀ d ∈ ds, ∀ e ∈ ds, e.name = d.name → d.Declares c → e.Declares c) :
    ((ds.foldl insert .empty).constructor? c).isSome = true ↔
      ∃ name d, (ds.foldl insert .empty).get? name = some d ∧ d.Declares c := by
  rw [Option.isSome_iff_exists]
  constructor
  · rintro ⟨⟨d, v⟩, h⟩
    obtain ⟨o, ho, hd, hv⟩ := constructor?_foldl_insert.1 h
    have hdeclares : o.Declares c := by simpa using List.find?_some ho
    exact ⟨o.name, d, hd, hdeclares.1, SumType.isSome_variant?.1 (by rw [hv]; rfl)⟩
  · rintro ⟨name, d, hd, hc⟩
    obtain ⟨o, ho⟩ : ∃ o, ds.find? (fun e => e.Declares c) = some o := by
      rw [← Option.isSome_iff_exists, List.find?_isSome]
      exact ⟨d, (mem_of_get?_foldl_insert hd).1, decide_eq_true hc⟩
    have hmem := List.mem_of_find?_eq_some ho
    obtain ⟨e, he⟩ := exists_get?_foldl_insert hmem
    obtain ⟨hin, hname⟩ := mem_of_get?_foldl_insert he
    have hdeclares := hkeeps o hmem e hin hname (by simpa using List.find?_some ho)
    obtain ⟨v, hv⟩ := Option.isSome_iff_exists.1 (SumType.isSome_variant?.2 hdeclares.2)
    exact ⟨(e, v), constructor?_foldl_insert.2 ⟨o, ho, he, hv⟩⟩

end TypeRegistry

namespace ActiveRegistry

theorem ofCase?_eq_some_iff {r : ActiveRegistry} {c : String} {p : ActivePattern} :
    r.ofCase? c = some p ↔ ∃ name, r.owners.get? c = some name ∧ r.get? name = some p := by
  simp [ofCase?, get?, Option.bind_eq_some_iff]

theorem mem_of_get?_foldl_insert {ps : List ActivePattern} {name : String} {p : ActivePattern}
    (h : (ps.foldl insert .empty).get? name = some p) : p ∈ ps ∧ p.name = name := by
  rw [get?, Registries.patterns_foldl_insert] at h
  have hmem := (SortedMap.get?_foldl_insert h).resolve_right (by simp [empty])
  obtain ⟨q, hq, heq⟩ := List.mem_map.1 hmem
  cases heq
  exact ⟨hq, rfl⟩

/-- A name that has been defined stands for a pattern, the one given first or another. -/
theorem exists_get?_foldl_insert {ps : List ActivePattern} {p : ActivePattern} (h : p ∈ ps) :
    ∃ q, (ps.foldl insert .empty).get? p.name = some q := by
  rw [← Option.isSome_iff_exists, get?, Registries.patterns_foldl_insert]
  exact SortedMap.isSome_get?_foldl_insert (.inl (by simpa using ⟨p, h, rfl⟩))

/-- The owner of a case is the first pattern that declared it, whatever came afterwards. -/
theorem get?_owners_foldl_insert (ps : List ActivePattern) (r : ActiveRegistry) (c : String) :
    (ps.foldl insert r).owners.get? c =
      (r.owners.get? c).or ((ps.find? fun p => c ∈ p.cases).map ActivePattern.name) := by
  induction ps generalizing r with
  | nil => simp
  | cons p ps ih =>
    rw [List.foldl_cons, ih, insert, SortedMap.get?_foldl_insertNew, List.find?_cons]
    by_cases hp : c ∈ p.cases
    · cases r.owners.get? c <;> simp [hp]
    · simp [hp]

/-- What is found under a case: what the name of the first pattern that declared it stands for now.
-/
theorem ofCase?_foldl_insert {ps : List ActivePattern} {c : String} {p : ActivePattern} :
    (ps.foldl insert .empty).ofCase? c = some p ↔
      ∃ o, ps.find? (fun q => c ∈ q.cases) = some o ∧
        (ps.foldl insert .empty).get? o.name = some p := by
  simp [ofCase?_eq_some_iff, get?_owners_foldl_insert, empty]

section

variable {ps : List ActivePattern} {c : String}
  (hkeeps : ∀ p ∈ ps, ∀ q ∈ ps, q.name = p.name → c ∈ p.cases → c ∈ q.cases)

include hkeeps in
/-- If no redefinition drops a case, the pattern that is found has it. -/
theorem mem_cases_of_ofCase?_foldl_insert {p : ActivePattern}
    (h : (ps.foldl insert .empty).ofCase? c = some p) : c ∈ p.cases := by
  obtain ⟨o, ho, hp⟩ := ofCase?_foldl_insert.1 h
  obtain ⟨hmem, hname⟩ := mem_of_get?_foldl_insert hp
  exact hkeeps o (List.mem_of_find?_eq_some ho) p hmem hname (by simpa using List.find?_some ho)

include hkeeps in
/-- If no redefinition drops a case, it is found just when some pattern has it. -/
theorem isSome_ofCase?_foldl_insert : ((ps.foldl insert .empty).ofCase? c).isSome = true ↔
    ∃ name p, (ps.foldl insert .empty).get? name = some p ∧ c ∈ p.cases := by
  rw [Option.isSome_iff_exists]
  constructor
  · rintro ⟨p, h⟩
    obtain ⟨o, -, hp⟩ := ofCase?_foldl_insert.1 h
    exact ⟨o.name, p, hp, mem_cases_of_ofCase?_foldl_insert hkeeps h⟩
  · rintro ⟨name, p, hp, hc⟩
    obtain ⟨o, ho⟩ : ∃ o, ps.find? (fun q => c ∈ q.cases) = some o := by
      rw [← Option.isSome_iff_exists, List.find?_isSome]
      exact ⟨p, (mem_of_get?_foldl_insert hp).1, decide_eq_true hc⟩
    obtain ⟨q, hq⟩ := exists_get?_foldl_insert (List.mem_of_find?_eq_some ho)
    exact ⟨q, ofCase?_foldl_insert.2 ⟨o, ho, hq⟩⟩

end

end ActiveRegistry

section

variable (ds : List SumType) (ps : List ActivePattern) (c : String)

/-- Looking up a constructor or a case after any definitions, in the order in which they were
inserted. What is found is told by the first definition that declared the name: it is the definition
registered under the name of that one, for a constructor only if it still has the variant. If no
redefinition drops the name, something is found just when a registered definition declares it, and
what is found declares it. -/
theorem lookups_foldl_insert :
    (∀ d v, (ds.foldl TypeRegistry.insert .empty).constructor? c = some (d, v) ↔
      ∃ o, ds.find? (fun e => e.Declares c) = some o ∧
        (ds.foldl TypeRegistry.insert .empty).get? o.name = some d ∧ d.variant? c = some v) ∧
    (∀ p, (ps.foldl ActiveRegistry.insert .empty).ofCase? c = some p ↔
      ∃ o, ps.find? (fun q => c ∈ q.cases) = some o ∧
        (ps.foldl ActiveRegistry.insert .empty).get? o.name = some p) ∧
    ((∀ d ∈ ds, ∀ e ∈ ds, e.name = d.name → d.Declares c → e.Declares c) →
      (((ds.foldl TypeRegistry.insert .empty).constructor? c).isSome = true ↔
        ∃ name d, (ds.foldl TypeRegistry.insert .empty).get? name = some d ∧ d.Declares c)) ∧
    ((∀ p ∈ ps, ∀ q ∈ ps, q.name = p.name → c ∈ p.cases → c ∈ q.cases) →
      (((ps.foldl ActiveRegistry.insert .empty).ofCase? c).isSome = true ↔
        ∃ name p, (ps.foldl ActiveRegistry.insert .empty).get? name = some p ∧ c ∈ p.cases) ∧
      ∀ p, (ps.foldl ActiveRegistry.insert .empty).ofCase? c = some p → c ∈ p.cases) :=
  ⟨fun _ _ => TypeRegistry.constructor?_foldl_insert, fun _ => ActiveRegistry.ofCase?_foldl_insert,
    TypeRegistry.isSome_constructor?_foldl_insert, fun hkeeps =>
      ⟨ActiveRegistry.isSome_ofCase?_foldl_insert hkeeps, fun _ =>
        ActiveRegistry.mem_cases_of_ofCase?_foldl_insert hkeeps⟩⟩

end

/-- A type and a pattern that are given another constructor and another case, and keep the one that
they had. -/
theorem extended_lookups :
    (((([⟨"T", [], [⟨"A", []⟩]⟩, ⟨"T", [], [⟨"A", []⟩, ⟨"B", []⟩]⟩] : List SumType).foldl
        TypeRegistry.insert .empty).constructor? "A").isSome = true) ∧
      ∀ p, (([⟨"P", ["A"], true⟩, ⟨"P", ["B", "A"], true⟩] : List ActivePattern).foldl
        ActiveRegistry.insert .empty).ofCase? "A" = some p → "A" ∈ p.cases := by
  have h := lookups_foldl_insert [⟨"T", [], [⟨"A", []⟩]⟩, ⟨"T", [], [⟨"A", []⟩, ⟨"B", []⟩]⟩]
    [⟨"P", ["A"], true⟩, ⟨"P", ["B", "A"], true⟩] "A"
  exact ⟨(h.2.2.1 (by decide)).2 ⟨"T", _, rfl, by decide⟩, (h.2.2.2 (by decide)).2⟩

/-- Types that are defined one after the other: `T = A`, then `T = B`, then `U = A`. -/
def redefinedTypes : List SumType :=
  [⟨"T", [], [⟨"A", []⟩]⟩, ⟨"T", [], [⟨"B", []⟩]⟩, ⟨"U", [], [⟨"A", []⟩]⟩]

/-- A pattern that is defined with the case `A`, then with the case `B`. -/
def redefinedPatterns : List ActivePattern := [⟨"P", ["A"], true⟩, ⟨"P", ["B"], true⟩]

/-- A constructor that its first owner has dropped is not found in the type that declares it by now,
and the pattern that is found under a case need not have it. -/
theorem dropped_lookups :
    ((redefinedTypes.foldl TypeRegistry.insert .empty).constructor? "A" = none ∧
      (redefinedTypes.foldl TypeRegistry.insert .empty).get? "U" = some ⟨"U", [], [⟨"A", []⟩]⟩) ∧
      (redefinedPatterns.foldl ActiveRegistry.insert .empty).ofCase? "A" =
        some ⟨"P", ["B"], true⟩ := by
  decide

end RowCheck
