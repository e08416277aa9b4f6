import RowCheck.Proofs.SortedMap
import RowCheck.Proofs.Typing.Registries

/-!
The order of definitions. In a module in which nothing is defined twice, what each declaration
defines is told by itself and by the names and parameters of the other types; so the types and active
patterns of the module do not depend on the order of its declarations.
-/
namespace RowCheck

/-- The order of a list makes no difference to a fold if any two entries can be taken in either
order. -/
theorem foldl_perm {α β : Type} {f : β → α → β} {xs ys : List α} {b : β}
    (hcomm : xs.Pairwise fun x y => ∀ b, f (f b x) y = f (f b y) x) (h : xs.Perm ys) :
    xs.foldl f b = ys.foldl f b := by
  have : Std.Symm fun x y => ∀ b, f (f b x) y = f (f b y) x := ⟨fun _ _ h b => (h b).symm⟩
  exact h.foldl_eq' (fun x hx y hy b => hcomm.forall_of_forall (fun _ _ _ => rfl) hx hy b) b

/-- If no value is given twice, two entries of a list are not given the same. -/
theorem pairwise_of_nodup_filterMap {α β : Type} {f : α → Option β} {xs : List α}
    (h : (xs.filterMap f).Nodup) : xs.Pairwise fun x y => ∀ b, f x = some b → f y ≠ some b :=
  (List.pairwise_filterMap.1 h).imp fun hne b hx hy => hne b hx b hy rfl

/-! ## Registering -/

/-- A type is registered as the owner of its variants, in order, unless they have the reserved name. -/
theorem TypeRegistry.owners_insert (r : TypeRegistry) (d : SumType) : (r.insert d).owners =
    ((d.variants.map Variant.name).filter (fun n => n ≠ noMatch)).foldl
      (fun owners n => owners.insertNew n d.name) r.owners := by
  rw [List.foldl_filter, List.foldl_map]
  refine congrArg (fun f => d.variants.foldl f r.owners) ?_
  funext owners v
  by_cases h : v.name = noMatch <;> simp [h]

theorem TypeRegistry.insert_comm (r : TypeRegistry) {d e : SumType} (hname : d.name ≠ e.name)
    (hvariants : ∀ n ∈ d.variants.map Variant.name, n ∈ e.variants.map Variant.name → n = noMatch) :
    (r.insert d).insert e = (r.insert e).insert d := by
  have htypes : ((r.insert d).insert e).types = ((r.insert e).insert d).types :=
    r.types.insert_comm hname d e
  have howners : ((r.insert d).insert e).owners = ((r.insert e).insert d).owners := by
    simp only [owners_insert]
    refine SortedMap.foldl_insertNew_comm _ (fun n hd he => ?_) _ _
    obtain ⟨hd, hn⟩ := List.mem_filter.1 hd
    exact of_decide_eq_true hn (hvariants n hd (List.mem_filter.1 he).1)
  exact congrArg₂ TypeRegistry.mk htypes howners

theorem ActiveRegistry.insert_comm (r : ActiveRegistry) {p q : ActivePattern}
    (hname : p.name ≠ q.name) (hcases : p.cases.Disjoint q.cases) : (r.insert p).insert q = (r.insert q).insert p :=
  congrArg₂ ActiveRegistry.mk (r.patterns.insert_comm hname p q)
    (r.owners.foldl_insertNew_comm hcases _ _)

namespace Definition

/-- What the parameters of a definition stand for in the types of its fields. -/
def scope : Definition → List (String × Ty)
  | sum _ params _ => params.zipIdx.map (fun p => (p.1, Ty.var p.2))
  | active _ _ _ => []

/-- The variants of a definition with their fields resolved. -/
def resolved (outlines : TypeRegistry) (d : Definition) : List Variant :=
  ((VariantDecl.resolveAll outlines d.scope d.variants).run .empty).1

/-- The type that a definition registers. -/
def sumType (outlines : TypeRegistry) (d : Definition) : SumType :=
  match d with
  | sum name params _ => ⟨name, List.range params.length, d.resolved outlines⟩
  | active name total _ =>
    ⟨name, [], if total then d.resolved outlines else d.resolved outlines ++ [⟨noMatch, []⟩]⟩

/-- The active pattern that a definition registers, if it is one. -/
def pattern? : Definition → Option ActivePattern
  | sum _ _ _ => none
  | active name total cases => some ⟨name, cases.map (·.name.text), total⟩

/-- Whether two definitions have different names and no constructor in common. -/
structure Apart (d e : Definition) : Prop where
  name : d.name ≠ e.name
  constructors : d.constructors.Disjoint e.constructors

theorem Apart.symm {d e : Definition} (h : d.Apart e) : e.Apart d :=
  ⟨h.name.symm, h.constructors.symm⟩

theorem below_scope (d : Definition) : ∀ p ∈ d.scope, p.2.Below 0 := by
  cases d with
  | active name total cases => simp [scope]
  | sum name params vs =>
    intro p hp
    obtain ⟨q, -, rfl⟩ := List.mem_map.1 hp
    exact Ty.below_of_effects_eq_nil rfl

theorem name_sumType (outlines : TypeRegistry) (d : Definition) :
    (d.sumType outlines).name = d.name := by
  cases d <;> rfl

/-- The variant for what a partial active pattern does not classify. -/
def unclassified : Definition → List Variant
  | sum _ _ _ => []
  | active _ total _ => if total then [] else [⟨noMatch, []⟩]

theorem variants_sumType (outlines : TypeRegistry) (d : Definition) :
    (d.sumType outlines).variants = d.resolved outlines ++ d.unclassified := by
  cases d with
  | sum name params vs => exact (List.append_nil _).symm
  | active name total cases => cases total <;> simp [sumType, unclassified]

theorem names_resolved (outlines : TypeRegistry) (d : Definition) :
    (d.resolved outlines).map Variant.name = d.constructors :=
  (VariantDecl.resolveAll_spec outlines d.scope d.below_scope d.variants .empty).1

theorem names_sumType (outlines : TypeRegistry) (d : Definition) :
    (d.sumType outlines).variants.map Variant.name =
      d.constructors ++ d.unclassified.map Variant.name := by
  rw [variants_sumType, List.map_append, names_resolved]

theorem eq_noMatch_of_mem_unclassified {d : Definition} {n : String}
    (h : n ∈ d.unclassified.map Variant.name) : n = noMatch := by
  cases d with
  | sum name params vs => cases h
  | active name total cases => cases total <;> simp_all [unclassified]

theorem mem_variants_sumType {outlines : TypeRegistry} {d : Definition} {n : String}
    (h : n ∈ (d.sumType outlines).variants.map Variant.name) : n ∈ d.constructors ∨ n = noMatch := by
  rw [names_sumType, List.mem_append] at h
  exact h.imp_right eq_noMatch_of_mem_unclassified

end Definition

namespace Registries

/-- The registries with one definition more. -/
def add (outlines : TypeRegistry) (r : Registries) (d : Definition) : Registries where
  types := r.types.insert (d.sumType outlines)
  active := match d.pattern? with
    | some p => r.active.insert p
    | none => r.active

/-- Definitions are registered one after the other, whatever the state of unification. -/
theorem define_eq_foldl (outlines : TypeRegistry) (ds : List Definition) (r : Registries)
    (u : Unifier) : ((define outlines ds r).run u).1 = ds.foldl (add outlines) r := by
  induction ds generalizing r u with
  | nil => rfl
  | cons d ds ih =>
    have hresolved : ((VariantDecl.resolveAll outlines d.scope d.variants).run u).1 =
        d.resolved outlines :=
      VariantDecl.resolveAll_congr outlines d.scope d.below_scope d.variants u .empty
    rw [List.foldl_cons, ← ih _ ((VariantDecl.resolveAll outlines d.scope d.variants).run u).2]
    cases d with
    | sum name params vs =>
      rw [add, Definition.sumType, ← hresolved]
      rfl
    | active name total cases =>
      rw [add, Definition.sumType, ← hresolved]
      rfl

/-- Definitions that are apart can be registered in either order. -/
theorem add_comm (outlines : TypeRegistry) {d e : Definition} (h : d.Apart e) (r : Registries) :
    add outlines (add outlines r d) e = add outlines (add outlines r e) d := by
  have htypes : (add outlines (add outlines r d) e).types =
      (add outlines (add outlines r e) d).types := by
    refine TypeRegistry.insert_comm _ ?_ fun n hd he => ?_
    · rw [Definition.name_sumType, Definition.name_sumType]
      exact h.name
    · rcases Definition.mem_variants_sumType hd with hd | rfl
      · rcases Definition.mem_variants_sumType he with he | rfl
        · exact absurd he (h.constructors hd)
        · rfl
      · rfl
  have hactive : (add outlines (add outlines r d) e).active =
      (add outlines (add outlines r e) d).active := by
    cases d with
    | sum _ _ _ => rfl
    | active _ _ _ =>
      cases e with
      | sum _ _ _ => rfl
      | active _ _ _ => exact ActiveRegistry.insert_comm _ h.name h.constructors
  exact congrArg₂ Registries.mk htypes hactive

end Registries

/-! ## Collecting -/

/-- Whether a variant may be declared, as far as its name goes. -/
def VariantDecl.usable (v : VariantDecl) : Bool := v.name.text ≠ noMatch

namespace Decl

/-- The variants or cases that a declaration may declare. -/
def variants : Decl → List VariantDecl
  | fn _ => []
  | type d => d.variants.filter VariantDecl.usable
  | active d => d.cases.filter VariantDecl.usable

def constructors (d : Decl) : List String := d.variants.map (·.name.text)

/-- What a declaration defines if no name is taken. -/
def definition? (d : Decl) : Option Definition :=
  match d with
  | fn _ => none
  | type e => some (.sum e.name.text (e.params.map (·.text)) d.variants)
  | active e => if d.variants.isEmpty then none else some (.active e.name.text e.total d.variants)

theorem name_of_definition? {d : Decl} {e : Definition} (h : d.definition? = some e) :
    Claims.typeName? d = some e.name := by
  cases d with
  | fn _ => cases h
  | type _ =>
    cases h
    rfl
  | active _ =>
    rw [definition?] at h
    split at h <;> cases h
    rfl

theorem constructors_of_definition? {d : Decl} {e : Definition} (h : d.definition? = some e) :
    e.constructors = d.constructors := by
  cases d with
  | fn _ => cases h
  | type _ =>
    cases h
    rfl
  | active _ =>
    rw [definition?] at h
    split at h <;> cases h
    rfl

end Decl

/-- Whether nothing is defined twice in a module: no two values have one name, no two types, and no
two constructors. -/
structure Module.Distinct (m : Module) : Prop where
  values : ((m.filterMap Decl.valueName?).map (·.text)).Nodup
  types : (m.filterMap Claims.typeName?).Nodup
  constructors : (m.flatMap Decl.constructors).Nodup

theorem Module.Distinct.perm {m m' : Module} (h : m.Distinct) (hperm : m.Perm m') : m'.Distinct where
  values := ((hperm.filterMap _).map _).nodup_iff.1 h.values
  types := (hperm.filterMap _).nodup_iff.1 h.types
  constructors := (hperm.flatMap_right _).nodup_iff.1 h.constructors

namespace Claims

variable {c : Claims}

/-! The names of types are claimed first. -/

theorem claimType_fresh {name : Name} (h : c.types.get? name.text = none) :
    c.Yields (claimType name) fun free c' => free = true ∧
      c'.types = c.types.insert name.text name.span ∧ c'.constructors = c.constructors := by
  unfold claimType
  refine .get_bind ?_
  rw [h]
  exact ⟨rfl, rfl, rfl⟩

/-- If the names of types are distinct and none is taken, each declaration of a type defines one. -/
theorem claimAll_unclaimed {ds : List Decl} (h : c.Unclaimed ds) :
    c.Yields (claimAll ds) fun owners c' =>
      owners = ds.filter (fun d => (typeName? d).isSome) ∧ c'.constructors = c.constructors := by
  induction ds generalizing c with
  | nil => exact .pure ⟨rfl, rfl⟩
  | cons d ds ih =>
    have htyped : ∀ {name : Name} {c₁ : Claims}, typeName? d = some name.text → c.Keeps c₁ →
        c₁.Yields (do
          let free ← claimType name
          let rest ← claimAll ds
          return if free then d :: rest else rest)
          fun owners c' => owners = (d :: ds).filter (fun d => (typeName? d).isSome) ∧
            c'.constructors = c.constructors := by
      intro name c₁ hname h₁
      obtain ⟨hnodup, hfresh⟩ := h
      rw [List.filterMap_cons_some hname] at hfresh hnodup
      rw [List.forall_mem_cons] at hfresh
      rw [List.nodup_cons] at hnodup
      refine (claimType_fresh (h₁.types ▸ hfresh.1)).bind fun free c₂ ⟨hfree, ht, hc⟩ => ?_
      subst hfree
      have hrest : ∀ other ∈ ds.filterMap typeName?, c₂.types.get? other = none := by
        intro other hother
        have hne : name.text ≠ other := fun he => hnodup.1 (he ▸ hother)
        rw [ht, SortedMap.get?_insert, if_neg hne, h₁.types, hfresh.2 other hother]
      refine (ih ⟨hnodup.2, hrest⟩).bind fun owners c₃ ⟨howners, h₃⟩ => .pure ⟨?_, ?_⟩
      · rw [List.filter_cons_of_pos (by rw [hname]; rfl), howners]
        rfl
      · rw [h₃, hc, h₁.constructors]
    cases d with
    | fn d =>
      unfold claimAll
      refine (checkName_keeps d.name).bind fun _ c₁ h₁ => ?_
      refine (claimValue_keeps d.name).bind fun _ c₂ h₂ => ?_
      have hkeeps := h₁.trans h₂
      refine (ih ⟨h.nodup, hkeeps.types ▸ h.fresh⟩).imp fun _ _ ⟨howners, hc⟩ => ⟨howners, ?_⟩
      rw [hc, hkeeps.constructors]
    | type d =>
      unfold claimAll
      refine (checkName_keeps d.name).bind fun _ c₁ h₁ => ?_
      exact (checkNames_keeps d.params).bind fun _ c₂ h₂ => htyped rfl (h₁.trans h₂)
    | active d =>
      unfold claimAll
      refine (checkName_keeps d.name).bind fun _ c₁ h₁ => ?_
      exact (claimValue_keeps d.name).bind fun _ c₂ h₂ => htyped rfl (h₁.trans h₂)

/-! Then those of constructors. -/

/-- Whether an action gives some answer if some names are not taken, and takes no other names. -/
def Takes {α : Type} (m : StateM Claims α) (a : α) (names : List String) : Prop :=
  ∀ c : Claims, (∀ n ∈ names, c.constructors.get? n = none) → c.Yields m fun b c' =>
    b = a ∧ ∀ n, n ∉ names → c'.constructors.get? n = c.constructors.get? n

namespace Takes

variable {α β : Type} {m : StateM Claims α} {f : α → StateM Claims β} {a : α} {b : β}
  {names names' : List String}

theorem pure (a : α) : Takes (pure a) a [] := fun _ _ => ⟨rfl, fun _ _ => rfl⟩

theorem bind (h : Takes m a names) (hf : Takes (f a) b names') (hnodup : (names ++ names').Nodup) :
    Takes (m >>= f) b (names ++ names') := by
  intro c hfresh
  rw [List.forall_mem_append] at hfresh
  refine (h c hfresh.1).bind fun a' c₁ ⟨ha, h₁⟩ => ?_
  subst ha
  have hdisjoint := List.disjoint_of_nodup_append hnodup
  have hfresh' : ∀ n ∈ names', c₁.constructors.get? n = none := fun n hn =>
    (h₁ n fun hn' => hdisjoint hn' hn).trans (hfresh.2 n hn)
  refine (hf c₁ hfresh').imp fun b' c₂ ⟨hb, h₂⟩ => ⟨hb, fun n hn => ?_⟩
  rw [List.mem_append, not_or] at hn
  exact (h₂ n hn.2).trans (h₁ n hn.1)

theorem map (h : Takes m a names) (g : α → β) :
    Takes (m >>= fun a => Pure.pure (g a)) (g a) names := fun c hfresh =>
  (h c hfresh).bind fun _ _ ⟨ha, hn⟩ => .pure ⟨congrArg g ha, hn⟩

theorem report_bind {d : Diagnostic} {f : Unit → StateM Claims β} (h : Takes (f ()) b names) :
    Takes (report d >>= f) b names := fun _ hfresh =>
  .report_bind fun c' hc' => (h c' fun n hn => hc' ▸ hfresh n hn).imp fun _ _ ⟨hb, hn⟩ =>
    ⟨hb, fun n hmem => hc' ▸ hn n hmem⟩

end Takes

/-- The names of the variants that may be declared. -/
def usableNames (vs : List VariantDecl) : List String :=
  (vs.filter VariantDecl.usable).map (·.name.text)

theorem usableNames_cons (v : VariantDecl) (vs : List VariantDecl) :
    usableNames (v :: vs) = usableNames [v] ++ usableNames vs := by
  rw [usableNames, usableNames, usableNames, ← List.map_append, ← List.filter_append,
    List.singleton_append]

theorem claimConstructor_takes (v : VariantDecl) :
    Takes (claimConstructor v.name) v.usable (usableNames [v]) := by
  intro c hfresh
  unfold claimConstructor
  refine (checkName_keeps v.name).bind fun _ c₁ ⟨_, h₁⟩ => ?_
  split
  · rename_i hname
    refine .report_bind fun c₂ h₂ => .pure ⟨by simp [VariantDecl.usable, hname], fun n _ => ?_⟩
    rw [h₂, h₁]
  · rename_i hname
    have husable : v.usable = true := by simpa [VariantDecl.usable] using hname
    rw [usableNames, List.filter_cons_of_pos husable] at hfresh ⊢
    refine .get_bind ?_
    rw [h₁, hfresh v.name.text (by simp)]
    refine ⟨husable.symm, fun n hn => ?_⟩
    have hne : v.name.text ≠ n := fun he => hn (by simp [he])
    exact (SortedMap.get?_insert ..).trans (if_neg hne)

theorem usableVariants_takes {vs : List VariantDecl} (h : (usableNames vs).Nodup) :
    Takes (usableVariants vs) (vs.filter VariantDecl.usable) (usableNames vs) := by
  induction vs with
  | nil => exact .pure _
  | cons v vs ih =>
    rw [usableNames_cons] at h ⊢
    have hrest := (ih (List.Nodup.of_append_right h)).map fun rest =>
      if v.usable then v :: rest else rest
    unfold usableVariants
    refine (claimConstructor_takes v).bind ?_ h
    rwa [List.filter_cons]

theorem usableCases_takes (pattern : Name) {seen : SortedMap String Span} {vs : List VariantDecl}
    (h : (usableNames vs).Nodup) (hseen : ∀ n ∈ usableNames vs, seen.get? n = none) :
    Takes (usableCases pattern seen vs) (vs.filter VariantDecl.usable) (usableNames vs) := by
  induction vs generalizing seen with
  | nil => exact .pure _
  | cons v vs ih =>
    rw [usableNames_cons] at h hseen ⊢
    rw [List.forall_mem_append] at hseen
    have hnodup := List.Nodup.of_append_right h
    unfold usableCases
    split
    · rename_i hname
      have hnot : ¬ v.usable = true := by simp [VariantDecl.usable, hname]
      have hnone : usableNames [v] = [] := by rw [usableNames, List.filter_cons_of_neg hnot]; rfl
      rw [hnone, List.nil_append, List.filter_cons_of_neg hnot]
      exact .report_bind (ih hnodup hseen.2)
    · rename_i hname
      have husable : v.usable = true := by simpa [VariantDecl.usable] using hname
      have hmem : v.name.text ∈ usableNames [v] := by
        rw [usableNames, List.filter_cons_of_pos husable]
        exact List.mem_cons_self
      rw [hseen.1 v.name.text hmem]
      have hrest : ∀ n ∈ usableNames vs, (seen.insert v.name.text v.name.span).get? n = none := by
        intro n hn
        have hne : v.name.text ≠ n := by
          rintro rfl
          exact List.disjoint_of_nodup_append h hmem hn
        rw [SortedMap.get?_insert, if_neg hne, hseen.2 n hn]
      refine (claimConstructor_takes v).bind ?_ h
      rw [List.filter_cons]
      exact (ih hnodup hrest).map fun rest => if v.usable then v :: rest else rest

theorem usableDefinitions_takes {ds : List Decl} (h : (ds.flatMap Decl.constructors).Nodup) :
    Takes (usableDefinitions ds) (ds.filterMap Decl.definition?) (ds.flatMap Decl.constructors) := by
  induction ds with
  | nil => exact .pure _
  | cons d ds ih =>
    rw [List.flatMap_cons] at h ⊢
    have hd := List.Nodup.of_append_left h
    have hrest := ih (List.Nodup.of_append_right h)
    cases d with
    | fn d => exact hrest
    | type d =>
      unfold usableDefinitions
      exact (usableVariants_takes hd).bind (hrest.map (_ :: ·)) h
    | active d =>
      have hclose : Takes (do
          let rest ← usableDefinitions ds
          return if (d.cases.filter VariantDecl.usable).isEmpty then rest else
            .active d.name.text d.total (d.cases.filter VariantDecl.usable) :: rest)
          ((Decl.active d :: ds).filterMap Decl.definition?) (ds.flatMap Decl.constructors) := by
        have hanswer : (Decl.active d :: ds).filterMap Decl.definition? =
            if (d.cases.filter VariantDecl.usable).isEmpty then ds.filterMap Decl.definition? else
              .active d.name.text d.total (d.cases.filter VariantDecl.usable) ::
                ds.filterMap Decl.definition? := by
          rw [List.filterMap_cons, Decl.definition?, Decl.variants]
          by_cases hempty : (d.cases.filter VariantDecl.usable).isEmpty = true <;>
            simp only [hempty] <;> rfl
        rw [hanswer]
        exact hrest.map _
      unfold usableDefinitions
      dsimp only
      split
      · rename_i hempty
        have hnil := List.isEmpty_iff.1 hempty
        have hnone : (Decl.active d).constructors = [] := by
          simp [Decl.constructors, Decl.variants, hnil]
        rw [hnone, List.nil_append]
        rw [hnil] at hclose
        exact .report_bind hclose
      · exact (usableCases_takes d.name hd fun _ _ => rfl).bind hclose h

end Claims

namespace Module

/-- The declarations of types and active patterns. -/
def owners (m : Module) : List Decl := m.filter fun d => (Claims.typeName? d).isSome

/-- The names and numbers of parameters of the types of a module in which nothing is defined twice. -/
def outlines (m : Module) : TypeRegistry :=
  m.owners.foldl TypeRegistry.outline .empty

/-- What is not a type or an active pattern defines nothing. -/
theorem filterMap_owners (m : Module) :
    m.owners.filterMap Decl.definition? = m.filterMap Decl.definition? := by
  rw [owners, List.filterMap_filter]
  refine List.filterMap_congr fun d _ => ?_
  cases d <;> rfl

theorem constructors_owners_sublist (m : Module) :
    (m.owners.flatMap Decl.constructors).Sublist (m.flatMap Decl.constructors) :=
  List.filter_sublist.flatMap _

/-- If nothing is defined twice, a module defines what its declarations do. -/
theorem registries_eq_foldl {m : Module} (h : m.Distinct) : m.registries.1 =
    (m.filterMap Decl.definition?).foldl (Registries.add m.outlines) .empty := by
  obtain ⟨howners, hclaims⟩ : (Claims.claimAll m .empty).1 = m.owners ∧
      (Claims.claimAll m .empty).2.constructors = ∅ :=
    Claims.claimAll_unclaimed ⟨h.types, fun _ _ => rfl⟩
  have hdefinitions : (Claims.usableDefinitions m.owners
      (Claims.claimAll m .empty).2).1 = m.filterMap Decl.definition? := by
    rw [← filterMap_owners]
    refine (Claims.usableDefinitions_takes (h.constructors.sublist m.constructors_owners_sublist) _
      fun n _ => ?_).1
    rw [hclaims, SortedMap.get?_empty]
  have hregistries : m.registries.1 = ((Registries.define
      ((Claims.claimAll m .empty).1.foldl TypeRegistry.outline .empty)
      (Claims.usableDefinitions (Claims.claimAll m .empty).1 (Claims.claimAll m .empty).2).1
      .empty).run .empty).1 := rfl
  rw [hregistries, Registries.define_eq_foldl, howners, hdefinitions]
  rfl

theorem outline_comm {d e : Decl}
    (h : ∀ n, Claims.typeName? d = some n → Claims.typeName? e ≠ some n) (r : TypeRegistry) : (r.outline d).outline e = (r.outline e).outline d := by
  have hinsert : ∀ {n k : String} (ps qs : List TyVar), n ≠ k →
      (r.insert ⟨n, ps, []⟩).insert ⟨k, qs, []⟩ = (r.insert ⟨k, qs, []⟩).insert ⟨n, ps, []⟩ :=
    fun ps qs hne => r.insert_comm hne fun _ hn => nomatch hn
  cases d <;> cases e <;> first | rfl | exact hinsert _ _ fun he => h _ rfl (congrArg some he.symm)

/-- Two declarations of a module in which nothing is defined twice have different names. -/
theorem Distinct.pairwise_typeName {m : Module} (h : m.Distinct) :
    m.Pairwise fun d e => ∀ n, Claims.typeName? d = some n → Claims.typeName? e ≠ some n :=
  pairwise_of_nodup_filterMap h.types

theorem Distinct.pairwise_apart {m : Module} (h : m.Distinct) :
    (m.filterMap Decl.definition?).Pairwise Definition.Apart := by
  have hconstructors := (List.nodup_flatMap.1 h.constructors).2
  refine List.pairwise_filterMap.2 ((h.pairwise_typeName.and hconstructors).imp ?_)
  intro d e ⟨hname, hdisjoint⟩ d' hd e' he
  refine ⟨fun hsame => hname _ (Decl.name_of_definition? hd) ?_, ?_⟩
  · rw [hsame, Decl.name_of_definition? he]
  · rw [Decl.constructors_of_definition? hd, Decl.constructors_of_definition? he]
    exact hdisjoint

/-- The definitions of a module in which nothing is defined twice do not depend on its order. -/
theorem registries_perm {m m' : Module} (h : m.Distinct) (hperm : m.Perm m') :
    m.registries.1 = m'.registries.1 := by
  have houtlines : m.outlines = m'.outlines :=
    foldl_perm ((h.pairwise_typeName.imp fun hne => outline_comm hne).filter _) (hperm.filter _)
  rw [registries_eq_foldl h, registries_eq_foldl (h.perm hperm), ← houtlines]
  exact foldl_perm (h.pairwise_apart.imp fun hapart => Registries.add_comm m.outlines hapart)
    (hperm.filterMap _)

end Module

end RowCheck
