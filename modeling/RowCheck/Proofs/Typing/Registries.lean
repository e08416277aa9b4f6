import RowCheck.Proofs.Infer.Rules
import RowCheck.Proofs.Typing.Checker

/-!
What typing relies on of the definitions of a module: fields mention only the parameters of their
type, and an active pattern classifies into a type of its own. The definitions that any module
collects are such.
-/
namespace RowCheck

namespace SortedMap

variable {κ ν μ : Type} [LT κ] [DecidableLT κ] [Std.Trichotomous (α := κ) (· < ·)]
  [Std.Irrefl (α := κ) (· < ·)] [DecidableEq κ] [Trans (α := κ) (· < ·) (· < ·) (· < ·)]

theorem get?_ofList_map (f : ν → μ) (l : List (κ × ν)) (k : κ) :
    (ofList (l.map fun e => (e.1, f e.2))).get? k = ((ofList l).get? k).map f := by
  suffices h : ∀ (m : SortedMap κ ν) (m' : SortedMap κ μ),
      (∀ k, m'.get? k = (m.get? k).map f) → ∀ k,
      ((l.map fun e => (e.1, f e.2)).foldl (fun m e => m.insert e.1 e.2) m').get? k =
        ((l.foldl (fun m e => m.insert e.1 e.2) m).get? k).map f from h ∅ ∅ (fun _ => rfl) k
  induction l with
  | nil => exact fun _ _ h => h
  | cons e l ih =>
    refine fun m m' h => ih _ _ fun k => ?_
    simp only [get?_insert, h]
    split <;> rfl

end SortedMap

/-- Whether an active pattern has a type of its own, with a case for the values that it does not
classify. -/
def Registries.Owns (r : Registries) (p : ActivePattern) : Prop :=
  ∃ d, r.types.get? p.name = some d ∧ d.params = [] ∧
    (p.total = false → d.variant? noMatch = some ⟨noMatch, []⟩)

/-- Whether definitions stand under their own names, fields mention only the parameters of their
type, and active patterns have types of their own. -/
structure Registries.Defined (r : Registries) : Prop where
  named : r.types.Named
  rowsClosed : r.RowsClosed
  params : ∀ name d, r.types.get? name = some d → ∀ v ∈ d.variants, ∀ t ∈ v.fields,
    ∀ w ∈ t.vars, w ∈ d.params
  owned : ∀ name p, r.active.get? name = some p → r.Owns p

/-- Whether no field has the type of a failed expression within. -/
def Registries.ErrorFree (r : Registries) : Prop :=
  ∀ name d, r.types.get? name = some d → ∀ v ∈ d.variants, ∀ t ∈ v.fields, t.containsError = false

theorem Registries.errorFree_of_types {r : Registries}
    (h : ∀ d ∈ r.types.toList, ∀ v ∈ d.variants, ∀ t ∈ v.fields, t.containsError = false) :
    r.ErrorFree := by
  intro name d hd
  obtain ⟨e, he, rfl⟩ := Option.map_eq_some_iff.1 hd
  exact h e.2 (List.mem_map.2 ⟨e, List.mem_of_find?_eq_some he, rfl⟩)

namespace SumType

variable {d : SumType} {v : Variant} {u : Unifier}

theorem name_of_variant? {name : String} (h : d.variant? name = some v) : v.name = name := by
  simpa using List.find?_some h

/-- The fields of a variant are known if the arguments of its type are. -/
theorem knows_fieldsAt (hr : ∀ t ∈ v.fields, t.rows = [])
    (hp : ∀ t ∈ v.fields, t.containsError = false) {args : List Ty}
    (ha : ∀ t ∈ args, u.Knows t) : ∀ t ∈ d.fieldsAt v args, u.Knows t := by
  refine fun t ht => ⟨fieldsAt_below hr (fun t ht => (ha t ht).below) t ht, fun he => ?_⟩
  obtain ⟨t, hmem, rfl⟩ := List.mem_map.1 ht
  rw [Ty.replace, Ty.mapVars_proper]
  refine ⟨hp t hmem, fun w _ => ?_⟩
  cases hw : (d.instantiation args).get? w with
  | none => rfl
  | some a => exact (ha a (List.of_mem_zip (SortedMap.mem_of_get?_ofList hw)).2).proper he

/-- What the fields of a variant stand for fits what the arguments of its type stand for. -/
theorem fieldsFit_apply (hr : ∀ t ∈ v.fields, t.rows = []) (u : Unifier) (args : List Ty) :
    d.FieldsFit v (args.map u.apply) ((d.fieldsAt v args).map u.apply) := by
  refine ⟨fun w => u.apply (((d.instantiation args).get? w).getD (.var w)), fun w t hw => ?_, ?_⟩
  · rw [instantiation, List.zip_map_right] at hw
    obtain ⟨a, ha, rfl⟩ := Option.map_eq_some_iff.1
      ((SortedMap.get?_ofList_map u.apply (d.params.zip args) w).symm.trans hw)
    simp only [instantiation, ha, Option.getD_some]
  · rw [fieldsAt, List.map_map]
    refine List.map_congr_left fun t ht => ?_
    rw [Function.comp_apply, Ty.replace, Unifier.apply, Substitution.apply_eq_mapVars,
      Ty.mapVars_mapVars]
    refine Ty.mapVars_congr (fun w _ => (Substitution.apply_eq_mapVars ..).symm) fun e he => ?_
    refine Substitution.findRow_closed ?_
    cases htail : e.tail with
    | none => exact htail
    | some w => exact absurd (Ty.rows_eq_nil_iff.1 (hr t ht) e he w htail) (Nat.not_lt_zero w)

end SumType

namespace Registries

variable {r : Registries}

theorem Defined.rows (h : r.Defined) {name : String} {d : SumType} (hd : r.types.get? name = some d)
    {case : String} {v : Variant} (hv : d.variant? case = some v) : ∀ t ∈ v.fields, t.rows = [] :=
  h.rowsClosed.variant hd hv

theorem ErrorFree.variant (h : r.ErrorFree) {name : String} {d : SumType}
    (hd : r.types.get? name = some d) {case : String} {v : Variant}
    (hv : d.variant? case = some v) : ∀ t ∈ v.fields, t.containsError = false :=
  h name d hd v (List.mem_of_find?_eq_some hv)

/-- A constructor belongs to a definition that stands under its own name, and is a variant of it. -/
theorem Defined.constructor (h : r.Defined) {name : String} {d : SumType} {v : Variant}
    (hc : r.types.constructor? name = some (d, v)) :
    r.types.get? d.name = some d ∧ d.variant? v.name = some v ∧ v.name = name := by
  simp only [TypeRegistry.constructor?, Option.bind_eq_bind, Option.bind_eq_some_iff,
    Option.pure_def, Option.some.injEq, Prod.mk.injEq] at hc
  obtain ⟨owner, -, d', hd, v', hv, rfl, rfl⟩ := hc
  have hname := SumType.name_of_variant? hv
  refine ⟨?_, hname.symm ▸ hv, hname⟩
  rw [h.named owner d' hd]
  exact hd

/-! ## The definitions of a module -/

theorem Defined.insertSum (h : r.Defined) {d : SumType}
    (hr : ∀ v ∈ d.variants, ∀ t ∈ v.fields, t.rows = [])
    (hp : ∀ v ∈ d.variants, ∀ t ∈ v.fields, ∀ w ∈ t.vars, w ∈ d.params)
    (hfree : ∀ name p, r.active.get? name = some p → p.name ≠ d.name) :
    Defined ⟨r.types.insert d, r.active⟩ := by
  refine ⟨h.named.insert d, fun name e he => ?_, fun name e he => ?_, fun name p hget => ?_⟩
  · rw [TypeRegistry.get?_insert] at he
    split at he
    · cases he
      exact hr
    · exact h.rowsClosed name e he
  · rw [TypeRegistry.get?_insert] at he
    split at he
    · cases he
      exact hp
    · exact h.params name e he
  · obtain ⟨e, he, hrest⟩ := h.owned name p hget
    refine ⟨e, ?_, hrest⟩
    rw [TypeRegistry.get?_insert, if_neg (hfree name p hget).symm, he]

theorem get?_insertActive (active : ActiveRegistry) (p : ActivePattern) (name : String) :
    (active.insert p).get? name = if p.name = name then some p else active.get? name := by
  simp [ActiveRegistry.get?, ActiveRegistry.insert, SortedMap.get?_insert]

/-- An active pattern is defined together with its type. -/
theorem Defined.insertPattern (h : r.Defined) {name : String} (total : Bool) (cases : List String)
    {vs : List Variant} (hr : ∀ v ∈ vs, ∀ t ∈ v.fields, t.rows = [])
    (hp : ∀ v ∈ vs, ∀ t ∈ v.fields, t.vars = []) (hn : ∀ v ∈ vs, v.name ≠ noMatch)
    (hfree : ∀ other p, r.active.get? other = some p → p.name ≠ name) :
    Defined ⟨r.types.insert ⟨name, [], if total then vs else vs ++ [⟨noMatch, []⟩]⟩,
      r.active.insert ⟨name, cases, total⟩⟩ := by
  have hmem : ∀ v ∈ (if total then vs else vs ++ [⟨noMatch, []⟩]), v ∈ vs ∨ v = ⟨noMatch, []⟩ := by
    intro v hv
    split at hv
    · exact .inl hv
    · simpa using hv
  have hsum := h.insertSum (d := ⟨name, [], if total then vs else vs ++ [⟨noMatch, []⟩]⟩)
    (fun v hv t ht => by
      rcases hmem v hv with hv | rfl
      · exact hr v hv t ht
      · cases ht)
    (fun v hv t ht => by
      rcases hmem v hv with hv | rfl
      · simp [hp v hv t ht]
      · cases ht) hfree
  refine ⟨hsum.named, hsum.rowsClosed, hsum.params, fun other q hq => ?_⟩
  rw [get?_insertActive] at hq
  split at hq
  · cases hq
    refine ⟨_, (TypeRegistry.get?_insert ..).trans (if_pos rfl), rfl, fun htotal => ?_⟩
    -- no case of the pattern has the reserved name, so looking it up gives the last variant
    obtain rfl : total = false := htotal
    have hnone : vs.find? (fun v => v.name = noMatch) = none :=
      List.find?_eq_none.2 fun v hv => by simpa using hn v hv
    simp [SumType.variant?, List.find?_append, hnone]
  · exact hsum.owned other q hq

end Registries

/-- The name that is defined. -/
def Definition.name : Definition → String
  | .sum name .. | .active name .. => name

/-- What the parameters of a type are, as types. -/
theorem TypeScope.Spans.params {params : List String} {t : Ty}
    (h : (TypeScope.ofParams (params.zipIdx.map fun p => (p.1, Ty.var p.2))).Spans t) :
    ∀ w ∈ t.vars, w ∈ List.range params.length := by
  intro w hw
  obtain ⟨name, u, hu, hw⟩ := h.vars w hw
  obtain ⟨p, hp, hpe⟩ := List.mem_map.1 (SortedMap.mem_of_get?_ofList hu)
  obtain ⟨-, rfl⟩ := Prod.mk.injEq .. ▸ hpe
  obtain rfl : w = p.2 := by simpa [Ty.vars] using hw
  exact List.mem_range.2 (by simpa using List.snd_lt_of_mem_zipIdx hp)

theorem Registries.define_defined (outlines : TypeRegistry) {defs : List Definition}
    (hdefs : ∀ d ∈ defs, d.Distinct) (hnd : (defs.map Definition.name).Nodup) {r : Registries}
    (hr : r.Defined)
    (hfree : ∀ d ∈ defs, ∀ name p, r.active.get? name = some p → p.name ≠ d.name) (u : Unifier) :
    ((Registries.define outlines defs r).run u).1.Defined := by
  induction defs generalizing r u with
  | nil => exact hr
  | cons d ds ih =>
    simp only [List.mem_cons, forall_eq_or_imp] at hdefs hfree
    rw [List.map_cons, List.nodup_cons] at hnd
    obtain ⟨hname, hnd⟩ := hnd
    cases d with
    | sum name params vs =>
      have hparams : ∀ p ∈ params.zipIdx.map (fun p => (p.1, Ty.var p.2)), p.2.Below 0 := by
        intro p hp
        obtain ⟨q, -, rfl⟩ := List.mem_map.1 hp
        exact Ty.below_of_effects_eq_nil rfl
      obtain ⟨-, hfields⟩ := VariantDecl.resolveAll_spec outlines _ hparams vs u
      refine ih hdefs.2 hnd (hr.insertSum ?_ ?_ hfree.1) hfree.2 _
      · exact fun v hv t ht => Ty.rows_eq_nil_iff.2 (hfields v hv t ht).below
      · exact fun v hv t ht => (hfields v hv t ht).params
    | active name total cs =>
      obtain ⟨hnames, hfields⟩ := VariantDecl.resolveAll_spec outlines [] (by simp) cs u
      refine ih hdefs.2 hnd (hr.insertPattern total _ ?_ ?_ ?_ hfree.1) ?_ _
      · exact fun v hv t ht => Ty.rows_eq_nil_iff.2 (hfields v hv t ht).below
      · intro v hv t ht
        have hparams := @TypeScope.Spans.params [] t (hfields v hv t ht)
        simpa [List.eq_nil_iff_forall_not_mem] using hparams
      · intro v hv
        have hmem : v.name ∈ cs.map (·.name.text) := hnames ▸ List.mem_map_of_mem hv
        obtain ⟨c, hc, hcn⟩ := List.mem_map.1 hmem
        exact hcn ▸ hdefs.1.2 c hc
      · intro d hd other p hp
        rw [get?_insertActive] at hp
        split at hp
        · cases hp
          exact fun e => hname (List.mem_map.2 ⟨d, hd, e.symm⟩)
        · exact hfree.2 d hd other p hp

/-! ## Names of types -/

namespace Claims

variable {c : Claims}

/-- The name of the type that a declaration defines. -/
def typeName? : Decl → Option String
  | .fn _ => none
  | .type d => some d.name.text
  | .active d => some d.name.text

/-- Whether some declarations define types under different names, none of them known before. -/
structure Unclaimed (c : Claims) (ds : List Decl) : Prop where
  nodup : (ds.filterMap typeName?).Nodup
  fresh : ∀ name ∈ ds.filterMap typeName?, c.types.get? name = none

theorem checkNames_keeps (names : List Name) :
    c.Yields (forIn names PUnit.unit fun name _ => do
      checkName name
      return ForInStep.yield PUnit.unit) fun _ c' => c.Keeps c' := by
  induction names generalizing c with
  | nil => exact .pure ⟨rfl, rfl⟩
  | cons name names ih =>
    have hname : c.Yields (do
        checkName name
        return ForInStep.yield PUnit.unit)
        fun step c' => step = .yield PUnit.unit ∧ c.Keeps c' :=
      (checkName_keeps name).bind fun _ _ h => .pure ⟨rfl, h⟩
    rw [List.forIn_cons]
    refine hname.bind fun step c₁ ⟨hstep, h₁⟩ => ?_
    subst hstep
    exact ih.imp fun _ _ h => h₁.trans h

theorem claimValue_keeps (name : Name) : c.Yields (claimValue name) fun _ c' => c.Keeps c' := by
  unfold claimValue
  refine .get_bind ?_
  split
  · exact ⟨rfl, rfl⟩
  · exact ⟨rfl, rfl⟩

theorem claimType_yields (name : Name) :
    c.Yields (claimType name) (fun free c' =>
      if free then c.types.get? name.text = none ∧
        c'.types = c.types.insert name.text name.span
      else c'.types = c.types) := by
  unfold claimType
  refine .get_bind ?_
  split
  · exact rfl
  · exact ⟨‹_›, rfl⟩

/-- What may be defined of a first declaration and of those after it has different names. -/
theorem Unclaimed.cons {c₁ : Claims} {d : Decl} {ds : List Decl} {name : Name} {free : Bool}
    (hname : typeName? d = some name.text)
    (hd : if free then c.types.get? name.text = none ∧
        c₁.types = c.types.insert name.text name.span
      else c₁.types = c.types) (hds : c₁.Unclaimed ds) :
    c.Unclaimed (if free then d :: ds else ds) := by
  cases free with
  | false =>
    have hc : c₁.types = c.types := hd
    exact ⟨hds.nodup, hc ▸ hds.fresh⟩
  | true =>
    obtain ⟨hfresh, hc⟩ := hd
    have hother : ∀ other ∈ ds.filterMap typeName?, name.text ≠ other ∧
        c.types.get? other = none := by
      intro other hmem
      have hnone := hds.fresh other hmem
      rw [hc, SortedMap.get?_insert] at hnone
      split at hnone
      · cases hnone
      · exact ⟨‹_›, hnone⟩
    have hcons : (d :: ds).filterMap typeName? = name.text :: ds.filterMap typeName? := by
      rw [List.filterMap_cons, hname]
    refine ⟨?_, ?_⟩ <;> simp only [if_true, hcons, List.nodup_cons, List.mem_cons,
      forall_eq_or_imp]
    · exact ⟨fun hmem => (hother _ hmem).1 rfl, hds.nodup⟩
    · exact ⟨hfresh, fun other hmem => (hother other hmem).2⟩

theorem claimAll_yields (ds : List Decl) :
    c.Yields (claimAll ds) (fun ds _ => c.Unclaimed ds) := by
  have of_types : ∀ {c₁ : Claims} {ds : List Decl}, c₁.types = c.types → c₁.Unclaimed ds →
      c.Unclaimed ds := fun h hd => ⟨hd.nodup, h ▸ hd.fresh⟩
  induction ds generalizing c with
  | nil => exact .pure ⟨by simp, by simp⟩
  | cons d ds ih =>
    cases d with
    | fn d =>
      unfold claimAll
      refine (checkName_keeps d.name).bind fun _ c₁ h₁ => ?_
      refine (claimValue_keeps d.name).bind fun _ c₂ h₂ => ?_
      exact (ih fun h hd => ⟨hd.nodup, h ▸ hd.fresh⟩).imp fun _ _ h => of_types (h₁.trans h₂).types h
    | type d =>
      unfold claimAll
      refine (checkName_keeps d.name).bind fun _ c₁ h₁ => ?_
      refine (checkNames_keeps d.params).bind fun _ c₂ h₂ => ?_
      refine (claimType_yields d.name).bind fun free c₃ h₃ => ?_
      refine (ih fun h hd => ⟨hd.nodup, h ▸ hd.fresh⟩).bind fun rest c₄ h₄ => .pure ?_
      exact of_types (h₁.trans h₂).types (Unclaimed.cons rfl h₃ h₄)
    | active d =>
      unfold claimAll
      refine (checkName_keeps d.name).bind fun _ c₁ h₁ => ?_
      refine (claimValue_keeps d.name).bind fun _ c₂ h₂ => ?_
      refine (claimType_yields d.name).bind fun free c₃ h₃ => ?_
      refine (ih fun h hd => ⟨hd.nodup, h ▸ hd.fresh⟩).bind fun rest c₄ h₄ => .pure ?_
      exact of_types (h₁.trans h₂).types (Unclaimed.cons rfl h₃ h₄)

theorem usableDefinitions_names (ds : List Decl) :
    c.Yields (usableDefinitions ds) (fun defs _ =>
      (defs.map Definition.name).Sublist (ds.filterMap typeName?)) := by
  induction ds generalizing c with
  | nil => exact .pure .slnil
  | cons d ds ih =>
    cases d with
    | fn d => exact ih
    | type d =>
      unfold usableDefinitions
      refine Yields.bind (Q := fun _ _ => True) trivial fun vs c₁ _ => ?_
      exact ih.bind fun rest c₂ hrest => .pure (hrest.cons_cons _)
    | active d =>
      have hclose : ∀ {c₁ : Claims} {cs : List VariantDecl}, c₁.Yields (do
          let rest ← usableDefinitions ds
          return if cs.isEmpty then rest else .active d.name.text d.total cs :: rest)
          (fun defs _ => (defs.map Definition.name).Sublist
            ((Decl.active d :: ds).filterMap typeName?)) := by
        intro c₁ cs
        refine ih.bind fun rest c₂ hrest => .pure ?_
        split
        · exact hrest.cons _
        · exact hrest.cons_cons _
      unfold usableDefinitions
      dsimp only
      split
      · exact .report_bind fun c₁ _ => hclose
      · exact Yields.bind (Q := fun _ _ => True) trivial fun cs c₁ _ => hclose

end Claims

theorem Registries.defined_empty : Registries.empty.Defined :=
  ⟨TypeRegistry.named_empty, fun _ _ h => by simp [empty, TypeRegistry.get?_empty] at h,
    fun _ _ h => by simp [empty, TypeRegistry.get?_empty] at h, fun _ _ h => by cases h⟩

/-- Whatever a module declares, typing can rely on the definitions that are collected from it. -/
theorem Module.registries_defined (m : Module) : m.registries.1.Defined := by
  have hnames := Claims.claimAll_yields (c := .empty) m
  refine Registries.define_defined _ (Claims.usableDefinitions_yields _)
    ((Claims.usableDefinitions_names _).nodup hnames.nodup) Registries.defined_empty ?_ _
  exact fun _ _ _ _ h => by cases h

end RowCheck
