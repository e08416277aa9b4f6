import RowCheck.Infer.Definitions
import RowCheck.Proofs.Infer.Resolve
import RowCheck.Proofs.Match.Builds

/-!
The definitions of a module. Whatever is declared, those that are collected stand under their own
names, their variants have names of their own, and no field mentions a row variable: the parameters
of a type are types, and nothing else is in scope where its fields are written.
-/
namespace RowCheck

/-- Whether no field of a definition mentions a row variable. -/
def Registries.RowsClosed (r : Registries) : Prop :=
  ∀ name d, r.types.get? name = some d → ∀ v ∈ d.variants, ∀ t ∈ v.fields, t.rows = []

theorem Ty.rows_eq_nil_iff {t : Ty} : t.rows = [] ↔ t.Below 0 := by
  refine ⟨fun h e he v hv => ?_, fun h => List.eq_nil_iff_forall_not_mem.2 fun v hv => ?_⟩
  · have hmem : v ∈ t.rows := Ty.mem_rows.2 ⟨e, he, hv⟩
    rw [h] at hmem
    cases hmem
  · obtain ⟨e, he, hv⟩ := Ty.mem_rows.1 hv
    exact absurd (h e he v hv) (Nat.not_lt_zero v)

/-! ## Fields -/

/-- A closed scope in which no row variables are known. -/
structure TypeScope.RowFree (scope : TypeScope) : Prop where
  closed : scope.closed = true
  rows : ∀ name, scope.rows.get? name = none
  types : ∀ name t, scope.types.get? name = some t → t.Below 0

/-- Whether a type mentions no row variables, and only those type variables that a scope knows. -/
structure TypeScope.Spans (scope : TypeScope) (t : Ty) : Prop where
  below : t.Below 0
  vars : ∀ v ∈ t.vars, ∃ name u, scope.types.get? name = some u ∧ v ∈ u.vars

namespace TypeScope.Spans

variable {scope : TypeScope}

theorem of_closed {t : Ty} (he : t.effects = []) (hv : t.vars = []) : scope.Spans t :=
  ⟨Ty.below_of_effects_eq_nil he, by simp [hv]⟩

theorem tuple {items : List Ty} (h : ∀ t ∈ items, scope.Spans t) : scope.Spans (.tuple items) := by
  refine ⟨Ty.below_tuple.2 fun t ht => (h t ht).below, fun v hv => ?_⟩
  simp only [Ty.vars, Ty.varsList_eq, List.mem_flatMap] at hv
  obtain ⟨t, ht, hv⟩ := hv
  exact (h t ht).vars v hv

theorem named (name : String) {args : List Ty} (h : ∀ t ∈ args, scope.Spans t) :
    scope.Spans (.named name args) :=
  ⟨(tuple h).below, (tuple h).vars⟩

theorem ref (k : BorrowKind) {t : Ty} (h : scope.Spans t) : scope.Spans (.ref k t) :=
  ⟨h.below, h.vars⟩

theorem fn {p r : Ty} {e : Row} (hp : scope.Spans p) (hr : scope.Spans r) (he : e.Below 0) :
    scope.Spans (.fn p r e) := by
  refine ⟨Ty.below_fn.2 ⟨hp.below, hr.below, he⟩, fun v hv => ?_⟩
  rcases List.mem_append.1 hv with hv | hv
  · exact hp.vars v hv
  · exact hr.vars v hv

end TypeScope.Spans

/-- What a written type can stand for in a scope: it is built from known types, each with its number of
arguments, and from what the variables in scope stand for. What is at fault stands for the type of a
failed expression. -/
inductive TypeScope.Resolves (types : TypeRegistry) (scope : TypeScope) : Ty → Prop
  | error : Resolves types scope .error
  | builtin {name : String} {t : Ty} (h : TypeExpr.builtin? name = some t) : Resolves types scope t
  | var {name : String} {t : Ty} (h : scope.types.get? name = some t) : Resolves types scope t
  | named {name : String} {d : SumType} {args : List Ty} (hd : types.get? name = some d)
    (hlength : d.params.length = args.length) (hargs : ∀ t ∈ args, Resolves types scope t) :
    Resolves types scope (.named name args)
  | tuple {items : List Ty} (hitems : ∀ t ∈ items, Resolves types scope t) :
    Resolves types scope (.tuple items)
  | ref (k : BorrowKind) {t : Ty} (h : Resolves types scope t) : Resolves types scope (.ref k t)
  | fn {p r : Ty} {e : Row} (hp : Resolves types scope p) (hr : Resolves types scope r)
    (he : e.Below 0) : Resolves types scope (.fn p r e)

theorem TypeExpr.vars_of_builtin? {name : String} {t : Ty} (h : builtin? name = some t) :
    t.vars = [] := by
  unfold builtin? at h
  split at h
  · cases h
    rfl
  · split at h
    · cases h
      rfl
    · obtain ⟨p, -, rfl⟩ := Option.map_eq_some_iff.1 h
      rfl

theorem TypeScope.Resolves.spans {types : TypeRegistry} {scope : TypeScope} (hs : scope.RowFree)
    {t : Ty} (h : Resolves types scope t) : scope.Spans t := by
  induction h with
  | error => exact .of_closed rfl rfl
  | builtin h => exact .of_closed (TypeExpr.effects_of_builtin? h) (TypeExpr.vars_of_builtin? h)
  | var h => exact ⟨hs.types _ _ h, fun v hv => ⟨_, _, h, hv⟩⟩
  | named _ _ _ ih => exact .named _ ih
  | tuple _ ih => exact .tuple ih
  | ref k _ ih => exact .ref k ih
  | fn _ _ he hp hr => exact .fn hp hr he

/-- Whether an action on written variables leaves the scope as it is and gives one answer, with some
property, whatever the state of unification. -/
def ResolveM.Stays {α : Type} (scope : TypeScope) (x : ResolveM α) (Q : α → Prop) : Prop :=
  ∃ a, Q a ∧ ∀ u, ((x.run scope).run u).1 = (a, scope)

namespace ResolveM.Stays

variable {scope : TypeScope} {α β : Type} {x : ResolveM α} {f : α → ResolveM β} {Q : α → Prop}
  {R : β → Prop}

theorem bind (h : Stays scope x Q) (hf : ∀ a, Q a → Stays scope (f a) R) :
    Stays scope (x >>= f) R := by
  obtain ⟨a, hq, ha⟩ := h
  obtain ⟨b, hr, hb⟩ := hf a hq
  refine ⟨b, hr, fun u => ?_⟩
  have hrun : (x >>= f) scope u = f (x scope u).1.1 (x scope u).1.2 (x scope u).2 := rfl
  have hanswer : (x scope u).1 = (a, scope) := ha u
  rw [StateT.run, StateT.run, hrun, hanswer]
  exact hb _

theorem pure {a : α} (h : Q a) : Stays scope (pure a) Q := ⟨a, h, fun _ => rfl⟩

theorem get_bind {f : TypeScope → ResolveM β} (h : Stays scope (f scope) R) :
    Stays scope (get >>= f) R := h

theorem lift_bind {y : UnifyM Unit} {f : Unit → ResolveM β} (h : Stays scope (f ()) R) :
    Stays scope (liftM y >>= f) R :=
  let ⟨b, hr, hb⟩ := h
  ⟨b, hr, fun _ => hb _⟩

end ResolveM.Stays

open ResolveM

variable {types : TypeRegistry} {scope : TypeScope}

namespace TypeExpr

theorem fail_stays (category : Category) (message : String) (span : Span) :
    Stays scope (fail category message span) (scope.Resolves types) :=
  .lift_bind (.pure .error)

theorem resolveNamed_stays (span : Span) (name : String) {args : List Ty}
    (hargs : ∀ t ∈ args, scope.Resolves types t) :
    Stays scope (resolveNamed types span name args) (scope.Resolves types) := by
  unfold resolveNamed
  split
  · rename_i t ht
    split
    · exact .pure (.builtin ht)
    · exact fail_stays _ _ _
  · split
    · rename_i d hd
      split
      · rename_i hlength
        exact .pure (.named hd hlength hargs)
      · exact fail_stays _ _ _
    · exact fail_stays _ _ _

theorem resolveVar_stays (hs : scope.RowFree) (span : Span) (name : String) :
    Stays scope (resolveVar span name) (scope.Resolves types) := by
  unfold resolveVar
  refine .get_bind ?_
  split
  · rename_i t ht
    exact .pure (.var ht)
  · rw [if_pos hs.closed]
    exact fail_stays _ _ _

end TypeExpr

theorem RowExpr.resolve_stays (hs : scope.RowFree) (row : RowExpr) :
    Stays scope row.resolve (·.Below 0) := by
  unfold RowExpr.resolve
  dsimp only
  split
  · exact .pure (Row.below_closed rfl)
  · refine .get_bind ?_
    rw [hs.rows]
    dsimp only
    rw [if_pos hs.closed]
    exact .lift_bind (.pure (Row.below_closed rfl))

mutual

theorem TypeExpr.resolve_stays (types : TypeRegistry) (hs : scope.RowFree) : (t : TypeExpr) →
    Stays scope (t.resolve types) (scope.Resolves types)
  | .named span name args => by
    unfold TypeExpr.resolve
    exact (TypeExpr.resolveList_stays types hs args).bind fun _ hts =>
      TypeExpr.resolveNamed_stays span name hts
  | .var span name => by
    unfold TypeExpr.resolve
    exact TypeExpr.resolveVar_stays hs span name
  | .tuple _ items => by
    unfold TypeExpr.resolve
    exact (TypeExpr.resolveList_stays types hs items).bind fun _ hts =>
      .pure (.tuple hts)
  | .ref _ unique inner => by
    unfold TypeExpr.resolve
    exact (TypeExpr.resolve_stays types hs inner).bind fun _ ht => .pure (.ref _ ht)
  | .fn _ param result effects => by
    unfold TypeExpr.resolve
    refine (TypeExpr.resolve_stays types hs param).bind fun p hp => ?_
    refine (TypeExpr.resolve_stays types hs result).bind fun q hq => ?_
    split
    · exact (RowExpr.resolve_stays hs _).bind fun e he => .pure (.fn hp hq he)
    · exact .pure (.fn hp hq (Row.below_closed rfl))

theorem TypeExpr.resolveList_stays (types : TypeRegistry) (hs : scope.RowFree) :
    (ts : List TypeExpr) →
    Stays scope (TypeExpr.resolveList types ts) (fun ts => ∀ t ∈ ts, scope.Resolves types t)
  | [] => .pure (by simp)
  | t :: ts => by
    unfold TypeExpr.resolveList
    refine (TypeExpr.resolve_stays types hs t).bind fun u hu => ?_
    refine (TypeExpr.resolveList_stays types hs ts).bind fun us hus => .pure ?_
    simpa using ⟨hu, hus⟩

end

/-- The parameters of a type are in scope where its fields are written, and nothing else is. -/
theorem TypeScope.rowFree_ofParams {params : List (String × Ty)}
    (h : ∀ p ∈ params, p.2.Below 0) : (TypeScope.ofParams params).RowFree :=
  ⟨rfl, fun _ => rfl, fun _ _ ht => h _ (SortedMap.mem_of_get?_ofList (l := params) ht)⟩

/-- Resolving the fields of variants keeps the names of the variants, and the fields are what written
types can stand for within the parameters of the type. -/
theorem VariantDecl.resolveAll_resolves (types : TypeRegistry) (params : List (String × Ty))
    (hp : ∀ p ∈ params, p.2.Below 0) (vs : List VariantDecl) (u : Unifier) :
    ((VariantDecl.resolveAll types params vs).run u).1.map Variant.name = vs.map (·.name.text) ∧
    ∀ v ∈ ((VariantDecl.resolveAll types params vs).run u).1, ∀ t ∈ v.fields,
      (TypeScope.ofParams params).Resolves types t := by
  induction vs generalizing u with
  | nil => exact ⟨rfl, fun v hv => by cases hv⟩
  | cons v vs ih =>
    obtain ⟨ts, hts, hrun⟩ :=
      TypeExpr.resolveList_stays types (TypeScope.rowFree_ofParams hp) v.fields
    have hfields : ∀ t ∈ (TypeExpr.resolveList types v.fields (TypeScope.ofParams params) u).1.1,
        (TypeScope.ofParams params).Resolves types t := congrArg Prod.fst (hrun u) ▸ hts
    obtain ⟨hnames, hrest⟩ := ih
      (((TypeExpr.resolveList types v.fields).run' (TypeScope.ofParams params)).run u).2
    refine ⟨congrArg (v.name.text :: ·) hnames, fun w hw => ?_⟩
    rcases List.mem_cons.1 hw with rfl | hw
    · exact hfields
    · exact hrest w hw

/-- The fields of variants mention only the parameters of the type. -/
theorem VariantDecl.resolveAll_spec (types : TypeRegistry) (params : List (String × Ty))
    (hp : ∀ p ∈ params, p.2.Below 0) (vs : List VariantDecl) (u : Unifier) :
    ((VariantDecl.resolveAll types params vs).run u).1.map Variant.name = vs.map (·.name.text) ∧
    ∀ v ∈ ((VariantDecl.resolveAll types params vs).run u).1, ∀ t ∈ v.fields,
      (TypeScope.ofParams params).Spans t :=
  (resolveAll_resolves types params hp vs u).imp_right fun h v hv t ht =>
    (h v hv t ht).spans (TypeScope.rowFree_ofParams hp)

/-- What the fields of variants stand for does not depend on the state of unification. -/
theorem VariantDecl.resolveAll_congr (types : TypeRegistry) (params : List (String × Ty))
    (hp : ∀ p ∈ params, p.2.Below 0) (vs : List VariantDecl) (u u' : Unifier) :
    ((VariantDecl.resolveAll types params vs).run u).1 =
      ((VariantDecl.resolveAll types params vs).run u').1 := by
  induction vs generalizing u u' with
  | nil => rfl
  | cons v vs ih =>
    obtain ⟨ts, -, hrun⟩ :=
      TypeExpr.resolveList_stays types (TypeScope.rowFree_ofParams hp) v.fields
    have hfields : ∀ u, (TypeExpr.resolveList types v.fields (TypeScope.ofParams params) u).1.1 = ts :=
      fun u => congrArg Prod.fst (hrun u)
    refine congrArg₂ (fun t vs => Variant.mk v.name.text t :: vs) ?_ (ih _ _)
    exact (hfields u).trans (hfields u').symm

/-! ## Names -/

namespace Claims

/-- The answer of an action and the state it ends in have some property. -/
def Yields {α : Type} (c : Claims) (m : StateM Claims α) (Q : α → Claims → Prop) : Prop :=
  Q (m c).1 (m c).2

section

variable {α β : Type} {c : Claims} {m : StateM Claims α} {f : α → StateM Claims β}
  {Q Q' : α → Claims → Prop} {R : β → Claims → Prop}

theorem Yields.bind (h : c.Yields m Q) (hf : ∀ a c', Q a c' → c'.Yields (f a) R) :
    c.Yields (m >>= f) R :=
  hf _ _ h

theorem Yields.imp (h : c.Yields m Q) (hq : ∀ a c', Q a c' → Q' a c') : c.Yields m Q' := hq _ _ h

theorem Yields.pure {a : α} (h : Q a c) : c.Yields (pure a) Q := h

theorem Yields.get_bind {f : Claims → StateM Claims β} (h : c.Yields (f c) R) :
    c.Yields (get >>= f) R := h

theorem Yields.report_bind {d : Diagnostic} {f : Unit → StateM Claims β}
    (h : ∀ c' : Claims, c'.constructors = c.constructors → c'.Yields (f ()) R) :
    c.Yields (report d >>= f) R :=
  h _ rfl

end

/-- Whether the names of some variants are distinct, may be used, and are none of the constructors
known before. -/
structure Distinct (c : Claims) (vs : List VariantDecl) : Prop where
  nodup : (vs.map (·.name.text)).Nodup
  fresh : ∀ v ∈ vs, c.constructors.get? v.name.text = none
  usable : ∀ v ∈ vs, v.name.text ≠ noMatch

/-- Whether some variants have claimed their names: these were free, and what is known in the end is
these names and what was known before. -/
structure Claimed (c : Claims) (vs : List VariantDecl) (c' : Claims) : Prop extends
    c.Distinct vs where
  known : ∀ n, (c'.constructors.get? n).isSome = true ↔
    n ∈ vs.map (·.name.text) ∨ (c.constructors.get? n).isSome = true

variable {c c' c'' : Claims}

theorem Claimed.nil (h : c'.constructors = c.constructors) : c.Claimed [] c' :=
  ⟨⟨by simp, by simp, by simp⟩, by simp [h]⟩

theorem Claimed.single {v : VariantDecl} (hname : v.name.text ≠ noMatch)
    (hfresh : c.constructors.get? v.name.text = none)
    (h : c'.constructors = c.constructors.insert v.name.text v.name.span) : c.Claimed [v] c' := by
  refine ⟨⟨by simp, by simpa using hfresh, by simpa using hname⟩, fun n => ?_⟩
  rw [h, SortedMap.get?_insert]
  by_cases hn : v.name.text = n <;> simp [hn, Ne.symm]

/-- What is claimed later is not what was claimed before. -/
theorem Claimed.append {vs ws : List VariantDecl} (h : c.Claimed vs c') (h' : c'.Claimed ws c'') :
    c.Claimed (vs ++ ws) c'' := by
  have hother : ∀ w ∈ ws, w.name.text ∉ vs.map (·.name.text) ∧
      c.constructors.get? w.name.text = none := by
    intro w hw
    have hunknown := (h.known w.name.text).not.1 (by simp [h'.fresh w hw])
    rw [not_or, Bool.not_eq_true, Option.isSome_eq_false_iff, Option.isNone_iff_eq_none] at hunknown
    exact hunknown
  refine ⟨⟨?_, ?_, ?_⟩, fun n => ?_⟩
  · rw [List.map_append, List.nodup_append']
    refine ⟨h.nodup, h'.nodup, fun n hn hn' => ?_⟩
    obtain ⟨w, hw, rfl⟩ := List.mem_map.1 hn'
    exact (hother w hw).1 hn
  · exact List.forall_mem_append.2 ⟨h.fresh, fun w hw => (hother w hw).2⟩
  · exact List.forall_mem_append.2 ⟨h.usable, h'.usable⟩
  · rw [h'.known, h.known, List.map_append, List.mem_append]
    tauto

/-- Whether the same types and constructors are known in two states. -/
structure Keeps (c c' : Claims) : Prop where
  types : c'.types = c.types
  constructors : c'.constructors = c.constructors

theorem Keeps.trans (h : c.Keeps c') (h' : c'.Keeps c'') : c.Keeps c'' :=
  ⟨h'.types.trans h.types, h'.constructors.trans h.constructors⟩

theorem checkName_keeps (name : Name) : c.Yields (checkName name) fun _ c' => c.Keeps c' := by
  unfold checkName
  split
  · exact .pure ⟨rfl, rfl⟩
  · exact ⟨rfl, rfl⟩

/-- A name that may be declared was not known before, and is known from then on. -/
theorem claimConstructor_yields (v : VariantDecl) :
    c.Yields (claimConstructor v.name) fun free c' => c.Claimed (if free then [v] else []) c' := by
  unfold claimConstructor
  refine (checkName_keeps v.name).bind fun _ c₁ ⟨_, h₁⟩ => ?_
  split
  · exact .report_bind fun c₂ h₂ => .pure (.nil (h₂.trans h₁))
  · rename_i hname
    refine .get_bind ?_
    split
    · exact .report_bind fun c₂ h₂ => .pure (.nil (h₂.trans h₁))
    · rename_i hfresh
      exact Claimed.single hname (h₁ ▸ hfresh) (congrArg (·.insert v.name.text v.name.span) h₁)

/-- What may be declared of a first variant is claimed before what may be of those after it. -/
theorem Claimed.cons {v : VariantDecl} {vs : List VariantDecl} {free : Bool}
    (hv : c.Claimed (if free then [v] else []) c') (hvs : c'.Claimed vs c'') :
    c.Claimed (if free then v :: vs else vs) c'' := by
  cases free with
  | false => exact hv.append hvs
  | true => exact hv.append hvs

theorem usableVariants_yields (vs : List VariantDecl) :
    c.Yields (usableVariants vs) c.Claimed := by
  induction vs generalizing c with
  | nil => exact .pure (.nil rfl)
  | cons v vs ih =>
    unfold usableVariants
    refine (claimConstructor_yields v).bind fun free c₁ h₁ => ?_
    exact ih.bind fun rest c₂ hrest => .pure (h₁.cons hrest)

theorem usableCases_yields (pattern : Name) (seen : SortedMap String Span)
    (cs : List VariantDecl) : c.Yields (usableCases pattern seen cs) c.Claimed := by
  induction cs generalizing c seen with
  | nil => exact .pure (.nil rfl)
  | cons v vs ih =>
    have hsame : ∀ {c₁ : Claims}, c₁.constructors = c.constructors →
        c₁.Yields (usableCases pattern seen vs) c.Claimed := fun h =>
      (ih seen).imp fun _ _ hd => (Claimed.nil h).append hd
    unfold usableCases
    split
    · exact .report_bind fun c₁ h₁ => hsame h₁
    · split
      · exact .report_bind fun c₁ h₁ => hsame h₁
      · refine (claimConstructor_yields v).bind fun free c₁ h₁ => ?_
        exact (ih _).bind fun rest c₂ hrest => .pure (h₁.cons hrest)

end Claims

namespace Definition

/-- The variants of a type, or the cases of an active pattern. -/
def variants : Definition → List VariantDecl
  | sum _ _ vs | active _ _ vs => vs

def constructors (d : Definition) : List String := d.variants.map (·.name.text)

/-- Whether the variants of a definition have names of their own, none of which is reserved. -/
def Distinct : Definition → Prop
  | sum _ _ vs | active _ _ vs =>
    (vs.map (·.name.text)).Nodup ∧ ∀ v ∈ vs, v.name.text ≠ noMatch

theorem distinct_iff {d : Definition} :
    d.Distinct ↔ d.constructors.Nodup ∧ ∀ v ∈ d.variants, v.name.text ≠ noMatch := by
  cases d <;> rfl

end Definition

namespace Claims

/-- All variants that are to be defined have claimed their names. -/
theorem usableDefinitions_claimed {c : Claims} (ds : List Decl) :
    c.Yields (usableDefinitions ds)
      (fun defs c' => c.Claimed (defs.flatMap Definition.variants) c') := by
  induction ds generalizing c with
  | nil => exact .pure (.nil rfl)
  | cons d ds ih =>
    cases d with
    | fn d => exact ih
    | type d =>
      unfold usableDefinitions
      refine (usableVariants_yields d.variants).bind fun vs c₁ hvs => ?_
      exact ih.bind fun rest c₂ hrest => .pure (hvs.append hrest)
    | active d =>
      have hclose : ∀ {c₁ : Claims} {cs : List VariantDecl}, c.Claimed cs c₁ →
          c₁.Yields (do
            let rest ← usableDefinitions ds
            return if cs.isEmpty then rest else .active d.name.text d.total cs :: rest)
            (fun defs c' => c.Claimed (defs.flatMap Definition.variants) c') := by
        intro c₁ cs hcs
        refine ih.bind fun rest c₂ hrest => .pure ?_
        split
        · rename_i hempty
          rw [List.isEmpty_iff.1 hempty] at hcs
          exact hcs.append hrest
        · exact hcs.append hrest
      unfold usableDefinitions
      dsimp only
      split
      · exact .report_bind fun c₁ h₁ => hclose (.nil h₁)
      · exact (usableCases_yields d.name ∅ d.cases).bind fun cs c₁ hcs => hclose hcs

theorem usableDefinitions_yields {c : Claims} (ds : List Decl) :
    c.Yields (usableDefinitions ds) (fun defs _ => ∀ d ∈ defs, d.Distinct) :=
  (usableDefinitions_claimed ds).imp fun _ _ h d hd => Definition.distinct_iff.2
    ⟨(List.nodup_flatMap.1 (List.map_flatMap .. ▸ h.nodup)).1 d hd, fun v hv =>
      h.usable v (List.mem_flatMap.2 ⟨d, hd, hv⟩)⟩

end Claims

/-! ## Registries -/

/-- Whether definitions stand under their own names, with variants that have names of their own and
with fields that mention no row variable. -/
structure Registries.Collected (r : Registries) : Prop where
  wellFormed : r.types.WellFormed
  rowsClosed : r.RowsClosed

theorem Registries.collected_empty : Registries.empty.Collected :=
  ⟨TypeRegistry.wellFormed_empty, fun name d h => by simp [empty, TypeRegistry.get?_empty] at h⟩

theorem Registries.Collected.insert {r : Registries} (h : r.Collected) {d : SumType}
    (hd : (d.variants.map Variant.name).Nodup) (hf : ∀ v ∈ d.variants, ∀ t ∈ v.fields, t.Below 0)
    (active : ActiveRegistry) : Registries.Collected ⟨r.types.insert d, active⟩ := by
  refine ⟨h.wellFormed.insert hd, fun name e he v hv t ht => ?_⟩
  rw [TypeRegistry.get?_insert] at he
  split at he
  · cases he
    exact Ty.rows_eq_nil_iff.2 (hf v hv t ht)
  · exact h.rowsClosed name e he v hv t ht

theorem Registries.define_collected (outlines : TypeRegistry) {defs : List Definition}
    (hdefs : ∀ d ∈ defs, d.Distinct) {r : Registries} (hr : r.Collected) (u : Unifier) :
    ((Registries.define outlines defs r).run u).1.Collected := by
  induction defs generalizing r u with
  | nil => exact hr
  | cons d ds ih =>
    simp only [List.mem_cons, forall_eq_or_imp] at hdefs
    cases d with
    | sum name params vs =>
      have hparams : ∀ p ∈ params.zipIdx.map (fun p => (p.1, Ty.var p.2)), p.2.Below 0 := by
        intro p hp
        obtain ⟨q, -, rfl⟩ := List.mem_map.1 hp
        exact Ty.below_of_effects_eq_nil rfl
      obtain ⟨hnames, hfields⟩ := VariantDecl.resolveAll_spec outlines _ hparams vs u
      exact ih hdefs.2 (hr.insert (hnames ▸ hdefs.1.1)
        (fun v hv t ht => (hfields v hv t ht).below) _) _
    | active name total cs =>
      obtain ⟨hnames, hfields⟩ := VariantDecl.resolveAll_spec outlines [] (by simp) cs u
      refine ih hdefs.2 (hr.insert ?_ ?_ _) _
      · dsimp only
        split
        · exact hnames ▸ hdefs.1.1
        · rw [List.map_append, List.nodup_append]
          refine ⟨hnames ▸ hdefs.1.1, by simp, fun x hx y hy => ?_⟩
          rw [StateT.run] at hnames
          rw [hnames] at hx
          obtain ⟨v, hv, rfl⟩ := List.mem_map.1 hx
          obtain rfl : y = noMatch := by simpa using hy
          exact hdefs.1.2 v hv
      · dsimp only
        have hbelow := fun v hv t ht => (hfields v hv t ht).below
        split
        · exact hbelow
        · intro v hv
          rcases List.mem_append.1 hv with hv | hv
          · exact hbelow v hv
          · obtain rfl := List.mem_singleton.1 hv
            simp

/-- Whatever a module declares, the definitions that are collected from it are in order. -/
theorem Module.registries_collected (m : Module) : m.registries.1.Collected :=
  Registries.define_collected _ (Claims.usableDefinitions_yields _) Registries.collected_empty _

end RowCheck
