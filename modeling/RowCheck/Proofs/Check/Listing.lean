import RowCheck.Proofs.Check.Consistent
import RowCheck.Proofs.Check.Sharing

/-!
What the outcome of a module lists. The declarations come in the order of the source: the first
value of each name as its group has checked it, and the first type declaration of each name if a
type of that name is registered. That type is the one of the declaration that was the first to claim
its name, be it a type or an active pattern.
-/
namespace RowCheck

/-- The name of the type that a declaration writes out. -/
def Decl.sumName? : Decl → Option String
  | .type d => some d.name.text
  | .fn _ | .active _ => none

/-! ## Definitions and the declarations that they are built from -/

/-- Whether a definition is built from a declaration: it has its name and parameters, and those of
its variants that are left. An active pattern without cases defines nothing. -/
def Definition.BuiltFrom : Definition → Decl → Prop
  | .sum name params vs, .type d =>
    name = d.name.text ∧ params = d.params.map (·.text) ∧ vs.Sublist d.variants
  | .active name total cs, .active d =>
    name = d.name.text ∧ total = d.total ∧ cs.Sublist d.cases ∧ cs ≠ []
  | _, _ => False

theorem Definition.BuiltFrom.typeName {e : Definition} {d : Decl} (h : e.BuiltFrom d) :
    Claims.typeName? d = some e.name := by
  cases e <;> cases d <;> first | exact h.elim | exact congrArg some h.1.symm

namespace Claims

variable {c : Claims}

/-- A name among types can be claimed once. -/
theorem claimType_free (name : Name) : c.Yields (claimType name) fun free c' =>
    (free = true ↔ c.types.get? name.text = none) ∧
      ∀ n, c'.types.get? n = none ↔ name.text ≠ n ∧ c.types.get? n = none := by
  unfold claimType
  refine .get_bind ?_
  split
  · rename_i first hfirst
    refine ⟨iff_of_false Bool.false_ne_true (by simp [hfirst]), fun n => ?_⟩
    show c.types.get? n = none ↔ _
    constructor
    · rintro h
      refine ⟨?_, h⟩
      rintro rfl
      simp [hfirst] at h
    · exact And.right
  · rename_i hfree
    refine ⟨iff_of_true rfl hfree, fun n => ?_⟩
    show (c.types.insert name.text name.span).get? n = none ↔ _
    rw [SortedMap.get?_insert]
    split <;> simp_all

/-- The declarations that own their names are those that come first under a name that is free. -/
theorem claimAll_first (ds : List Decl) : c.Yields (claimAll ds) fun owners _ =>
    ∀ d, d ∈ owners ↔ ∃ name i, Module.FirstOf ds typeName? name i ∧ ds[i]? = some d ∧
      c.types.get? name = none := by
  induction ds generalizing c with
  | nil => exact .pure (by simp)
  | cons d ds ih =>
    have htyped : ∀ {name : Name} {c₁ : Claims}, typeName? d = some name.text →
        c₁.types = c.types → c₁.Yields (do
          let free ← claimType name
          let rest ← claimAll ds
          return if free then d :: rest else rest)
          fun owners _ => ∀ e, e ∈ owners ↔ ∃ name i,
            Module.FirstOf (d :: ds) typeName? name i ∧ (d :: ds)[i]? = some e ∧
              c.types.get? name = none := by
      intro name c₁ hname h₁
      refine (claimType_free name).bind fun free c₂ hclaimed => ?_
      obtain ⟨hfree, h₂⟩ := hclaimed
      refine ih.bind fun rest c₃ hrest => .pure fun e => ?_
      have hothers : e ∈ rest ↔ ∃ other i, Module.FirstOf ds typeName? other i ∧
          some name.text ≠ some other ∧ ds[i]? = some e ∧ c.types.get? other = none := by
        simp only [hrest, h₂, h₁, ne_eq, Option.some.injEq, and_left_comm]
      rw [Module.exists_firstOf_cons, hname]
      simp only [List.getElem?_cons_succ]
      rw [← hothers]
      simp only [List.getElem?_cons_zero, Option.some.injEq, exists_eq_left', ← h₁, ← hfree]
      cases free <;> simp [eq_comm]
    cases d with
    | fn d =>
      unfold claimAll
      refine (checkName_keeps d.name).bind fun _ c₁ h₁ => ?_
      refine (claimValue_keeps d.name).bind fun _ c₂ h₂ => ih.imp fun _ _ hrest e => ?_
      rw [hrest, Module.exists_firstOf_cons, h₂.types, h₁.types]
      simp [typeName?]
    | type d =>
      unfold claimAll
      refine (checkName_keeps d.name).bind fun _ c₁ h₁ => ?_
      exact (checkNames_keeps d.params).bind fun _ c₂ h₂ => htyped rfl (h₁.trans h₂).types
    | active d =>
      unfold claimAll
      refine (checkName_keeps d.name).bind fun _ c₁ h₁ => ?_
      exact (claimValue_keeps d.name).bind fun _ c₂ h₂ => htyped rfl (h₁.trans h₂).types

theorem usableVariants_sublist (vs : List VariantDecl) :
    c.Yields (usableVariants vs) fun usable _ => usable.Sublist vs := by
  induction vs generalizing c with
  | nil => exact .pure .slnil
  | cons v vs ih =>
    unfold usableVariants
    refine Yields.bind (Q := fun _ _ => True) trivial fun free c₁ _ => ?_
    refine ih.bind fun rest c₂ hrest => .pure ?_
    split
    · exact hrest.cons_cons v
    · exact hrest.cons v

theorem usableCases_sublist (pattern : Name) (seen : SortedMap String Span)
    (cs : List VariantDecl) :
    c.Yields (usableCases pattern seen cs) fun usable _ => usable.Sublist cs := by
  induction cs generalizing c seen with
  | nil => exact .pure .slnil
  | cons v vs ih =>
    unfold usableCases
    split
    · exact .report_bind fun c₁ _ => (ih seen).imp fun _ _ h => h.cons v
    · split
      · exact .report_bind fun c₁ _ => (ih seen).imp fun _ _ h => h.cons v
      · refine Yields.bind (Q := fun _ _ => True) trivial fun free c₁ _ => ?_
        refine (ih _).bind fun rest c₂ hrest => .pure ?_
        split
        · exact hrest.cons_cons v
        · exact hrest.cons v

/-- Every definition is built from a declaration, and every declaration of a type is built into one.
-/
theorem usableDefinitions_builtFrom (ds : List Decl) : c.Yields (usableDefinitions ds) fun defs _ =>
    (∀ e ∈ defs, ∃ d ∈ ds, e.BuiltFrom d) ∧
      ∀ d, Decl.type d ∈ ds → ∃ e ∈ defs, e.BuiltFrom (.type d) := by
  induction ds generalizing c with
  | nil => exact .pure ⟨by simp, by simp⟩
  | cons d ds ih =>
    cases d with
    | fn d =>
      refine ih.imp fun defs _ hdefs => ?_
      obtain ⟨hfrom, hinto⟩ := hdefs
      refine ⟨fun e he => ?_, fun t ht => ?_⟩
      · obtain ⟨d', hd', h⟩ := hfrom e he
        exact ⟨d', List.mem_cons_of_mem _ hd', h⟩
      · exact hinto t ((List.mem_cons.1 ht).resolve_left (by simp))
    | type d =>
      unfold usableDefinitions
      refine (usableVariants_sublist d.variants).bind fun vs c₁ hvs => ?_
      refine ih.bind fun rest c₂ hdefs => .pure ?_
      obtain ⟨hfrom, hinto⟩ := hdefs
      refine ⟨?_, fun t ht => ?_⟩
      · refine List.forall_mem_cons.2 ⟨⟨.type d, List.mem_cons_self, rfl, rfl, hvs⟩, fun e he => ?_⟩
        obtain ⟨d', hd', h⟩ := hfrom e he
        exact ⟨d', List.mem_cons_of_mem _ hd', h⟩
      · rcases List.mem_cons.1 ht with ht | ht
        · cases ht
          exact ⟨_, List.mem_cons_self, rfl, rfl, hvs⟩
        · obtain ⟨e, he, h⟩ := hinto t ht
          exact ⟨e, List.mem_cons_of_mem _ he, h⟩
    | active d =>
      have hclose : ∀ {c₁ : Claims} {cs : List VariantDecl}, cs.Sublist d.cases → c₁.Yields (do
          let rest ← usableDefinitions ds
          return if cs.isEmpty then rest else .active d.name.text d.total cs :: rest)
          fun defs _ => (∀ e ∈ defs, ∃ d' ∈ Decl.active d :: ds, e.BuiltFrom d') ∧
            ∀ t, Decl.type t ∈ Decl.active d :: ds → ∃ e ∈ defs, e.BuiltFrom (.type t) := by
        intro c₁ cs hcs
        refine ih.bind fun rest c₂ hdefs => .pure ?_
        obtain ⟨hfrom, hinto⟩ := hdefs
        have hrest : ∀ e ∈ rest, ∃ d' ∈ Decl.active d :: ds, e.BuiltFrom d' := by
          intro e he
          obtain ⟨d', hd', h⟩ := hfrom e he
          exact ⟨d', List.mem_cons_of_mem _ hd', h⟩
        have htypes : ∀ t, Decl.type t ∈ Decl.active d :: ds → ∃ e ∈ rest, e.BuiltFrom (.type t) :=
          fun t ht => hinto t ((List.mem_cons.1 ht).resolve_left (by simp))
        split
        · exact ⟨hrest, htypes⟩
        · rename_i hempty
          have hne : cs ≠ [] := fun h => hempty (List.isEmpty_iff.2 h)
          refine ⟨List.forall_mem_cons.2 ⟨⟨_, List.mem_cons_self, rfl, rfl, hcs, hne⟩, hrest⟩, ?_⟩
          intro t ht
          obtain ⟨e, he, h⟩ := htypes t ht
          exact ⟨e, List.mem_cons_of_mem _ he, h⟩
      unfold usableDefinitions
      dsimp only
      split
      · exact .report_bind fun c₁ _ => hclose (List.nil_sublist _)
      · exact (usableCases_sublist d.name ∅ d.cases).bind fun cs c₁ hcs => hclose hcs

end Claims

namespace Module

variable {m : Module} {name : String} {t : SumType} {i : Nat}

/-- Whether a type is the one that a module registers for the declaration at an index, which is then
the first to claim the name of a type. -/
def Registers (m : Module) (i : Nat) (t : SumType) : Prop :=
  m.FirstOf Claims.typeName? t.name i ∧
    ∃ d e, m[i]? = some d ∧ e ∈ m.definitions ∧ e.BuiltFrom d ∧ e.sumType m.sketch = t

theorem mem_entitled {d : Decl} :
    d ∈ m.entitled ↔ ∃ name i, m.FirstOf Claims.typeName? name i ∧ m[i]? = some d := by
  refine (Claims.claimAll_first (c := .empty) m d).trans ?_
  simp [Claims.empty]

/-- The type of a name is the one registered for the first declaration that claims the name. -/
theorem get?_registries_types :
    m.registries.1.types.get? name = some t ↔ t.name = name ∧ ∃ i, m.Registers i t := by
  obtain ⟨hfrom, -⟩ :=
    Claims.usableDefinitions_builtFrom (c := (Claims.claimAll m .empty).2) m.entitled
  rw [registries_fst, Registries.get?_types_foldl_add m.definitions_apart]
  constructor
  · rintro ⟨e, he, rfl, rfl⟩
    obtain ⟨d, hd, hbuilt⟩ := hfrom e he
    obtain ⟨other, i, hfirst, hi⟩ := mem_entitled.1 hd
    have hname : other = e.name := by
      have h := hfirst.1
      rw [hi] at h
      exact Option.some.inj (h.symm.trans hbuilt.typeName)
    refine ⟨e.name_sumType m.sketch, i, ?_, d, e, hi, he, hbuilt, rfl⟩
    rw [e.name_sumType, ← hname]
    exact hfirst
  · rintro ⟨rfl, i, -, d, e, -, he, -, rfl⟩
    exact ⟨e, he, (e.name_sumType m.sketch).symm, rfl⟩

/-- A type declaration that is the first to claim its name is registered. -/
theorem exists_registers {d : TypeDecl} (hi : m[i]? = some (.type d))
    (hfirst : m.FirstOf Claims.typeName? d.name.text i) :
    ∃ t, m.Registers i t ∧ t.name = d.name.text := by
  obtain ⟨-, hinto⟩ :=
    Claims.usableDefinitions_builtFrom (c := (Claims.claimAll m .empty).2) m.entitled
  obtain ⟨e, he, hbuilt⟩ := hinto d (mem_entitled.2 ⟨_, i, hfirst, hi⟩)
  have hname : (e.sumType m.sketch).name = d.name.text :=
    (e.name_sumType m.sketch).trans (Option.some.inj hbuilt.typeName).symm
  exact ⟨_, ⟨hname.symm ▸ hfirst, _, e, hi, he, hbuilt, rfl⟩, hname⟩

/-! ## Types -/

theorem mem_typeDeclarations {r : Registries} {seen : List String} {ds : Module} {k : Nat}
    {x : Nat × CheckedDecl} : x ∈ typeDeclarations m r seen (ds.zipIdx k) ↔
      ∃ name i, ds.FirstOf Decl.sumName? name i ∧ name ∉ seen ∧
        ∃ t, r.types.get? name = some t ∧ x = (k + i, ⟨t.name, .type t, none⟩) := by
  induction ds generalizing seen k with
  | nil => simp [typeDeclarations, FirstOf]
  | cons d ds ih =>
    rw [List.zipIdx_cons, exists_firstOf_cons]
    cases d with
    | fn d | active d =>
      rw [typeDeclarations, ih]
      · simp [Decl.sumName?, Nat.add_assoc, Nat.add_comm 1]
      · simp
    | type d =>
      have hindex : ∀ i, k + 1 + i = k + (i + 1) := fun i => by omega
      have hothers : x ∈ typeDeclarations m r (d.name.text :: seen) (ds.zipIdx (k + 1)) ↔
          ∃ name i, FirstOf ds Decl.sumName? name i ∧ some d.name.text ≠ some name ∧ name ∉ seen ∧
            ∃ t, r.types.get? name = some t ∧ x = (k + (i + 1), ⟨t.name, .type t, none⟩) := by
        simp only [ih, List.mem_cons, not_or, hindex, ne_eq, Option.some.injEq, and_assoc, eq_comm]
      rw [typeDeclarations, Decl.sumName?]
      split
      · rename_i hseen
        have hne : ∀ name, name ∉ seen → d.name.text ≠ name := fun name hname he =>
          hname (he ▸ hseen)
        simp only [ih, hindex, Option.some.injEq, exists_eq_left', hseen, not_true_eq_false,
          false_and, false_or]
        refine exists_congr fun name => exists_congr fun i => and_congr_right fun _ => ?_
        exact ⟨fun h => ⟨by simpa using hne name h.1, h⟩, And.right⟩
      · rename_i hseen
        rw [← hothers]
        split
        · rename_i t ht
          simp [hseen, ht]
        · rename_i hnone
          simp [hnone]

/-- Types are listed in the order of the source. -/
theorem indices_typeDeclarations (r : Registries) (seen : List String) (ds : List (Decl × Nat)) :
    ((typeDeclarations m r seen ds).map (·.1)).Sublist (ds.map (·.2)) := by
  induction ds generalizing seen with
  | nil => exact .slnil
  | cons e ds ih =>
    obtain ⟨e, index⟩ := e
    cases e with
    | fn e | active e => exact (ih seen).cons index
    | type e =>
      rw [typeDeclarations]
      split
      · exact (ih seen).cons index
      · split
        · exact (ih _).cons_cons index
        · exact (ih _).cons index

end Module

/-! ## Values -/

/-- The typed form of a declaration as it is reported: that of a group without faults is completed
by the checks of ownership and of matches. -/
def TDecl.reported (r : Registries) (failed : Bool) (d : TDecl) : TDecl :=
  if failed then d else (d.analyze r).1

namespace Module

variable {m : Module} {r : Registries} {config : CheckConfig} {env : TypeEnv} {group : List Nat}
  {i : Nat} {c : CheckedDecl}

/-- What the pass over a group has worked out of its declarations, in order. -/
def workedOut (m : Module) (r : Registries) (config : CheckConfig) (env : TypeEnv)
    (group : List Nat) : List Checker.Checked :=
  ((Checker.inferGroup r ((m.declsAt group).filterMap Decl.value?)).run
    (.start env config.traceInference)).1

/-- The result of checking a group by itself. -/
def groupResult (m : Module) (r : Registries) (config : CheckConfig) (env : TypeEnv)
    (group : List Nat) : GroupResult :=
  RowCheck.checkGroup r env config.traceInference (m.declsAt group)

/-- Whether a typed declaration is what checking a group makes of the declaration at an index: the
pass has worked out something of that one, and this is its settled form as it is reported. -/
def Makes (m : Module) (r : Registries) (config : CheckConfig) (env : TypeEnv) (group : List Nat)
    (i : Nat) (d : TDecl) : Prop :=
  ∃ (p : Nat) (k : Checker.Checked) (s : Substitution), group[p]? = some i ∧
    (m.workedOut r config env group)[p]? = some k ∧ m[i]?.bind Decl.value? = some k.decl ∧
    (m.groupResult r config env group).decls[p]? = some (k.settle r s) ∧
    d = (k.settle r s).reported r (m.groupResult r config env group).hasErrors

theorem exists_settle (m : Module) (r : Registries) (config : CheckConfig) (env : TypeEnv)
    (group : List Nat) : ∃ s, (m.groupResult r config env group).decls =
      (m.workedOut r config env group).map (Checker.Checked.settle r s) := ⟨_, rfl⟩

/-- The pass over a group works out its declarations one by one. -/
theorem workedOut_values (h : ∀ i ∈ group, ∃ name, m.FirstValue name i) :
    List.Forall₂ (fun (i : Nat) (k : Checker.Checked) => m[i]?.bind Decl.value? = some k.decl) group
      (m.workedOut r config env group) := by
  have hks := Checker.inferGroup_answers (r := r) ((m.declsAt group).filterMap Decl.value?)
    (.start env config.traceInference)
  have hvalues : List.Forall₂ (fun (i : Nat) v => m[i]?.bind Decl.value? = some v) group
      ((m.declsAt group).filterMap Decl.value?) := by
    clear hks
    induction group with
    | nil => exact .nil
    | cons i group ih =>
      rw [List.forall_mem_cons] at h
      obtain ⟨⟨name, hname⟩, hrest⟩ := h
      obtain ⟨d, hd, hvalue⟩ := Option.bind_eq_some_iff.1 hname.1
      obtain ⟨v, hv⟩ : ∃ v, d.value? = some v := by
        cases d with
        | type d => cases hvalue
        | fn d | active d => exact ⟨_, rfl⟩
      have hcons : (m.declsAt (i :: group)).filterMap Decl.value? =
          v :: (m.declsAt group).filterMap Decl.value? := by
        rw [declsAt, List.filterMap_cons_some hd, List.filterMap_cons_some hv]
        rfl
      exact hcons ▸ .cons (by rw [hd]; exact hv) (ih hrest)
  rw [← hks] at hvalues
  exact (List.forall₂_map_right_iff
    (R := fun (i : Nat) v => m[i]?.bind Decl.value? = some v)).1 hvalues

theorem checkGroup_declarations_eq : (m.checkGroup r config env group).declarations =
    (group.zip ((m.groupResult r config env group).decls.map
      (TDecl.reported r (m.groupResult r config env group).hasErrors))).map fun d =>
        (d.1, ⟨d.2.name, d.2,
          (SortedMap.ofList (m.checkGroup r config env group).schemes).get? d.2.name⟩) := by
  have hanalyzed : ∀ (failed : Bool) (ds : List TDecl), ds.map (TDecl.reported r failed) =
      (if failed then ds.map (fun d => (d, [])) else ds.map (·.analyze r)).map (·.1) := by
    intro failed ds
    cases failed with
    | false => simp [Function.comp_def, TDecl.reported]
    | true =>
      have hid : TDecl.reported r true = id := rfl
      simp [Function.comp_def, hid]
  rw [hanalyzed, List.zip_map_right, List.map_map]
  rfl

/-- What a group contributes of the declaration at an index. -/
theorem mem_checkGroup_declarations (h : ∀ i ∈ group, ∃ name, m.FirstValue name i) :
    (i, c) ∈ (m.checkGroup r config env group).declarations ↔
      m.Makes r config env group i c.decl ∧ c.name = c.decl.name ∧
        c.scheme = (SortedMap.ofList (m.checkGroup r config env group).schemes).get? c.name := by
  obtain ⟨s, hs⟩ := m.exists_settle r config env group
  rw [checkGroup_declarations_eq, List.mem_map]
  simp only [Prod.exists, Prod.mk.injEq]
  constructor
  · rintro ⟨j, d, hd, rfl, rfl⟩
    obtain ⟨p, hp⟩ := List.mem_iff_getElem?.1 hd
    obtain ⟨hi, hd⟩ := List.getElem?_zip_eq_some.1 hp
    rw [hs, List.map_map, List.getElem?_map, Option.map_eq_some_iff] at hd
    obtain ⟨k, hk, rfl⟩ := hd
    dsimp only
    refine ⟨⟨p, k, s, hi, hk, ?_, ?_, rfl⟩, rfl, rfl⟩
    · have hzip : (j, k) ∈ group.zip (m.workedOut r config env group) :=
        List.mem_of_getElem? (List.getElem?_zip_eq_some.2 ⟨hi, hk⟩)
      exact (List.forall₂_iff_zip.1 (workedOut_values h)).2 hzip
    · rw [hs, List.getElem?_map, hk]
      rfl
  · rintro ⟨⟨p, k, s, hi, -, -, hk, hd⟩, hname, hscheme⟩
    refine ⟨i, c.decl, List.mem_iff_getElem?.2 ⟨p, List.getElem?_zip_eq_some.2 ⟨hi, ?_⟩⟩, rfl, ?_⟩
    · rw [List.getElem?_map, hk, hd]
      rfl
    · rw [← hname, ← hscheme]

theorem indices_checkGroup (h : ∀ i ∈ group, ∃ name, m.FirstValue name i) :
    (m.checkGroup r config env group).declarations.map (·.1) = group := by
  have hdecls := (checkGroup_declarations r config env h).imp fun _ _ hd => hd.index.symm
  exact (List.forall₂_eq_eq_eq ▸ List.forall₂_map_right_iff.2 hdecls).symm

theorem indices_level {level : List (List Nat)}
    (h : ∀ i ∈ level.flatten, ∃ name, m.FirstValue name i) :
    ((level.map (m.checkGroup r config env)).flatMap (·.declarations)).map (·.1) =
      level.flatten := by
  induction level with
  | nil => rfl
  | cons group level ih =>
    rw [List.flatten_cons, List.forall_mem_append] at h
    rw [List.map_cons, List.flatMap_cons, List.map_append, indices_checkGroup h.1, ih h.2,
      List.flatten_cons]

theorem indices_checkLevels {levels : List (List (List Nat))} {globals : SortedMap String Scheme}
    (h : ∀ i ∈ levels.flatten.flatten, ∃ name, m.FirstValue name i) :
    ((m.checkLevels r config levels globals).flatMap (·.declarations)).map (·.1) =
      levels.flatten.flatten := by
  induction levels generalizing globals with
  | nil => rfl
  | cons level levels ih =>
    have hrest : m.checkLevels r config (level :: levels) globals =
        level.map (m.checkGroup r config (.ofGlobals globals)) ++
          m.checkLevels r config levels (m.advance r config globals level) := rfl
    rw [List.flatten_cons, List.flatten_append, List.forall_mem_append] at h
    rw [hrest, List.flatMap_append, List.map_append, ih h.2, List.flatten_cons, List.flatten_append,
      indices_level h.1]

/-- Whether the outcome of a module reports a checked value as that of the declaration at an index:
this is the first value of its name, and its group has made the checked form of it, with the scheme
that is reported for the name. -/
structure ListsValue (m : Module) (ambient : SortedMap String Scheme) (config : CheckConfig)
    (i : Nat) (c : CheckedDecl) : Prop where
  first : m.FirstValue c.name i
  scheme : ∃ s, c.scheme = some s ∧ (m.check ambient config).schemes.get? c.name = some s
  made : ∃ (k : Nat) (_ : k < (m.schedule m.registries.1).length),
    ∃ group ∈ (m.schedule m.registries.1)[k], m.Makes m.registries.1 config
      (.ofGlobals (m.globalsAt m.registries.1 config ambient k)) group i c.decl

/-- Whether the outcome of a module reports a checked type as that of the declaration at an index:
this is the first type declaration of its name, and a type is registered under the name. -/
structure ListsType (m : Module) (i : Nat) (c : CheckedDecl) : Prop where
  first : m.FirstOf Decl.sumName? c.name i
  type : ∃ t, c = ⟨t.name, .type t, none⟩ ∧ ∃ j, m.Registers j t

/-- The declarations that the outcome of a module lists, with their indices. -/
def entries (m : Module) (ambient : SortedMap String Scheme) (config : CheckConfig) :
    List (Nat × CheckedDecl) :=
  (typeDeclarations m m.registries.1 [] m.zipIdx ++ ((m.groupOutputs ambient config).mergeSort
    (fun a b => a.first ≤ b.first)).flatMap (·.declarations)).mergeSort (fun a b => a.1 ≤ b.1)

variable {ambient : SortedMap String Scheme}

theorem check_declarations (m : Module) (ambient : SortedMap String Scheme) (config : CheckConfig) :
    (m.check ambient config).declarations = (m.entries ambient config).map (·.2) := rfl

/-- Sorted by indices that are all different, the indices are strictly ascending. -/
theorem pairwise_lt_mergeSort {α : Type} {l : List (Nat × α)} (h : (l.map (·.1)).Nodup) :
    ((l.mergeSort (fun a b => a.1 ≤ b.1)).map (·.1)).Pairwise (· < ·) := by
  have hle : (l.mergeSort (fun a b => a.1 ≤ b.1)).Pairwise fun a b => a.1 ≤ b.1 := by
    have hsorted := @List.pairwise_mergeSort _ (fun (a b : Nat × α) => decide (a.1 ≤ b.1))
      (fun a b c hab hbc => decide_eq_true (Nat.le_trans (of_decide_eq_true hab)
        (of_decide_eq_true hbc))) (fun a b => by simpa using Nat.le_total a.1 b.1) l
    simpa using hsorted
  have hne := ((List.mergeSort_perm l (fun a b => a.1 ≤ b.1)).map (·.1)).nodup_iff.2 h
  have hboth := (List.pairwise_map.2 hle).and hne
  exact hboth.imp fun hab => Nat.lt_of_le_of_ne hab.1 hab.2

/-- What a group contributes of the declaration at an index is what is reported of it. -/
theorem Contributes.listsValue {k : Nat} {o : GroupOutput}
    (ho : m.Contributes m.registries.1 config ambient k o) (hc : (i, c) ∈ o.declarations) :
    m.ListsValue ambient config i c := by
  have hfirst := ho.firstValue hc
  obtain ⟨hk, group, hgroup, rfl⟩ := id ho
  have hgroupFirst := firstValue_of_mem_group hk hgroup
  obtain ⟨hmakes, -, hscheme⟩ := (mem_checkGroup_declarations hgroupFirst).1 hc
  have hschemes := checkGroup_schemes m.registries.1 config
    (.ofGlobals (m.globalsAt m.registries.1 config ambient k)) hgroupFirst
  have honce : group.Nodup := by
    have hflat := (m.scheduled_schedule m.registries.1).once
    refine hflat.sublist (List.sublist_flatten_of_mem (List.mem_flatten_of_mem ?_ hgroup))
    exact List.getElem_mem hk
  obtain ⟨j, hj, hdeclared⟩ := exists_declares hk hgroup hc
  obtain rfl : i = j := hdeclared.index
  obtain ⟨name, hname, hnamed⟩ := exists_of_forall₂ hschemes.flip hj
  obtain ⟨⟨x, s⟩, hs, rfl⟩ := List.mem_map.1 hname
  obtain rfl : x = c.name := FirstValue.name_unique hnamed hfirst
  refine ⟨hfirst, ⟨s, ?_, get?_check_schemes.2 ⟨k, _, ho, hs⟩⟩, k, hk, group, hgroup, hmakes⟩
  rw [hscheme, SortedMap.ofList,
    SortedMap.get?_foldl_insert_iff (nodup_of_firstValue honce hschemes)]
  exact .inl hs

theorem exists_contributes_iff : (∃ o ∈ m.groupOutputs ambient config, (i, c) ∈ o.declarations) ↔
    m.ListsValue ambient config i c := by
  constructor
  · rintro ⟨o, ho, hc⟩
    obtain ⟨k, hk⟩ := mem_groupOutputs.1 ho
    exact hk.listsValue hc
  · rintro ⟨hfirst, ⟨s, hs, hreported⟩, k, hk, group, hgroup, hmakes⟩
    have hgroupFirst := firstValue_of_mem_group hk hgroup
    have ho : m.Contributes m.registries.1 config ambient k _ := ⟨hk, group, hgroup, rfl⟩
    have hc := (mem_checkGroup_declarations (c := ⟨c.decl.name, c.decl, (SortedMap.ofList
      (m.checkGroup m.registries.1 config (.ofGlobals (m.globalsAt m.registries.1 config ambient k))
        group).schemes).get? c.decl.name⟩) hgroupFirst).2 ⟨hmakes, rfl, rfl⟩
    obtain ⟨hsame, ⟨t, ht, htreported⟩, -⟩ := ho.listsValue hc
    have hname : c.decl.name = c.name := FirstValue.name_unique hsame hfirst
    dsimp only at ht htreported
    rw [hname] at ht htreported hc
    obtain rfl : t = s := Option.some.inj (htreported.symm.trans hreported)
    rw [ht, ← hs] at hc
    exact ⟨_, mem_groupOutputs.2 ⟨k, ho⟩, hc⟩

/-- What is listed is the values and the types. -/
theorem mem_entries : (i, c) ∈ m.entries ambient config ↔
    m.ListsValue ambient config i c ∨ m.ListsType i c := by
  rw [entries, List.mem_mergeSort, List.mem_append, or_comm]
  refine or_congr ?_ ?_
  · rw [List.mem_flatMap, ← exists_contributes_iff]
    simp only [List.mem_mergeSort]
  · rw [mem_typeDeclarations]
    constructor
    · rintro ⟨name, j, hfirst, -, t, ht, heq⟩
      obtain ⟨rfl, hregisters⟩ := get?_registries_types.1 ht
      obtain ⟨rfl, rfl⟩ := Prod.mk.inj heq
      rw [Nat.zero_add]
      exact ⟨hfirst, t, rfl, hregisters⟩
    · rintro ⟨hfirst, t, rfl, hregisters⟩
      exact ⟨t.name, i, hfirst, List.not_mem_nil, t, get?_registries_types.2 ⟨rfl, hregisters⟩,
        by rw [Nat.zero_add]⟩

/-- What is listed comes in the order of the source, and only once. -/
theorem pairwise_entries (m : Module) (ambient : SortedMap String Scheme) (config : CheckConfig) :
    ((m.entries ambient config).map (·.1)).Pairwise (· < ·) := by
  refine pairwise_lt_mergeSort ?_
  have hs := m.scheduled_schedule m.registries.1
  have hgroups := ((List.mergeSort_perm (m.groupOutputs ambient config)
    (fun a b => a.first ≤ b.first)).flatMap_right (·.declarations)).map (·.1)
  rw [List.map_append, List.nodup_append']
  refine ⟨?_, ?_, fun i htype hvalue => ?_⟩
  · refine (indices_typeDeclarations m.registries.1 [] m.zipIdx).nodup ?_
    rw [List.zipIdx_map_snd]
    exact List.nodup_range'
  · rw [hgroups.nodup_iff, groupOutputs, indices_checkLevels fun i hi => (hs.covers i).1 hi]
    exact hs.once
  · have hfirst : ∃ name, m.FirstValue name i := by
      rw [hgroups.mem_iff, groupOutputs,
        indices_checkLevels fun i hi => (hs.covers i).1 hi] at hvalue
      exact (hs.covers i).1 hvalue
    obtain ⟨x, hx, rfl⟩ := List.mem_map.1 htype
    obtain ⟨other, j, hother, -, t, -, rfl⟩ := mem_typeDeclarations.1 hx
    obtain ⟨name, hname, -⟩ := hfirst
    obtain ⟨d, hd, hdtype⟩ := Option.bind_eq_some_iff.1 hother.1
    dsimp only at hname
    rw [Nat.zero_add, hd] at hname
    cases d with
    | type d => cases hname
    | fn d | active d => cases hdtype

/-! ## Everything that is declared -/

theorem exists_listsValue {name : String} (h : m.FirstValue name i) :
    ∃ c, c.name = name ∧ m.ListsValue ambient config i c := by
  obtain ⟨o, ho, ⟨c, hc, hname, -⟩, -⟩ := exists_output m ambient config h
  exact ⟨c, hname, exists_contributes_iff.1 ⟨o, ho, hc⟩⟩

/-- The names that have schemes are those of values. -/
theorem isSome_get?_check_schemes {name : String} :
    ((m.check ambient config).schemes.get? name).isSome = true ↔ ∃ i, m.FirstValue name i := by
  constructor
  · intro h
    obtain ⟨s, hs⟩ := Option.isSome_iff_exists.1 h
    obtain ⟨k, o, ⟨hk, group, hgroup, rfl⟩, hmem⟩ := get?_check_schemes.1 hs
    obtain ⟨i, -, hi⟩ := exists_firstValue_of_scheme hk hgroup hmem
    exact ⟨i, hi⟩
  · rintro ⟨i, hi⟩
    obtain ⟨-, -, -, s, hs⟩ := exists_output m ambient config hi
    rw [hs]
    rfl

/-- What is the first to claim its name is the first of its kind under that name. -/
theorem firstOf_sumName {d : TypeDecl} (hi : m[i]? = some (.type d))
    (h : m.FirstOf Claims.typeName? d.name.text i) : m.FirstOf Decl.sumName? d.name.text i := by
  refine ⟨by rw [hi]; rfl, fun j hj hother => h.2 j hj ?_⟩
  obtain ⟨e, he, hname⟩ := Option.bind_eq_some_iff.1 hother
  rw [he]
  cases e with
  | type e => exact hname
  | fn e | active e => cases hname

/-- The type that is listed for a declaration is the one that is built from it, unless an active
pattern of the same name comes before. -/
theorem ListsType.registers {t : SumType} (h : m.ListsType i ⟨t.name, .type t, none⟩) :
    m.Registers i t ∨ ∃ j < i, m.Registers j t ∧ ∃ d, m[j]? = some (.active d) := by
  obtain ⟨hfirst, t', heq, j, hj⟩ := h
  obtain rfl : t = t' := by injection heq with _ htype; injection htype
  obtain ⟨e, he, hname⟩ := Option.bind_eq_some_iff.1 hfirst.1
  have hclaims : m[i]?.bind Claims.typeName? = some t.name := by
    rw [he]
    cases e with
    | type e => exact hname
    | fn e | active e => cases hname
  rcases Nat.lt_trichotomy i j with hlt | rfl | hlt
  · exact absurd hclaims (hj.1.2 i hlt)
  · exact .inl hj
  · obtain ⟨d, hd, hdname⟩ := Option.bind_eq_some_iff.1 hj.1.1
    refine .inr ⟨j, hlt, hj, ?_⟩
    cases d with
    | fn d => cases hdname
    | type d =>
      refine absurd ?_ (hfirst.2 j hlt)
      rw [hd]
      exact hdname
    | active d => exact ⟨d, hd⟩

/-- Whatever a module declares, its outcome lists what was declared. The declarations come in the
order of the source, each once: the first value of each name as its group has checked it, with the
scheme that is reported, and the first type declaration of each name if a type of that name is
registered. Each type declaration that is the first to claim its name is listed with the type that
is built from it; the others that are listed come after an active pattern of the same name, and are
listed with the type that is built from that. Schemes are reported for the names of values only. -/
theorem check_lists (m : Module) (ambient : SortedMap String Scheme) (config : CheckConfig) :
    ∃ entries : List (Nat × CheckedDecl),
      (m.check ambient config).declarations = entries.map (·.2) ∧
      (entries.map (·.1)).Pairwise (· < ·) ∧
      (∀ i c, (i, c) ∈ entries ↔ m.ListsValue ambient config i c ∨ m.ListsType i c) ∧
      (∀ name i, m.FirstValue name i → ∃ c, c.name = name ∧ m.ListsValue ambient config i c) ∧
      (∀ i d, m[i]? = some (.type d) → m.FirstOf Claims.typeName? d.name.text i →
        ∃ t, m.Registers i t ∧ m.ListsType i ⟨d.name.text, .type t, none⟩) ∧
      (∀ i t, m.ListsType i ⟨t.name, .type t, none⟩ → m.Registers i t ∨
        ∃ j < i, m.Registers j t ∧ ∃ d, m[j]? = some (.active d)) ∧
      ∀ name, ((m.check ambient config).schemes.get? name).isSome = true ↔
        ∃ i, m.FirstValue name i := by
  refine ⟨m.entries ambient config, m.check_declarations ambient config,
    m.pairwise_entries ambient config, fun _ _ => mem_entries, fun _ _ => exists_listsValue,
    fun i d hi hfirst => ?_, fun _ _ h => h.registers, fun _ => isSome_get?_check_schemes⟩
  obtain ⟨t, ht, hname⟩ := exists_registers hi hfirst
  refine ⟨t, ht, firstOf_sumName hi hfirst, t, ?_, i, ht⟩
  rw [hname]

/-- An active pattern and, after it, a type of the same name:
`active P { A } total (n : s32) = A` and `type P = B`. -/
def claimed : Module :=
  let name := Name.mk .synthetic
  let s32 := TypeExpr.named .synthetic "s32" []
  [.active ⟨.synthetic, name "P", [⟨name "A", []⟩], true, ⟨name "n", some s32⟩,
      .construct .synthetic (name "A") []⟩,
    .type ⟨.synthetic, name "P", [], [⟨name "B", []⟩]⟩]

/-- The type declaration is rejected, and yet listed, with the type of the active pattern. -/
theorem claimed_listed : (∀ t, ¬ claimed.Registers 1 t) ∧
    (1, ⟨"P", .type ⟨"P", [], [⟨"A", []⟩]⟩, none⟩) ∈ claimed.entries ∅ .default ∧
    ⟨"P", .type ⟨"P", [], [⟨"A", []⟩]⟩, none⟩ ∈ (claimed.check ∅ .default).declarations := by
  have hentry : (1, ⟨"P", .type ⟨"P", [], [⟨"A", []⟩]⟩, none⟩) ∈ claimed.entries ∅ .default := by
    refine mem_entries.2 (.inr ⟨⟨rfl, by decide⟩, ⟨"P", [], [⟨"A", []⟩]⟩, rfl, ?_⟩)
    have hregistered : claimed.registries.1.types.get? "P" = some ⟨"P", [], [⟨"A", []⟩]⟩ := by
      decide +kernel
    exact (get?_registries_types.1 hregistered).2
  refine ⟨fun t ht => ?_, hentry, List.mem_map_of_mem (f := Prod.snd) hentry⟩
  have hname : "P" = t.name := Option.some.inj ht.1.1
  exact ht.1.2 0 Nat.zero_lt_one (congrArg some hname)

end Module

end RowCheck
