import RowCheck.Proofs.Check.Levels
import RowCheck.Proofs.Dependency.Sharing

/-!
What modules tell of the declarations that they share. If two modules define the same types, then the
groups of shared values are checked at the same levels, and those of one level see the same schemes
of shared names; so they are checked alike, by induction on the levels.
-/
namespace RowCheck

/-- Whether two groups contribute the same, apart from where in their modules they are declared. -/
structure GroupOutput.Alike (o o' : GroupOutput) : Prop where
  declarations : o.declarations.map (·.2) = o'.declarations.map (·.2)
  schemes : o.schemes = o'.schemes
  diagnostics : o.diagnostics = o'.diagnostics
  trace : o.trace = o'.trace

namespace Module

/-- The groups of a module by levels, given what it defines. -/
def schedule (m : Module) (r : Registries) : List (List (List Nat)) :=
  (DependencyGraph.ofModule m r.active).levels

/-- What the groups of a module contribute, level by level. -/
def groupOutputs (m : Module) (ambient : SortedMap String Scheme) (config : CheckConfig) :
    List GroupOutput :=
  m.checkLevels m.registries.1 config (m.schedule m.registries.1) ambient

/-- The schemes that the groups of a level of a module see. -/
def globalsAt (m : Module) (r : Registries) (config : CheckConfig)
    (ambient : SortedMap String Scheme) (k : Nat) : SortedMap String Scheme :=
  m.seen r config (m.schedule r) ambient k

/-- Whether a group of a level of a module contributes something. -/
def Contributes (m : Module) (r : Registries) (config : CheckConfig)
    (ambient : SortedMap String Scheme) (k : Nat) (o : GroupOutput) : Prop :=
  ∃ (_ : k < (m.schedule r).length), ∃ group ∈ (m.schedule r)[k],
    m.checkGroup r config (.ofGlobals (m.globalsAt r config ambient k)) group = o

/-- Whether a group of a level of a module gives a name a scheme. -/
def Gives (m : Module) (r : Registries) (config : CheckConfig) (ambient : SortedMap String Scheme)
    (k : Nat) (name : String) (s : Scheme) : Prop :=
  ∃ o, m.Contributes r config ambient k o ∧ (name, s) ∈ o.schemes

variable {m m' : Module} {r : Registries} {config : CheckConfig}
  {ambient : SortedMap String Scheme}

theorem scheduled_schedule (m : Module) (r : Registries) : m.Scheduled r.active (m.schedule r) :=
  (DependencyGraph.ofModule_represents m r.active).scheduled

theorem firstValue_of_mem_schedule {k : Nat} (hk : k < (m.schedule r).length) :
    ∀ i ∈ (m.schedule r)[k].flatten, ∃ name, m.FirstValue name i := by
  intro i hi
  obtain ⟨group, hgroup, hi⟩ := List.mem_flatten.1 hi
  refine ((m.scheduled_schedule r).covers i).1 (List.mem_flatten_of_mem ?_ hi)
  exact List.mem_flatten_of_mem (List.getElem_mem hk) hgroup

theorem firstValue_of_mem_group {k : Nat} (hk : k < (m.schedule r).length) {group : List Nat}
    (hgroup : group ∈ (m.schedule r)[k]) : ∀ i ∈ group, ∃ name, m.FirstValue name i :=
  fun i hi => firstValue_of_mem_schedule hk i (List.mem_flatten_of_mem hgroup hi)

/-! ## Schemes -/

theorem nodup_schemes {k : Nat} (hk : k < (m.schedule r).length) (env : TypeEnv) :
    ((((m.schedule r)[k].map (m.checkGroup r config env)).flatMap (·.schemes)).map (·.1)).Nodup := by
  refine nodup_of_firstValue ?_ (schemes_groups env (firstValue_of_mem_schedule hk))
  exact (m.scheduled_schedule r).once.sublist
    (List.sublist_flatten_of_mem (List.getElem_mem hk)).flatten

/-- A name has a scheme after a level if the level gives it one, or if it had one before and the level
does not give it another. -/
theorem get?_globalsAt_succ {k : Nat} {name : String} {s : Scheme} :
    (m.globalsAt r config ambient (k + 1)).get? name = some s ↔
      m.Gives r config ambient k name s ∨ (∀ t, ¬ m.Gives r config ambient k name t) ∧
        (m.globalsAt r config ambient k).get? name = some s := by
  by_cases hk : k < (m.schedule r).length
  · have hgives : ∀ t, m.Gives r config ambient k name t ↔ (name, t) ∈
        ((m.schedule r)[k].map (m.checkGroup r config
          (.ofGlobals (m.globalsAt r config ambient k)))).flatMap (·.schemes) := by
      intro t
      simp only [Gives, Contributes, List.mem_flatMap, List.mem_map]
      constructor
      · rintro ⟨o, ⟨_, h⟩, ht⟩
        exact ⟨o, h, ht⟩
      · rintro ⟨o, h, ht⟩
        exact ⟨o, ⟨hk, h⟩, ht⟩
    rw [globalsAt, seen_succ hk, advance, SortedMap.get?_foldl_insert_iff (nodup_schemes hk _)]
    simp only [hgives, List.mem_map, not_exists, not_and]
    refine or_congr_right (and_congr_left fun _ => ?_)
    exact ⟨fun h t ht => h _ ht rfl, fun h e he hname => h e.2 (hname ▸ he)⟩
  · have hnone : ∀ t, ¬ m.Gives r config ambient k name t := by
      rintro t ⟨_, ⟨hk', _⟩, _⟩
      exact hk hk'
    rw [globalsAt, seen_of_length_le (Nat.not_lt.1 hk)]
    exact ⟨fun h => .inr ⟨hnone, h⟩, fun h => (h.resolve_left (hnone s)).2⟩

/-- A scheme that a group gives is that of one of its declarations. -/
theorem exists_firstValue_of_scheme {k : Nat} (hk : k < (m.schedule r).length) {group : List Nat}
    (hgroup : group ∈ (m.schedule r)[k]) {env : TypeEnv} {name : String} {s : Scheme}
    (h : (name, s) ∈ (m.checkGroup r config env group).schemes) :
    ∃ i ∈ group, m.FirstValue name i :=
  exists_of_forall₂ (checkGroup_schemes r config env (firstValue_of_mem_group hk hgroup))
    (List.mem_map_of_mem (f := Prod.fst) h)

/-- A checked declaration that a group contributes is one of its first values. -/
theorem exists_declares {k : Nat} (hk : k < (m.schedule r).length) {group : List Nat}
    (hgroup : group ∈ (m.schedule r)[k]) {env : TypeEnv} {d : Nat × CheckedDecl}
    (h : d ∈ (m.checkGroup r config env group).declarations) : ∃ i ∈ group, m.Declares i d :=
  exists_of_forall₂ (checkGroup_declarations r config env (firstValue_of_mem_group hk hgroup)) h

theorem Contributes.firstValue {k : Nat} {o : GroupOutput}
    (ho : m.Contributes r config ambient k o) {i : Nat} {c : CheckedDecl}
    (hc : (i, c) ∈ o.declarations) : m.FirstValue c.name i := by
  obtain ⟨hk, group, hgroup, rfl⟩ := ho
  obtain ⟨j, -, hdeclared⟩ := exists_declares hk hgroup hc
  obtain rfl : i = j := hdeclared.index
  exact hdeclared.first

/-! ## Shared declarations -/

variable {names : String → Prop}

theorem map_zip_congr {α β : Type} {xs ys : List Nat} {zs : List α} {f : Nat × α → β}
    (hlength : xs.length = ys.length) (hf : ∀ i j z, f (i, z) = f (j, z)) :
    (xs.zip zs).map f = (ys.zip zs).map f := by
  induction xs generalizing ys zs with
  | nil => rw [List.eq_nil_of_length_eq_zero hlength.symm]
  | cons x xs ih =>
    obtain ⟨y, ys, rfl⟩ := List.exists_cons_of_length_eq_add_one hlength.symm
    cases zs with
    | nil => rfl
    | cons z zs =>
      rw [List.zip_cons_cons, List.zip_cons_cons, List.map_cons, List.map_cons, hf x y,
        ih (Nat.succ.inj hlength)]

/-- What a group contributes is told by the result of checking its declarations and by its length,
apart from where the declarations are. -/
theorem checkGroup_alike {env env' : TypeEnv} {group group' : List Nat}
    (hlength : group.length = group'.length)
    (h : RowCheck.checkGroup r env config.traceInference (m.declsAt group) =
      RowCheck.checkGroup r env' config.traceInference (m'.declsAt group')) :
    (m.checkGroup r config env group).Alike (m'.checkGroup r config env' group') := by
  unfold declsAt at h
  unfold checkGroup
  rw [h]
  refine ⟨?_, rfl, rfl, rfl⟩
  rw [List.map_map, List.map_map]
  exact map_zip_congr hlength fun _ _ _ => rfl

namespace Aligned

variable (h : m.Aligned m' r.active names)

include h

/-- A group of shared values has a counterpart at its level, which is checked with the same result if
the level sees the same schemes of shared names. -/
theorem exists_same_result {k : Nat} {globals globals' : SortedMap String Scheme}
    (hglobals : ∀ name, names name → globals.get? name = globals'.get? name)
    (hk : k < (m.schedule r).length) {group : List Nat} (hgroup : group ∈ (m.schedule r)[k])
    {name : String} (hname : names name) {i : Nat} (hi : i ∈ group) (hfirst : m.FirstValue name i) :
    ∃ (_ : k < (m'.schedule r).length), ∃ group' ∈ (m'.schedule r)[k],
      List.Forall₂ (Counterparts m m' names) group group' ∧
      RowCheck.checkGroup r (.ofGlobals globals) config.traceInference (m.declsAt group) =
        RowCheck.checkGroup r (.ofGlobals globals') config.traceInference (m'.declsAt group') := by
  obtain ⟨i', hi', -⟩ := h.exists_counterpart hname hfirst
  obtain ⟨hk', group', hgroup', hcs⟩ := h.exists_group (DependencyGraph.ofModule_represents m r.active)
    (DependencyGraph.ofModule_represents m' r.active) hk hgroup hi ⟨name, hname, hfirst, hi'⟩
  have hdecls : m.declsAt group = m'.declsAt group' := by
    clear hgroup hgroup' hi
    induction hcs with
    | nil => rfl
    | cons hc _ ih =>
      rw [declsAt, List.filterMap_cons, h.getElem?_eq hc, ← declsAt, ih]
      rfl
  refine ⟨hk', group', hgroup', hcs, ?_⟩
  have henv : (TypeEnv.ofGlobals globals).withGlobals globals' = .ofGlobals globals' := rfl
  rw [← hdecls, ← henv]
  symm
  refine checkGroup_withGlobals _ fun v hv other hother => ?_
  obtain ⟨d, hd, hdv⟩ := List.mem_filterMap.1 hv
  obtain ⟨j, hj, hjd⟩ := List.mem_filterMap.1 hd
  obtain ⟨j', -, x, hx, hjx, -⟩ := exists_of_forall₂ hcs.flip hj
  have hvalue : m.value? x = some d := value?_eq_some_iff.2 ⟨j, hjx, hjd⟩
  exact hglobals other (h.closed x d hx hvalue other (ValueDecl.mentioned_of_reads hdv hother))

theorem gives_of_gives {k : Nat} {name : String} {s : Scheme}
    (hglobals : ∀ name, names name → (m.globalsAt r config ambient k).get? name =
      (m'.globalsAt r config ambient k).get? name)
    (hname : names name) (hgives : m.Gives r config ambient k name s) :
    m'.Gives r config ambient k name s := by
  obtain ⟨o, ⟨hk, group, hgroup, rfl⟩, hs⟩ := hgives
  obtain ⟨i, hi, hfirst⟩ := exists_firstValue_of_scheme hk hgroup hs
  obtain ⟨hk', group', hgroup', hcs, hresult⟩ :=
    h.exists_same_result hglobals hk hgroup hname hi hfirst
  have halike := checkGroup_alike hcs.length_eq hresult
  exact ⟨_, ⟨hk', group', hgroup', rfl⟩, halike.schemes ▸ hs⟩

/-- Each level sees the same schemes of shared names. -/
theorem globalsAt_eq (k : Nat) : ∀ name, names name →
    (m.globalsAt r config ambient k).get? name = (m'.globalsAt r config ambient k).get? name := by
  induction k with
  | zero =>
    intro name _
    rw [globalsAt, seen_zero, globalsAt, seen_zero]
  | succ k ih =>
    intro name hname
    have hgives : ∀ s, m.Gives r config ambient k name s ↔ m'.Gives r config ambient k name s :=
      fun s => ⟨h.gives_of_gives ih hname,
        h.symm.gives_of_gives (fun other hother => (ih other hother).symm) hname⟩
    refine Option.ext fun s => ?_
    rw [get?_globalsAt_succ, get?_globalsAt_succ, ih name hname]
    simp only [hgives]

/-- What the group of a shared value contributes is that of a group which is checked with the same
result in the other module. -/
theorem exists_group_of_contributes {k : Nat} {o : GroupOutput}
    (ho : m.Contributes r config ambient k o) {i : Nat} {c : CheckedDecl}
    (hc : (i, c) ∈ o.declarations) (hname : names c.name) :
    ∃ env env' group group', List.Forall₂ (Counterparts m m' names) group group' ∧
      RowCheck.checkGroup r env config.traceInference (m.declsAt group) =
        RowCheck.checkGroup r env' config.traceInference (m'.declsAt group') ∧
      o = m.checkGroup r config env group ∧
      m'.Contributes r config ambient k (m'.checkGroup r config env' group') := by
  obtain ⟨hk, group, hgroup, rfl⟩ := ho
  obtain ⟨j, hj, hdeclared⟩ := exists_declares hk hgroup hc
  obtain ⟨hk', group', hgroup', hcs, hresult⟩ :=
    h.exists_same_result (h.globalsAt_eq k) hk hgroup hname hj hdeclared.first
  exact ⟨_, _, group, group', hcs, hresult, rfl, hk', group', hgroup', rfl⟩

/-- The groups of shared values contribute alike. -/
theorem exists_contributes {k : Nat} {o : GroupOutput} (ho : m.Contributes r config ambient k o)
    {i : Nat} {c : CheckedDecl} (hc : (i, c) ∈ o.declarations) (hname : names c.name) :
    ∃ o', m'.Contributes r config ambient k o' ∧ o.Alike o' ∧
      ∃ i', (i', c) ∈ o'.declarations ∧ Counterparts m m' names i i' := by
  have hfirst := ho.firstValue hc
  obtain ⟨env, env', group, group', hcs, hresult, rfl, ho'⟩ :=
    h.exists_group_of_contributes ho hc hname
  have halike := checkGroup_alike hcs.length_eq hresult
  have hmem := halike.declarations ▸ List.mem_map_of_mem (f := Prod.snd) hc
  obtain ⟨⟨i', c⟩, hc', rfl⟩ := List.mem_map.1 hmem
  exact ⟨_, ho', halike, i', hc', c.name, hname, hfirst, ho'.firstValue hc'⟩

/-- If shared values stay where they are, their groups contribute the same. -/
theorem contributes_of_fixed (hfixed : ∀ i i', Counterparts m m' names i i' → i = i') {k : Nat}
    {o : GroupOutput} (ho : m.Contributes r config ambient k o) {i : Nat} {c : CheckedDecl}
    (hc : (i, c) ∈ o.declarations) (hname : names c.name) : m'.Contributes r config ambient k o := by
  obtain ⟨env, env', group, group', hcs, hresult, rfl, ho'⟩ :=
    h.exists_group_of_contributes ho hc hname
  obtain rfl : group = group' := List.forall₂_eq_eq_eq ▸ hcs.imp fun _ _ => hfixed _ _
  unfold declsAt at hresult
  rwa [Module.checkGroup, ← hresult] at ho'

end Aligned

/-! ## Outcomes -/

theorem mem_groupOutputs {o : GroupOutput} : o ∈ m.groupOutputs ambient config ↔
    ∃ k, m.Contributes m.registries.1 config ambient k o := mem_checkLevels

/-- The groups in the order in which their outputs are reported. -/
theorem mem_sorted_groupOutputs {o : GroupOutput} :
    o ∈ (m.groupOutputs ambient config).mergeSort (fun a b => a.first ≤ b.first) ↔
      ∃ k, m.Contributes m.registries.1 config ambient k o :=
  List.mem_mergeSort.trans mem_groupOutputs

/-- The scheme of a name is the one that its group gives it. -/
theorem get?_check_schemes {name : String} {s : Scheme} :
    (m.check ambient config).schemes.get? name = some s ↔
      ∃ k, m.Gives m.registries.1 config ambient k name s := by
  have hschemes : (m.check ambient config).schemes = .ofList
      (((m.groupOutputs ambient config).mergeSort (fun a b => a.first ≤ b.first)).flatMap
        (·.schemes)) := rfl
  have hs := m.scheduled_schedule m.registries.1
  have hnodup : (((m.groupOutputs ambient config).flatMap (·.schemes)).map (·.1)).Nodup :=
    nodup_of_firstValue hs.once (schemes_checkLevels fun i hi => (hs.covers i).1 hi)
  have hperm := (((List.mergeSort_perm (m.groupOutputs ambient config)
    (fun a b => a.first ≤ b.first)).flatMap_right (·.schemes)).map (·.1))
  rw [hschemes, SortedMap.ofList, SortedMap.get?_foldl_insert_iff (hperm.nodup_iff.2 hnodup)]
  simp only [SortedMap.get?_empty, reduceCtorEq, and_false, or_false, List.mem_flatMap,
    mem_sorted_groupOutputs]
  constructor
  · rintro ⟨o, ⟨k, ho⟩, hs⟩
    exact ⟨k, o, ho, hs⟩
  · rintro ⟨k, o, ho, hs⟩
    exact ⟨o, ⟨k, ho⟩, hs⟩

theorem not_defines_of_mem_typeDeclarations {seen : List String} {ds : List (Decl × Nat)}
    {d : Nat × CheckedDecl} (h : d ∈ m.typeDeclarations r seen ds) {name : String} :
    ¬ d.2.decl.Defines name := by
  induction ds generalizing seen with
  | nil => cases h
  | cons e ds ih =>
    obtain ⟨e, index⟩ := e
    cases e with
    | fn e | active e => exact ih h
    | type e =>
      rw [typeDeclarations] at h
      split at h
      · exact ih h
      · split at h
        · rcases List.mem_cons.1 h with rfl | h
          · rintro ⟨f, hf, -⟩
            cases hf
          · exact ih h
        · exact ih h

/-- The checked values of a module are those of its groups. -/
theorem mem_check_declarations {c : CheckedDecl} (hc : c.decl.Defines c.name) :
    c ∈ (m.check ambient config).declarations ↔
      ∃ o ∈ m.groupOutputs ambient config, ∃ i, (i, c) ∈ o.declarations := by
  have hdecls : (m.check ambient config).declarations =
      ((typeDeclarations m m.registries.1 [] m.zipIdx ++ ((m.groupOutputs ambient config).mergeSort
        (fun a b => a.first ≤ b.first)).flatMap (·.declarations)).mergeSort
          (fun a b => a.1 ≤ b.1)).map (·.2) := rfl
  rw [hdecls, List.mem_map]
  simp only [List.mem_mergeSort, List.mem_append, List.mem_flatMap]
  constructor
  · rintro ⟨d, hd | ⟨o, ho, hd⟩, rfl⟩
    · exact absurd hc (not_defines_of_mem_typeDeclarations hd)
    · exact ⟨o, ho, d.1, hd⟩
  · rintro ⟨o, ho, i, hd⟩
    exact ⟨(i, c), .inr ⟨o, ho, hd⟩, rfl⟩

/-- What a group reports is part of what is reported of the module, in one piece. -/
theorem diagnostics_within {o : GroupOutput} (ho : o ∈ m.groupOutputs ambient config) :
    o.diagnostics <:+: (m.check ambient config).diagnostics := by
  have hdiagnostics : (m.check ambient config).diagnostics = m.registries.2 ++
      ((m.groupOutputs ambient config).mergeSort (fun a b => a.first ≤ b.first)).flatMap
        (·.diagnostics) := rfl
  rw [hdiagnostics]
  obtain ⟨before, after, hsplit⟩ := List.append_of_mem (List.mem_mergeSort.2 ho)
  rw [hsplit, List.flatMap_append, List.flatMap_cons, ← List.append_assoc, ← List.append_assoc]
  exact ⟨_, _, rfl⟩

/-- Each first value is in the output of a group, in its checked form and with a scheme. -/
theorem exists_output (m : Module) (ambient : SortedMap String Scheme) (config : CheckConfig)
    {name : String} {i : Nat} (hi : m.FirstValue name i) :
    ∃ o ∈ m.groupOutputs ambient config,
      (∃ c : CheckedDecl, (i, c) ∈ o.declarations ∧ c.name = name ∧ c.decl.Defines name) ∧
      ∃ s, (m.check ambient config).schemes.get? name = some s := by
  obtain ⟨group, hgroup, hig⟩ := List.mem_flatten.1
    (((m.scheduled_schedule m.registries.1).covers i).2 ⟨name, hi⟩)
  obtain ⟨level, hlevel, hmem⟩ := List.mem_flatten.1 hgroup
  obtain ⟨k, hk, rfl⟩ := List.mem_iff_getElem.1 hlevel
  have hfirst := firstValue_of_mem_group hk hmem
  have hdecls := checkGroup_declarations m.registries.1 config
    (.ofGlobals (m.globalsAt m.registries.1 config ambient k)) hfirst
  have hschemes := checkGroup_schemes m.registries.1 config
    (.ofGlobals (m.globalsAt m.registries.1 config ambient k)) hfirst
  have hcontributes : m.Contributes m.registries.1 config ambient k _ := ⟨hk, group, hmem, rfl⟩
  obtain ⟨⟨j, c⟩, hc, hdeclared⟩ := exists_of_forall₂ hdecls.flip hig
  obtain ⟨other, hs, hother⟩ := exists_of_forall₂ hschemes.flip hig
  obtain ⟨⟨x, s⟩, hs, hx⟩ := List.mem_map.1 hs
  obtain rfl : x = name := Eq.trans hx (FirstValue.name_unique hother hi)
  obtain rfl : j = i := hdeclared.index
  obtain rfl : c.name = x := hdeclared.first.name_unique hi
  exact ⟨_, mem_groupOutputs.2 ⟨k, hcontributes⟩, ⟨c, hc, rfl, hdeclared.defines⟩, s,
    get?_check_schemes.2 ⟨k, _, hcontributes, hs⟩⟩

namespace Aligned

variable (h : m.Aligned m' m.registries.1.active names) (hr : m.registries.1 = m'.registries.1)

include h hr

/-- Shared names have the same schemes. -/
theorem get?_check_schemes_eq {name : String} (hname : names name) :
    (m.check ambient config).schemes.get? name = (m'.check ambient config).schemes.get? name := by
  refine Option.ext fun s => ?_
  rw [get?_check_schemes, get?_check_schemes, ← hr]
  refine exists_congr fun k => ⟨h.gives_of_gives (h.globalsAt_eq k) hname, ?_⟩
  exact h.symm.gives_of_gives (h.symm.globalsAt_eq k) hname

/-- What a group of shared values contributes, a group of the other module does too. -/
theorem exists_groupOutput {o : GroupOutput} (ho : o ∈ m.groupOutputs ambient config) {i : Nat}
    {c : CheckedDecl} (hc : (i, c) ∈ o.declarations) (hname : names c.name) :
    ∃ o' ∈ m'.groupOutputs ambient config, o.Alike o' ∧
      ∃ i', (i', c) ∈ o'.declarations ∧ Counterparts m m' names i i' := by
  obtain ⟨k, hk⟩ := mem_groupOutputs.1 ho
  obtain ⟨o', ho', halike, hc'⟩ := h.exists_contributes hk hc hname
  exact ⟨o', mem_groupOutputs.2 ⟨k, hr ▸ ho'⟩, halike, hc'⟩

/-- Shared values have the same checked form. -/
theorem mem_check_declarations_iff {c : CheckedDecl} (hc : c.decl.Defines c.name)
    (hname : names c.name) : c ∈ (m.check ambient config).declarations ↔
      c ∈ (m'.check ambient config).declarations := by
  rw [mem_check_declarations hc, mem_check_declarations hc]
  constructor
  · rintro ⟨o, ho, i, hi⟩
    obtain ⟨o', ho', -, i', hi', -⟩ := h.exists_groupOutput hr ho hi hname
    exact ⟨o', ho', i', hi'⟩
  · rintro ⟨o, ho, i, hi⟩
    have h' : m'.Aligned m m'.registries.1.active names := hr ▸ h.symm
    obtain ⟨o', ho', -, i', hi', -⟩ := h'.exists_groupOutput hr.symm ho hi hname
    exact ⟨o', ho', i', hi'⟩

end Aligned

end Module
end RowCheck
