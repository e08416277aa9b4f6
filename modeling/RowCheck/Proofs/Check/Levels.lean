import RowCheck.Proofs.Check.Groups

/-!
Checking the levels of a module one after the other. The groups of a level see the schemes of the
levels before it; all groups together give each first value one scheme.
-/
namespace RowCheck

/-- Each entry of a list is related to one of the list that it is related to entry by entry. -/
theorem exists_of_forall₂ {α β : Type} {R : α → β → Prop} {xs : List α} {ys : List β}
    (h : List.Forall₂ R xs ys) {y : β} (hy : y ∈ ys) : ∃ x ∈ xs, R x y := by
  induction h with
  | nil => cases hy
  | @cons a b xs ys hab _ ih =>
    rcases List.mem_cons.1 hy with rfl | hy
    · exact ⟨a, List.mem_cons_self, hab⟩
    · obtain ⟨x, hx, hxy⟩ := ih hy
      exact ⟨x, List.mem_cons_of_mem a hx, hxy⟩

namespace Module

variable (m : Module) (r : Registries) (config : CheckConfig)

/-- The schemes that are known when a level has been checked, given those known before. -/
def advance (globals : SortedMap String Scheme) (level : List (List Nat)) :
    SortedMap String Scheme :=
  ((level.map (m.checkGroup r config (.ofGlobals globals))).flatMap (·.schemes)).foldl
    (fun g s => g.insert s.1 s.2) globals

/-- The schemes that the groups of a level see. -/
def seen (levels : List (List (List Nat))) (globals : SortedMap String Scheme) (k : Nat) :
    SortedMap String Scheme :=
  (levels.take k).foldl (m.advance r config) globals

variable {m} {r} {config} {levels : List (List (List Nat))} {globals : SortedMap String Scheme}

theorem seen_zero : m.seen r config levels globals 0 = globals := by
  rw [seen, List.take_zero, List.foldl_nil]

theorem seen_succ {k : Nat} (hk : k < levels.length) : m.seen r config levels globals (k + 1) =
    m.advance r config (m.seen r config levels globals k) levels[k] := by
  rw [seen, List.take_succ_eq_append_getElem hk, List.foldl_concat]
  rfl

theorem seen_of_length_le {k : Nat} (hk : levels.length ≤ k) :
    m.seen r config levels globals (k + 1) = m.seen r config levels globals k := by
  rw [seen, seen, List.take_of_length_le hk, List.take_of_length_le (Nat.le_succ_of_le hk)]

/-- What the groups of all levels contribute. -/
theorem mem_checkLevels {o : GroupOutput} : o ∈ m.checkLevels r config levels globals ↔
    ∃ (k : Nat) (_ : k < levels.length), ∃ group ∈ levels[k],
      m.checkGroup r config (.ofGlobals (m.seen r config levels globals k)) group = o := by
  induction levels generalizing globals with
  | nil => simp [checkLevels]
  | cons level levels ih =>
    have hrest : m.checkLevels r config (level :: levels) globals =
        level.map (m.checkGroup r config (.ofGlobals globals)) ++
          m.checkLevels r config levels (m.advance r config globals level) := rfl
    rw [hrest, List.mem_append, List.mem_map, ih]
    constructor
    · rintro (⟨group, hgroup, ho⟩ | ⟨k, hk, group, hgroup, ho⟩)
      · exact ⟨0, Nat.zero_lt_succ _, group, hgroup, ho⟩
      · exact ⟨k + 1, Nat.succ_lt_succ hk, group, hgroup, ho⟩
    · rintro ⟨_ | k, hk, group, hgroup, ho⟩
      · exact .inl ⟨group, hgroup, ho⟩
      · exact .inr ⟨k, Nat.lt_of_succ_lt_succ hk, group, hgroup, ho⟩

/-- The names that some groups give schemes are those of their declarations. -/
theorem schemes_groups {groups : List (List Nat)} (env : TypeEnv)
    (h : ∀ i ∈ groups.flatten, ∃ name, m.FirstValue name i) :
    List.Forall₂ (fun i name => m.FirstValue name i) groups.flatten
      (((groups.map (m.checkGroup r config env)).flatMap (·.schemes)).map (·.1)) := by
  induction groups with
  | nil => exact .nil
  | cons group groups ih =>
    rw [List.flatten_cons, List.forall_mem_append] at h
    rw [List.map_cons, List.flatMap_cons, List.map_append, List.flatten_cons]
    exact List.rel_append (checkGroup_schemes r config env h.1) (ih h.2)

theorem schemes_checkLevels (h : ∀ i ∈ levels.flatten.flatten, ∃ name, m.FirstValue name i) :
    List.Forall₂ (fun i name => m.FirstValue name i) levels.flatten.flatten
      (((m.checkLevels r config levels globals).flatMap (·.schemes)).map (·.1)) := by
  induction levels generalizing globals with
  | nil => exact .nil
  | cons level levels ih =>
    have hrest : m.checkLevels r config (level :: levels) globals =
        level.map (m.checkGroup r config (.ofGlobals globals)) ++
          m.checkLevels r config levels (m.advance r config globals level) := rfl
    rw [List.flatten_cons, List.flatten_append, List.forall_mem_append] at h
    rw [hrest, List.flatMap_append, List.map_append, List.flatten_cons, List.flatten_append]
    exact List.rel_append (schemes_groups _ h.1) (ih h.2)

/-- Values that are declared once have one name each. -/
theorem nodup_of_firstValue {is : List Nat} {names : List String} (his : is.Nodup)
    (h : List.Forall₂ (fun i name => m.FirstValue name i) is names) : names.Nodup := by
  have hunique : Relator.BiUnique fun (i : Nat) (name : String) => m.FirstValue name i :=
    ⟨fun _ _ _ hi hj => hi.unique hj, fun _ _ _ hi hj => Option.some.inj (hi.1.symm.trans hj.1)⟩
  exact (List.rel_nodup hunique h).1 his

end Module
end RowCheck
