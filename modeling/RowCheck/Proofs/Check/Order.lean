import RowCheck.Proofs.Check.Definitions
import RowCheck.Proofs.Check.Sharing

/-!
The order of declarations. A module in which nothing is defined twice can be permuted without a
change to any scheme, as long as the values that depend on each other keep their order. Within a
group the order does tell: a value that is generalized first has its rows closed first, and with them
what the types of the others share of these rows.
-/
namespace RowCheck.Module

variable {m m' : Module}

theorem Distinct.pairwise_valueText (h : m.Distinct) :
    m.Pairwise fun d e => ∀ name, d.valueText? = some name → e.valueText? ≠ some name :=
  pairwise_of_nodup_filterMap (List.map_filterMap ▸ h.values)

/-- If nothing is defined twice, a name is bound by the one declaration that binds it. -/
theorem Distinct.value?_eq_some_iff (h : m.Distinct) {name : String} {d : Decl} :
    m.value? name = some d ↔ d ∈ m ∧ d.valueText? = some name := by
  constructor
  · intro hd
    exact ⟨List.mem_of_find?_eq_some hd, by simpa using List.find?_some hd⟩
  · rintro ⟨hmem, hname⟩
    obtain ⟨e, he⟩ : ∃ e, m.value? name = some e := by
      rw [← Option.isSome_iff_exists, value?, List.find?_isSome]
      exact ⟨d, hmem, by simpa using hname⟩
    have hsame : m.Pairwise fun d e => d.valueText? = some name → e.valueText? = some name → d = e :=
      h.pairwise_valueText.imp fun hne hd he => absurd he (hne name hd)
    have : Std.Symm fun d e : Decl => d.valueText? = some name → e.valueText? = some name → d = e :=
      ⟨fun _ _ h he hd => (h hd he).symm⟩
    have hen : e.valueText? = some name := by simpa using List.find?_some he
    have hmem' := List.mem_of_find?_eq_some he
    rw [hsame.forall_of_forall (fun _ _ _ _ => rfl) hmem hmem' hname hen, he]

theorem value?_perm (h : m.Distinct) (hperm : m.Perm m') (name : String) :
    m.value? name = m'.value? name := by
  refine Option.ext fun d => ?_
  rw [h.value?_eq_some_iff, (h.perm hperm).value?_eq_some_iff, hperm.mem_iff]

/-- Whether values that depend on each other are declared in the same order in two modules. -/
def OrdersGroupsLike (m m' : Module) (active : ActiveRegistry) : Prop :=
  ∀ {i i' j j'}, Counterparts m m' (fun _ => True) i i' → Counterparts m m' (fun _ => True) j j' →
    m.Depends active i j → m.Depends active j i → i < j → i' < j'

/-- A module shares all of its values with its permutations. -/
theorem aligned_perm {active : ActiveRegistry} (h : m.Distinct) (hperm : m.Perm m')
    (horder : m.OrdersGroupsLike m' active) : m.Aligned m' active fun _ => True where
  same name _ := value?_perm h hperm name
  closed _ _ _ _ _ _ := trivial
  ordered := horder

/-- If nothing is defined twice, then whatever the order of the declarations, all names have the same
schemes and all values the same checked forms, as long as the order within groups is the same. -/
theorem check_perm (m m' : Module) (ambient : SortedMap String Scheme) (config : CheckConfig)
    (h : m.Distinct) (hperm : m.Perm m')
    (horder : m.OrdersGroupsLike m' m.registries.1.active) :
    (∀ name, (m.check ambient config).schemes.get? name =
      (m'.check ambient config).schemes.get? name) ∧
    ∀ c : CheckedDecl, c.decl.Defines c.name →
      (c ∈ (m.check ambient config).declarations ↔ c ∈ (m'.check ambient config).declarations) := by
  have haligned := aligned_perm h hperm horder
  have hr := registries_perm h hperm
  exact ⟨fun _ => haligned.get?_check_schemes_eq hr trivial,
    fun _ hc => haligned.mem_check_declarations_iff hr hc trivial⟩

/-- A function that passes itself on: `fn f(u) { g(f) }`. -/
def relay : Decl :=
  let var := Expr.var .synthetic
  .fn ⟨.synthetic, ⟨.synthetic, "f"⟩, [⟨⟨.synthetic, "u"⟩, none⟩], none, none,
    .call .synthetic (var "g") [var "f"]⟩

/-- A function that calls what it is given: `fn g(h) { if true { h(1) } else { f(1) } }`. -/
def callGiven : Decl :=
  let call := fun f => Expr.call .synthetic (.var .synthetic f) [.lit .synthetic (.int 1)]
  .fn ⟨.synthetic, ⟨.synthetic, "g"⟩, [⟨⟨.synthetic, "h"⟩, none⟩], none, none,
    .cond .synthetic (.lit .synthetic (.bool true)) (call "h") (call "f")⟩

/-- A use of both: `fn main() { g(f) }`. -/
def entry : Decl :=
  let var := Expr.var .synthetic
  .fn ⟨.synthetic, ⟨.synthetic, "main"⟩, [], none, none, .call .synthetic (var "g") [var "f"]⟩

/-- A declaration outside of a group can be put before it. -/
theorem check_entry_first :
    Distinct [relay, callGiven, entry] ∧
    [relay, callGiven, entry].Perm [entry, relay, callGiven] ∧
    OrdersGroupsLike [relay, callGiven, entry] [entry, relay, callGiven]
      (registries [relay, callGiven, entry]).1.active ∧
    ∀ name, (check [relay, callGiven, entry] ∅ .default).schemes.get? name =
      (check [entry, relay, callGiven] ∅ .default).schemes.get? name := by
  have hdistinct : Distinct [relay, callGiven, entry] := ⟨by decide, by decide, by decide⟩
  have hperm : ([relay, callGiven] ++ [entry]).Perm ([entry] ++ [relay, callGiven]) :=
    List.perm_append_comm
  -- The group does not depend on what stands outside of it.
  have hclosed : ∀ {active : ActiveRegistry} {i j : Nat},
      Depends [relay, callGiven, entry] active i j → i < 2 → j < 2 := by
    intro active i j hdep hi
    induction hdep with
    | refl => exact hi
    | @tail j l _ hstep ih =>
      obtain ⟨-, d, name, hd, hname, hl⟩ := hstep
      have hne : name ≠ "main" := by
        match j, ih with
        | 0, _ =>
          cases hd
          rintro rfl
          exact absurd (show "main" ∈ ["g", "f"] from hname) (by decide)
        | 1, _ =>
          cases hd
          rintro rfl
          exact absurd (show "main" ∈ ["f"] from hname) (by decide)
      match l with
      | 0 | 1 => decide
      | 2 => exact absurd (Option.some.inj hl.1).symm hne
      | l + 3 => cases hl.1
  have horder : OrdersGroupsLike [relay, callGiven, entry] [entry, relay, callGiven]
      (registries [relay, callGiven, entry]).1.active := by
    rintro i i' j j' ⟨name, -, hi, hi'⟩ ⟨other, -, hj, hj'⟩ hij hji hlt
    match i, j with
    | 0, 1 =>
      obtain rfl : "f" = name := Option.some.inj hi.1
      obtain rfl : "g" = other := Option.some.inj hj.1
      have hf : FirstValue [entry, relay, callGiven] "f" 1 := ⟨by decide, by decide⟩
      have hg : FirstValue [entry, relay, callGiven] "g" 2 := ⟨by decide, by decide⟩
      rw [hi'.unique hf, hj'.unique hg]
      decide
    | 0, 2 | 1, 2 => exact absurd (hclosed hij (by decide)) (by decide)
    | _, j + 3 => cases hj.1
    | i + 1, 0 | i + 1, 1 | i + 2, 2 | 0, 0 => omega
  exact ⟨hdistinct, hperm, horder, (check_perm _ _ ∅ .default hdistinct hperm horder).1⟩

/-- A group of two declarations, each of which depends on the other. -/
theorem schedule_of_pair {r : Registries}
    (hcomponents : (DependencyGraph.ofModule m r.active).components = [[1, 0]])
    (hdepths : (DependencyGraph.ofModule m r.active).depths [[1, 0]] = [0])
    (hdecl : [1, 0].map (DependencyGraph.ofModule m r.active).decl = [1, 0]) :
    m.schedule r = [[[0, 1]]] := by
  have hsort : [1, 0].mergeSort (fun a b : Nat => a ≤ b) = [0, 1] := by
    simp [List.mergeSort_eq_insertionSort]
  rw [schedule, DependencyGraph.levels_eq, DependencyGraph.height, DependencyGraph.groups,
    hcomponents, hdepths]
  simp [DependencyGraph.group, hdecl, hsort]

/-- If all values are in one group, the schemes are those of the group. -/
theorem check_schemes_of_schedule {group : List Nat} (h : m.schedule m.registries.1 = [[group]])
    (ambient : SortedMap String Scheme) (config : CheckConfig) : (m.check ambient config).schemes =
      .ofList (RowCheck.checkGroup m.registries.1 (.ofGlobals ambient) config.traceInference
        (m.declsAt group)).schemes := by
  have hschemes : (m.check ambient config).schemes = .ofList
      (((m.groupOutputs ambient config).mergeSort (fun a b => a.first ≤ b.first)).flatMap
        (·.schemes)) := rfl
  have houtputs : m.groupOutputs ambient config =
      [m.checkGroup m.registries.1 config (.ofGlobals ambient) group] := by
    rw [groupOutputs, h]
    rfl
  rw [hschemes, houtputs, List.mergeSort_singleton, List.flatMap_singleton]
  rfl

/-- Within a group the order tells: the function that calls what it is given is polymorphic in the
effects of it only if it comes first. Otherwise the row of the other function is closed, which is
the same row. -/
theorem order_observed :
    [relay, callGiven].Perm [callGiven, relay] ∧ Distinct [relay, callGiven] ∧
    ((check [relay, callGiven] ∅ .default).schemes.get? "g").map (·.rowVars) = some [] ∧
    ((check [callGiven, relay] ∅ .default).schemes.get? "g").map (·.rowVars) = some [0] := by
  have hfirst : schedule [relay, callGiven] (registries [relay, callGiven]).1 = [[[0, 1]]] :=
    schedule_of_pair (by decide +kernel) (by decide +kernel) (by decide +kernel)
  have hsecond : schedule [callGiven, relay] (registries [callGiven, relay]).1 = [[[0, 1]]] :=
    schedule_of_pair (by decide +kernel) (by decide +kernel) (by decide +kernel)
  refine ⟨.swap _ _ _, ⟨by decide, by decide, by decide⟩, ?_, ?_⟩
  · rw [check_schemes_of_schedule hfirst]
    decide +kernel
  · rw [check_schemes_of_schedule hsecond]
    decide +kernel

end RowCheck.Module
