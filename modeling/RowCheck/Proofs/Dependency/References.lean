import RowCheck.Check
import RowCheck.Proofs.Dependency.Levels
import RowCheck.Proofs.Infer.Coincidence

/-!
References and what is read. A declaration refers to all that checking it may read, except for names
that one of its patterns writes as a constructor: a capitalized variable of a pattern counts as bound
in its arm, and is read from further out if it turns out to name a case. In a module where no value
has such a name, a group therefore reads nothing but itself and the levels before it.
-/
namespace RowCheck

mutual

theorem Pattern.mem_bindings {name : String} : (p : Pattern) → name ∈ p.bindings →
    name ∈ p.variables ∨ name ∈ p.constructors
  | .wild _, h | .lit _ _, h => by simp [Pattern.bindings] at h
  | .var _ other, h => by
    unfold Pattern.variables Pattern.constructors
    rw [Pattern.bindings] at h
    split
    · exact .inr h
    · exact .inl h
  | .tuple _ items, h => Pattern.mem_bindingsList items h
  | .ctor _ other args, h =>
    (Pattern.mem_bindingsList args h).imp id (List.mem_cons_of_mem other)

theorem Pattern.mem_bindingsList {name : String} : (ps : List Pattern) →
    name ∈ Pattern.bindingsList ps →
    name ∈ Pattern.variablesList ps ∨ name ∈ Pattern.constructorsList ps
  | [], h => by simp [Pattern.bindingsList] at h
  | p :: ps, h => by
    rw [Pattern.bindingsList, List.mem_append] at h
    unfold Pattern.variablesList Pattern.constructorsList
    simp only [List.mem_append]
    rcases h with h | h
    · exact (Pattern.mem_bindings p h).imp .inl .inl
    · exact (Pattern.mem_bindingsList ps h).imp .inr .inr

end

/-- How a name that may be read is referred to: it is not bound around the place, and it is among the
free names or among the cases that patterns mention; or it is an active pattern with such a case. -/
structure Referred (active : ActiveRegistry) (cases bound free : List String) (name : String) :
    Prop where
  unbound : name ∉ bound
  refers : name ∈ free ∨ name ∈ cases ∨ name ∈ (cases.filterMap active.ofCase?).map (·.name)

namespace Referred

variable {active : ActiveRegistry} {cases bound free free' inner reads reads' : List String}
  {name : String}

theorem append (h : name ∈ reads ++ reads') (hl : name ∈ reads → Referred active cases bound free name)
    (hr : name ∈ reads' → Referred active cases bound free' name) :
    Referred active cases bound (free ++ free') name := by
  rcases List.mem_append.1 h with h | h
  · exact ⟨(hl h).unbound, (hl h).refers.imp_left fun hn => List.mem_append_left _ hn⟩
  · exact ⟨(hr h).unbound, (hr h).refers.imp_left fun hn => List.mem_append_right _ hn⟩

theorem outer (h : Referred active cases (inner ++ bound) free name) :
    Referred active cases bound free name :=
  ⟨fun hb => h.unbound (List.mem_append_right _ hb), h.refers⟩

/-- The active patterns that a pattern may apply are referred to by its cases. -/
theorem of_applied {p : Pattern} (hp : ∀ n ∈ p.constructors, n ∈ cases)
    (h : name ∈ (p.applied active).filter (· ∉ bound)) : Referred active cases bound [] name := by
  obtain ⟨happlied, hbound⟩ := List.mem_filter.1 h
  refine ⟨of_decide_eq_true hbound, .inr (.inr ?_)⟩
  obtain ⟨q, hq, rfl⟩ := List.mem_map.1 happlied
  obtain ⟨n, hn, hcase⟩ := List.mem_filterMap.1 hq
  exact List.mem_map_of_mem (List.mem_filterMap.2 ⟨n, hp n hn, hcase⟩)

end Referred

/-- Whether the names of one list are in another one or among some cases. -/
def Covered (cases names bound : List String) : Prop := ∀ n ∈ names, n ∈ bound ∨ n ∈ cases

theorem Covered.append {cases names bound inner inner' : List String} (h : Covered cases names bound)
    (hi : Covered cases inner' inner) : Covered cases (inner' ++ names) (inner ++ bound) := by
  intro n hn
  rcases List.mem_append.1 hn with hn | hn
  · exact (hi n hn).imp_left (List.mem_append_left _)
  · exact (h n hn).imp_left (List.mem_append_right _)

theorem Covered.refl (cases names : List String) : Covered cases names names := fun _ => .inl

section

variable {active : ActiveRegistry} {cases : List String} {name : String}

mutual

/-- What an expression may read is referred to, if no other names than cases are counted as bound on
top of those that are. -/
theorem Expr.referred : (e : Expr) → (bound bound' : List String) → Covered cases bound' bound →
    (∀ n ∈ e.matched, n ∈ cases) → name ∈ e.reads active bound →
    Referred active cases bound (e.free bound') name
  | .lit _ _, bound, bound', _, _, h => absurd h List.not_mem_nil
  | .var _ other, bound, bound', hb, _, h => by
    rw [Expr.reads] at h
    split at h
    · exact absurd h List.not_mem_nil
    · rename_i hother
      obtain rfl := List.mem_singleton.1 h
      refine ⟨hother, ?_⟩
      by_cases hn : name ∈ bound'
      · exact .inr (.inl ((hb name hn).resolve_left hother))
      · exact .inl (by simp [Expr.free, hn])
  | .call _ func args, bound, bound', hb, hm, h => by
    obtain ⟨hfunc, hargs⟩ := List.forall_mem_append.1 hm
    exact .append h (Expr.referred func bound bound' hb hfunc)
      (Expr.referredList args bound bound' hb hargs)
  | .lam _ params body, bound, bound', hb, hm, h => by
    have hinner : Covered cases (params.map (·.name.text) ++ bound')
        (params.map (·.name.text) ++ bound) := hb.append (.refl _ _)
    exact (Expr.referred body _ _ hinner hm h).outer
  | .letIn _ x _ value body, bound, bound', hb, hm, h => by
    obtain ⟨hvalue, hbody⟩ := List.forall_mem_append.1 hm
    refine .append h (Expr.referred value bound bound' hb hvalue) fun h => ?_
    exact (Expr.referred body _ _ (hb.append (.refl _ [x.text])) hbody h).outer
  | .seq _ items, bound, bound', hb, hm, h | .tuple _ items, bound, bound', hb, hm, h
  | .construct _ _ items, bound, bound', hb, hm, h => Expr.referredList items bound bound' hb hm h
  | .cond _ c t e, bound, bound', hb, hm, h => by
    obtain ⟨hm, he⟩ := List.forall_mem_append.1 hm
    obtain ⟨hc, ht⟩ := List.forall_mem_append.1 hm
    refine .append h (fun h => ?_) (Expr.referred e bound bound' hb he)
    exact .append h (Expr.referred c bound bound' hb hc) (Expr.referred t bound bound' hb ht)
  | .matchOn _ scrutinee arms, bound, bound', hb, hm, h => by
    obtain ⟨hscrutinee, harms⟩ := List.forall_mem_append.1 hm
    exact .append h (Expr.referred scrutinee bound bound' hb hscrutinee)
      (Expr.referredArms arms bound bound' hb harms)
  | .binary _ _ _ l r, bound, bound', hb, hm, h | .assign _ l r, bound, bound', hb, hm, h => by
    obtain ⟨hl, hr⟩ := List.forall_mem_append.1 hm
    exact .append h (Expr.referred l bound bound' hb hl) (Expr.referred r bound bound' hb hr)
  | .unary _ _ _ e, bound, bound', hb, hm, h | .borrow _ _ e, bound, bound', hb, hm, h
  | .deref _ e, bound, bound', hb, hm, h => Expr.referred e bound bound' hb hm h

theorem Expr.referredList : (es : List Expr) → (bound bound' : List String) →
    Covered cases bound' bound → (∀ n ∈ Expr.matchedList es, n ∈ cases) →
    name ∈ Expr.readsList active bound es →
    Referred active cases bound (Expr.freeList bound' es) name
  | [], bound, bound', _, _, h => absurd h List.not_mem_nil
  | e :: es, bound, bound', hb, hm, h => by
    obtain ⟨he, hes⟩ := List.forall_mem_append.1 hm
    exact .append h (Expr.referred e bound bound' hb he) (Expr.referredList es bound bound' hb hes)

theorem Expr.referredArm : (a : Arm) → (bound bound' : List String) → Covered cases bound' bound →
    (∀ n ∈ Expr.matchedArm a, n ∈ cases) → name ∈ Expr.readsArm active bound a →
    Referred active cases bound (Expr.freeArm bound' a) name
  | .mk p (some g) b, bound, bound', hb, hm, h => by
    obtain ⟨hm, hbody⟩ := List.forall_mem_append.1 hm
    obtain ⟨hp, hg⟩ := List.forall_mem_append.1 hm
    have hinner : Covered cases (p.bindings ++ bound') (p.variables ++ bound) :=
      hb.append fun n hn => (Pattern.mem_bindings p hn).imp_right (hp n)
    have hguard : name ∈ (p.applied active).filter (· ∉ bound) ++ g.reads active (p.variables ++ bound) →
        Referred active cases bound ([] ++ g.free (p.bindings ++ bound')) name := fun h =>
      .append h (.of_applied hp) fun h => (Expr.referred g _ _ hinner hg h).outer
    exact .append h hguard fun h => (Expr.referred b _ _ hinner hbody h).outer
  | .mk p none b, bound, bound', hb, hm, h => by
    obtain ⟨hp, hbody⟩ := List.forall_mem_append.1 hm
    have hinner : Covered cases (p.bindings ++ bound') (p.variables ++ bound) :=
      hb.append fun n hn => (Pattern.mem_bindings p hn).imp_right (hp n)
    have hbody : Referred active cases bound ([] ++ b.free (p.bindings ++ bound')) name :=
      .append h (.of_applied hp) fun h => (Expr.referred b _ _ hinner hbody h).outer
    exact hbody

theorem Expr.referredArms : (as : List Arm) → (bound bound' : List String) →
    Covered cases bound' bound → (∀ n ∈ Expr.matchedArms as, n ∈ cases) →
    name ∈ Expr.readsArms active bound as →
    Referred active cases bound (Expr.freeArms bound' as) name
  | [], bound, bound', _, _, h => absurd h List.not_mem_nil
  | a :: as, bound, bound', hb, hm, h => by
    obtain ⟨ha, has⟩ := List.forall_mem_append.1 hm
    exact .append h (Expr.referredArm a bound bound' hb ha)
      (Expr.referredArms as bound bound' hb has)

end

end

/-! ## Declarations -/

/-- The constructor names that the patterns of a declaration mention. -/
def Decl.cases : Decl → List String
  | .fn d => d.body.matched
  | .active d => d.body.matched
  | .type _ => []

/-- What a declaration may read is among its references or among the cases of its patterns. -/
theorem ValueDecl.referred {active : ActiveRegistry} {d : Decl} {v : ValueDecl}
    (hv : d.value? = some v) {bound : List String} {name : String}
    (h : name ∈ v.reads active bound) :
    name ∉ bound ∧ (name ∈ d.references active ∨ name ∈ d.cases) := by
  cases d with
  | type d => cases hv
  | fn d =>
    cases hv
    have hinner : Covered d.body.matched (d.params.map (·.name.text) ++ [])
        (d.params.map (·.name.text) ++ bound) := Covered.append (fun _ hn => nomatch hn) (.refl _ _)
    have hr := Expr.referred d.body _ _ hinner (fun _ hn => hn) h
    have hfree : (if d.params.isEmpty then d.body else .lam d.span d.params d.body).free [] =
        d.body.free (d.params.map (·.name.text) ++ []) := by
      split
      · rename_i hparams
        rw [List.isEmpty_iff.1 hparams]
        rfl
      · rfl
    refine ⟨hr.outer.unbound, ?_⟩
    rw [Decl.references, hfree, List.mem_append]
    rcases hr.refers with hn | hn | hn
    · exact .inl (.inl hn)
    · exact .inr hn
    · exact .inl (.inr hn)
  | active d =>
    cases hv
    have hr := Expr.referred d.body (d.param.name.text :: bound) [] (fun _ hn => nomatch hn)
      (fun _ hn => hn) h
    obtain ⟨hparam, hbound⟩ := not_or.1 fun hn => hr.unbound (List.mem_cons.2 hn)
    refine ⟨hbound, ?_⟩
    rw [Decl.references, List.mem_append, List.mem_filter]
    rcases hr.refers with hn | hn | hn
    · exact .inl (.inl ⟨hn, by simpa using hparam⟩)
    · exact .inr hn
    · exact .inl (.inr hn)

variable {globals : SortedMap String Scheme} {env : TypeEnv} {r : Registries}

/-- A group is checked the same under global layers that agree on the references of its declarations
and on the cases of their patterns. -/
theorem checkGroup_of_references {decls : List Decl} (tracing : Bool)
    (h : ∀ d ∈ decls, ∀ name, name ∈ d.references r.active ∨ name ∈ d.cases →
      env.globals.get? name = globals.get? name) :
    checkGroup r (env.withGlobals globals) tracing decls = checkGroup r env tracing decls := by
  refine checkGroup_withGlobals tracing fun v hv name hname => ?_
  obtain ⟨d, hd, hdv⟩ := List.mem_filterMap.1 hv
  exact h d hd name (ValueDecl.referred hdv hname).2

theorem Module.mem_names {m : Module} {name : String} {i : Nat} (h : m.FirstValue name i)
    {group : List Nat} (hi : i ∈ group) : name ∈
      ((group.filterMap (fun index => m[index]?)).filterMap Decl.value?).map (·.name.text) := by
  obtain ⟨d, hd, hname⟩ := Option.bind_eq_some_iff.1 h.1
  obtain ⟨v, hv, rfl⟩ : ∃ v, d.value? = some v ∧ v.name.text = name := by
    cases d with
    | type d => cases hname
    | fn d | active d => exact ⟨_, rfl, Option.some.inj hname⟩
  exact List.mem_map_of_mem (List.mem_filterMap.2 ⟨d, List.mem_filterMap.2 ⟨i, hi, hd⟩, hv⟩)

/-- Where no value has the name of a case that a pattern mentions, a group of a schedule is checked the
same under global layers that agree on what is not defined at its level or later. -/
theorem Module.checkGroup_of_earlier {m : Module} {levels : List (List (List Nat))}
    (hlevels : m.Scheduled r.active levels)
    (hcases : ∀ d ∈ m, ∀ name ∈ d.cases, ∀ i, ¬ m.FirstValue name i) (config : CheckConfig)
    {k : Nat} (hk : k < levels.length) {group : List Nat} (hgroup : group ∈ levels[k])
    {before : SortedMap String Scheme}
    (h : ∀ name, (∀ i, m.FirstValue name i → ∃ l, ∃ hl : l < levels.length, l < k ∧
      i ∈ levels[l].flatten) → before.get? name = globals.get? name) :
    m.checkGroup r config (.ofGlobals globals) group =
      m.checkGroup r config (.ofGlobals before) group := by
  have hsame : RowCheck.checkGroup r (.ofGlobals globals) config.traceInference
      (group.filterMap (fun index => m[index]?)) = RowCheck.checkGroup r (.ofGlobals before)
      config.traceInference (group.filterMap (fun index => m[index]?)) := by
    show RowCheck.checkGroup r ((TypeEnv.ofGlobals before).withGlobals globals) _ _ = _
    refine checkGroup_withGlobals _ fun v hv name hname => h name fun j hj => ?_
    obtain ⟨d, hd, hdv⟩ := List.mem_filterMap.1 hv
    obtain ⟨i, hi, hid⟩ := List.mem_filterMap.1 hd
    obtain ⟨hnew, hrefers⟩ := ValueDecl.referred hdv hname
    have href : m.Refers r.active i j := by
      refine ⟨d, name, hid, hrefers.resolve_right fun hn => ?_, hj⟩
      exact hcases d (List.mem_of_getElem? hid) name hn j hj
    have hmem : group ∈ levels.flatten := List.mem_flatten_of_mem (List.getElem_mem hk) hgroup
    have hfirst := (hlevels.covers i).1 (List.mem_flatten_of_mem hmem hi)
    have hdepends : m.Depends r.active i j := .single ⟨hfirst, href⟩
    obtain ⟨other, hother, hjo⟩ := List.mem_flatten.1 ((hlevels.covers j).2 ⟨name, hj⟩)
    obtain ⟨level, hlevel, hol⟩ := List.mem_flatten.1 hother
    obtain ⟨l, hl, rfl⟩ := List.mem_iff_getElem.1 hlevel
    by_cases he : group = other
    · subst he
      exact absurd (mem_names hj hjo) hnew
    · have hlt := hlevels.earlier k hk l hl group hgroup other hol he i hi j hjo hdepends
      exact ⟨l, hl, hlt, List.mem_flatten_of_mem hol hjo⟩
  unfold Module.checkGroup
  rw [hsame]

/-- A function whose pattern names a case, and whose arm reads the name:
`fn shade(c) { match c { Red => Red, _ => 0 } }`. -/
def shade : Decl :=
  let name := Name.mk .synthetic
  .fn ⟨.synthetic, name "shade", [⟨name "c", none⟩], none, none,
    .matchOn .synthetic (.var .synthetic "c")
      [.mk (.var .synthetic "Red") none (.var .synthetic "Red"),
        .mk (.wild .synthetic) none (.lit .synthetic (.int 0))]⟩

/-- A type with the case, the function, and another function that has the name of the case:
`type Color = Red | Green`, `fn Red() { 7 }`. -/
def palette : Module :=
  let name := Name.mk .synthetic
  [.type ⟨.synthetic, name "Color", [], [⟨name "Red", []⟩, ⟨name "Green", []⟩]⟩, shade,
    .fn ⟨.synthetic, name "Red", [], none, none, .lit .synthetic (.int 7)⟩]

/-- The function is checked the same whatever is defined besides the case that its pattern mentions. -/
theorem shade_of_references :
    (∀ d ∈ [shade], ∀ name, name ∈ d.references palette.registries.1.active ∨ name ∈ d.cases →
      (TypeEnv.ofGlobals ∅).globals.get? name =
        ((∅ : SortedMap String Scheme).insert "Blue" (.mono .s32)).get? name) ∧
    checkGroup palette.registries.1 ((TypeEnv.ofGlobals ∅).withGlobals
      ((∅ : SortedMap String Scheme).insert "Blue" (.mono .s32))) false [shade] =
      checkGroup palette.registries.1 (.ofGlobals ∅) false [shade] := by
  have hreads : ∀ d ∈ [shade], ∀ name,
      name ∈ d.references palette.registries.1.active ∨ name ∈ d.cases →
      (TypeEnv.ofGlobals ∅).globals.get? name =
        ((∅ : SortedMap String Scheme).insert "Blue" (.mono .s32)).get? name := by
    have hreferences : shade.references palette.registries.1.active = [] := by decide +kernel
    have hcases : shade.cases = ["Red"] := by decide +kernel
    intro d hd name hname
    rw [List.mem_singleton.1 hd, hreferences, hcases] at hname
    rw [List.mem_singleton.1 (hname.resolve_left List.not_mem_nil)]
    decide
  exact ⟨hreads, checkGroup_of_references false hreads⟩

/-- The function refers to nothing, and the graph has no edges; yet the function is at fault or not,
depending on what the name of the case stands for. -/
theorem shade_reads_unreferenced :
    shade.references palette.registries.1.active = [] ∧
    (DependencyGraph.ofModule palette palette.registries.1.active).edges = [[], []] ∧
    (checkGroup palette.registries.1 (.ofGlobals ∅) false [shade]).hasErrors = true ∧
    (checkGroup palette.registries.1
      (.ofGlobals ((∅ : SortedMap String Scheme).insert "Red" (.mono .s32))) false
      [shade]).hasErrors = false := by decide +kernel

end RowCheck
