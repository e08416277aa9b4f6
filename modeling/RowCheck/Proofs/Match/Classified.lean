import RowCheck.Proofs.Check.Consistent
import RowCheck.Proofs.Match.Genuine

/-!
Matches whose arms are cases of one active pattern. If a case is missing, the search for a value that no
arm covers ends at the result of the pattern with a case that is missing, and the witness names it. Only
where the pattern is applied to a tuple does it not: a witness for a tuple is made from witnesses for
its items, which tell nothing of the classification.
-/
namespace RowCheck

/-! ## Tuples all the way down -/

theorem Registries.Builds.tuple_of_isTuple {r : Registries} {t : Ty} {c : Constructor} {types : List Ty}
    (h : r.Builds t c types) (hc : c.isTuple = true) : t = .tuple types ∧ c = .tuple types.length := by
  cases h with
  | tuple => exact ⟨rfl, rfl⟩
  | literal _ | variant _ _ _ => cases hc

namespace Cell

mutual

/-- A pattern that matches every value tests for tuples only. -/
theorem testsOnly_of_isIrrefutable : (p : TPattern) → p.isIrrefutable = true →
    (ofPattern p).testsOnly Constructor.isTuple = true
  | .wild .., _ | .bind .., _ => by simp [ofPattern, testsOnly]
  | .tuple _ _ items, h => by
    simpa [ofPattern, testsOnly, Constructor.isTuple] using testsOnly_of_isIrrefutableList items h
  | .lit .., h | .variant .., h | .active .., h => by simp [TPattern.isIrrefutable] at h

theorem testsOnly_of_isIrrefutableList : (ps : List TPattern) →
    TPattern.isIrrefutableList ps = true →
    testsOnlyList Constructor.isTuple (ofPatterns ps) = true
  | [], _ => rfl
  | p :: ps, h => by
    simp only [TPattern.isIrrefutableList, Bool.and_eq_true] at h
    simp [ofPatterns, testsOnlyList, testsOnly_of_isIrrefutable p h.1,
      testsOnly_of_isIrrefutableList ps h.2]

end

end Cell

namespace Matrix

/-- Whether there is a first row, and it has no guard. -/
def StartsUnguarded (m : Matrix) : Prop :=
  ∃ row rows, m.rows = row :: rows ∧ row.guarded = false

section

variable {r : Registries} {m : Matrix} {i : Nat} {column : Column}

theorem StartsUnguarded.bindNames (h : m.StartsUnguarded) : m.bindNames.StartsUnguarded := by
  obtain ⟨row, rows, hrows, hg⟩ := h
  exact ⟨row.bindNames m.columns, rows.map (MatchRow.bindNames m.columns),
    by simp [Matrix.bindNames, hrows], hg⟩

/-- Opening a tuple keeps the first row. -/
theorem StartsUnguarded.within (h : m.StartsUnguarded) (hm : m.Fits r)
    (ht : m.TestsOnly Constructor.isTuple) (hk : m.columns[i]? = some column) {c : Constructor}
    {types : List Ty} (hb : r.Builds column.ty c types) (hc : c.isTuple = true) :
    (m.within r i c).StartsUnguarded := by
  obtain ⟨row, rows, hrows, hg⟩ := h
  have hrow : row ∈ m.rows := hrows ▸ List.mem_cons_self
  obtain ⟨cell, hcell, hfit⟩ := hm.cell hk hrow
  obtain ⟨s, hs, hsg⟩ : ∃ s, row.specialize i c (r.fieldTypes (m.columnAt i).ty c).length = some s ∧
      s.guarded = false := by
    cases cell with
    | wild name =>
      simp only [MatchRow.specialize, hcell, Option.some.injEq, exists_eq_left']
      exact hg
    | test d args =>
      cases hfit with
      | test hb' _ =>
        -- both build values of the same tuple type
        have hd := (ht.test hrow hcell).1
        obtain rfl : d = c := by
          obtain ⟨htype, rfl⟩ := hb.tuple_of_isTuple hc
          obtain ⟨htype', rfl⟩ := hb'.tuple_of_isTuple hd
          rw [Ty.tuple.inj (htype.symm.trans htype')]
        simp only [MatchRow.specialize, hcell, if_true, Option.some.injEq, exists_eq_left']
        exact hg
    | active p case args => cases ht row hrow _ (List.mem_of_getElem? hcell)
  exact ⟨s, rows.filterMap (MatchRow.specialize i c (r.fieldTypes (m.columnAt i).ty c).length),
    by simp only [Matrix.within, Matrix.specialize, hrows, List.filterMap_cons, hs], hsg⟩

end

/-- A matrix that tests for tuples only does not fail, as long as its first row has no guard. -/
theorem canFail_compile_of_tuples {r : Registries} {m : Matrix} (hm : m.Fits r)
    (ht : m.TestsOnly Constructor.isTuple) (h : m.StartsUnguarded) :
    (m.compile r).canFail = false := by
  induction m using compile_induction r with
  | _ m ih =>
    rw [compile_eq]
    replace hm := hm.bindNames
    replace ht := ht.bindNames
    replace h := h.bindNames
    have hst := m.bindNames.steps r
    generalize m.bindNames.step r = st at ih hst ⊢
    generalize m.bindNames = n at hm ht h hst ⊢
    obtain ⟨first, others, hrows, hg⟩ := id h
    cases hst with
    | fail hnil => simp [hrows] at hnil
    | leaf _ _ _ => rfl
    | guard hrows' _ hg' =>
      cases hrows.symm.trans hrows'
      simp [hg] at hg'
    | active _ _ ha => cases ha.symm.trans (ht.activeIn? _)
    | @tuple row i k args hrow hc _ _ =>
      obtain ⟨column, hk, types, hb⟩ := hm.builds hrow hc
      exact ih _ (by simp [MatchStep.rest]) (hm.within hk _) (ht.within _)
        (h.within hm ht hk hb rfl)
    | @switch row i d args listed complete hrow hc _ hsw =>
      obtain ⟨column, hk, types, hb⟩ := hm.builds hrow hc
      -- a switch on a tuple has one case and no fallback
      obtain ⟨htype, rfl⟩ := hb.tuple_of_isTuple (ht.test hrow hc).1
      have hheads : Constructor.tuple types.length ∈ n.heads i := mem_heads.2 ⟨row, hrow, args, hc⟩
      rw [columnAt_eq hk, htype] at hsw
      obtain ⟨rfl, rfl⟩ : listed = [.tuple types.length] ∧ complete = true := by
        simp only [switchCases, Registries.signature?, List.filter_cons, List.all_cons, hheads,
          decide_true, if_true, List.filter_nil, List.all_nil, Bool.and_true, Prod.mk.injEq] at hsw
        exact ⟨hsw.1.symm, hsw.2.symm⟩
      have hcase := ih (n.within r i (.tuple types.length)) (by simp [MatchStep.rest])
        (hm.within hk _) (ht.within _) (h.within hm ht hk hb rfl)
      simp [DecisionTree.canFail, DecisionTree.canFailInCases, hcase]

end Matrix

/-! ## Cases of an active pattern -/

/-- What an active pattern can classify a value as. -/
def ActivePattern.outcomes (p : ActivePattern) : List String :=
  p.cases ++ if p.total then [] else [noMatch]

/-- The case of an active pattern that a pattern asks for, if it asks for nothing else. -/
def TPattern.caseOf? (name : String) : TPattern → Option String
  | .active _ _ pattern case args =>
    if pattern = name ∧ isIrrefutableList args = true then some case else none
  | _ => none

theorem TPattern.caseOf?_eq_some {name case : String} {p : TPattern} :
    p.caseOf? name = some case ↔
      ∃ span own args, p = .active span own name case args ∧ isIrrefutableList args = true := by
  cases p <;> simp [caseOf?]
  grind

theorem Registries.Consistent.wellFormed {r : Registries} (h : r.Consistent) : r.types.WellFormed :=
  ⟨fun _ _ => h.named, fun _ _ => h.nodup⟩

/-- The result type of an active pattern has a variant for each outcome. -/
theorem Registries.Consistent.outcomes {r : Registries} (h : r.Consistent) {name : String}
    {p : ActivePattern} (hp : r.active.get? name = some p) :
    ∃ d, r.types.get? name = some d ∧ d.variants.map Variant.name = p.outcomes := by
  obtain ⟨rfl, -, d, vs, hd, hvs, hnames⟩ := h.patterns hp
  refine ⟨d, hd, ?_⟩
  rw [hvs, List.map_append, hnames, ActivePattern.outcomes]
  cases p.total <;> rfl

namespace Matrix

/-- The arms of a match as tests of the result of an active pattern. -/
def ofResults (t : Ty) (name : String) (arms : List (TPattern × Bool)) : Matrix :=
  ((ofArms t arms).bindNames.expandActive 0 name).bindNames

section

variable {r : Registries} {t : Ty} {name : String} {arms : List (TPattern × Bool)}

/-- Compiling goes on with the result of the pattern. -/
theorem compile_ofArms_of_cases (hne : arms ≠ [])
    (harms : ∀ a ∈ arms, (a.1.caseOf? name).isSome) :
    (ofArms t arms).compile r = ((ofArms t arms).bindNames.expandActive 0 name).compile r := by
  obtain ⟨⟨p, guarded⟩, as, rfl⟩ := List.exists_cons_of_ne_nil hne
  obtain ⟨case, hcase⟩ := Option.isSome_iff_exists.1 (harms _ List.mem_cons_self)
  obtain ⟨span, own, args, rfl, -⟩ := TPattern.caseOf?_eq_some.1 hcase
  rw [compile_eq]
  simp [step, ofArms, Matrix.bindNames, MatchRow.bindNames, MatchRow.forgetNames, Cell.ofPattern,
    List.zipIdx_cons, List.findIdx?_cons, Cell.isWild, activeIn?]

theorem mem_rows_ofResults (harms : ∀ a ∈ arms, a.2 = false ∧ (a.1.caseOf? name).isSome)
    {row : MatchRow} (h : row ∈ (ofResults t name arms).rows) :
    ∃ case args, case ∈ arms.filterMap (·.1.caseOf? name) ∧
      row.cells = [.wild none, .test (.variant name case args.length) args] ∧
      row.guarded = false ∧ Cell.testsOnlyList Constructor.isTuple args = true := by
  simp only [ofResults, ofArms, Matrix.bindNames, Matrix.expandActive, List.map_map,
    List.mem_map] at h
  obtain ⟨⟨⟨p, guarded⟩, k⟩, ha, rfl⟩ := h
  have hmem := List.fst_mem_of_mem_zipIdx ha
  obtain ⟨rfl, hsome⟩ := harms _ hmem
  obtain ⟨case, hcase⟩ := Option.isSome_iff_exists.1 hsome
  have hlisted : case ∈ arms.filterMap (·.1.caseOf? name) := List.mem_filterMap.2 ⟨_, hmem, hcase⟩
  obtain ⟨span, own, args, rfl, hirr⟩ := TPattern.caseOf?_eq_some.1 hcase
  refine ⟨case, Cell.ofPatterns args, hlisted, ?_, rfl, Cell.testsOnly_of_isIrrefutableList args hirr⟩
  simp [MatchRow.bindNames, MatchRow.forgetNames, Cell.ofPattern, MatchRow.expandActive,
    Cell.applied, splice]

/-- What the arms list is tested for. -/
theorem mem_heads_ofResults (harms : ∀ a ∈ arms, a.1.Fits r t) {case : String}
    (h : case ∈ arms.filterMap (·.1.caseOf? name)) :
    ∃ k types, r.Builds (.named name []) (.variant name case k) types ∧
      .variant name case k ∈ (ofResults t name arms).heads 1 := by
  obtain ⟨⟨p, guarded⟩, ha, hcase⟩ := List.mem_filterMap.1 h
  have hfits := harms _ ha
  obtain ⟨span, own, args, rfl, -⟩ := TPattern.caseOf?_eq_some.1 hcase
  cases hfits with
  | active _ _ _ _ hb _ =>
    obtain ⟨k, hk, hget⟩ := List.getElem_of_mem ha
    have hmem : ((.active span own name case args, guarded), k) ∈ arms.zipIdx :=
      List.mk_mem_zipIdx_iff_getElem?.2 (hget ▸ List.getElem?_eq_getElem hk)
    refine ⟨args.length, _, hb, mem_heads.2 ⟨_, List.mem_map_of_mem (List.mem_map_of_mem
      (List.mem_map_of_mem (List.mem_map_of_mem hmem))), Cell.ofPatterns args, ?_⟩⟩
    simp [MatchRow.bindNames, MatchRow.forgetNames, Cell.ofPattern, MatchRow.expandActive,
      Cell.applied, ofArms, Matrix.bindNames, Matrix.expandActive, splice]

theorem fits_ofResults (harms : ∀ a ∈ arms, a.1.Fits r t) : (ofResults t name arms).Fits r := by
  have hroot : (ofArms t arms).bindNames.columns[0]? = some ⟨.root, t⟩ := rfl
  exact ((fits_ofArms harms).bindNames.expandActive hroot name).bindNames

section

variable {d : SumType} {listed : List Constructor} {complete : Bool}

/-- The cases of the switch are the variants that an arm lists. -/
theorem mem_listed_ofResults (hr : r.types.WellFormed) (hd : r.types.get? name = some d)
    (harms : ∀ a ∈ arms, a.1.Fits r t ∧ a.2 = false ∧ (a.1.caseOf? name).isSome)
    (hsw : switchCases r (.named name []) ((ofResults t name arms).heads 1) = (listed, complete))
    {v : Variant} (hv : v ∈ d.variants) : .variant name v.name v.fields.length ∈ listed ↔
      v.name ∈ arms.filterMap (·.1.caseOf? name) := by
  constructor
  · intro h
    obtain ⟨row, hrow, args, hc⟩ := mem_heads.1 (mem_heads_of_listed hsw h)
    obtain ⟨case, args', hcase, hcells, -, -⟩ := mem_rows_ofResults (fun a ha => (harms a ha).2) hrow
    simp only [hcells, List.getElem?_cons_succ, List.getElem?_cons_zero, Option.some.injEq,
      Cell.test.injEq, Constructor.variant.injEq, true_and] at hc
    exact hc.1.1 ▸ hcase
  · intro h
    obtain ⟨k, types, hb, hhead⟩ := mem_heads_ofResults (fun a ha => (harms a ha).1) h
    have hk : v.fields.length = k := by
      have hv' := SumType.variant?_eq_some (hr.distinct name d hd) hv
      cases hb with
      | variant _ hd' hv'' =>
        cases hd.symm.trans hd'
        cases hv'.symm.trans hv''
        rfl
    exact hk ▸ mem_listed hr.named hsw hb hhead

/-- Where a variant is not listed, the switch has a fallback, and what is missing is such a variant. -/
theorem exists_missing?_of_unlisted {heads : List Constructor} (hr : r.types.Named)
    (hd : r.types.get? name = some d)
    (hsw : switchCases r (.named name []) heads = (listed, complete))
    (h : ∃ v ∈ d.variants, .variant name v.name v.fields.length ∉ listed) :
    complete = false ∧ ∃ v ∈ d.variants, .variant name v.name v.fields.length ∉ listed ∧
      r.missing? (.named name []) listed = some (.variant name v.name v.fields.length) := by
  have hsignature : r.signature? (.named name []) =
      some (d.variants.map (fun v => .variant name v.name v.fields.length)) := by
    simp [Registries.signature?, hd, hr name d hd]
  obtain ⟨v, hv, hnot⟩ := h
  constructor
  · refine Bool.eq_false_iff.2 fun hcomplete => ?_
    obtain ⟨all, hall, hsub⟩ := (complete_iff hsw).1 hcomplete
    obtain rfl := Option.some.inj (hsignature.symm.trans hall)
    exact hnot (hsub _ (List.mem_map_of_mem hv))
  · obtain ⟨c, hc⟩ : ∃ c, r.missing? (.named name []) listed = some c := by
      rw [← Option.isSome_iff_exists, Registries.missing?_of_signature hsignature,
        List.find?_isSome]
      exact ⟨_, List.mem_map_of_mem hv, by simpa using hnot⟩
    have hfind := hc
    rw [Registries.missing?_of_signature hsignature] at hfind
    obtain ⟨v, hv, rfl⟩ := List.mem_map.1 (List.mem_of_find?_eq_some hfind)
    exact ⟨v, hv, by simpa using List.find?_some hfind, hc⟩

/-- A case is decided by its first arm, whose arguments match everything. -/
theorem canFail_compile_within_ofResults
    (harms : ∀ a ∈ arms, a.1.Fits r t ∧ a.2 = false ∧ (a.1.caseOf? name).isSome) {c : Constructor}
    (hc : c ∈ (ofResults t name arms).heads 1) :
    (((ofResults t name arms).within r 1 c).compile r).canFail = false := by
  have hcolumn : (ofResults t name arms).columns[1]? =
      some ⟨.active .root name, .named name []⟩ := rfl
  have hfits : (ofResults t name arms).Fits r := fits_ofResults fun a ha => (harms a ha).1
  have hrest : ∀ s ∈ ((ofResults t name arms).within r 1 c).rows, s.guarded = false ∧
      ∃ args, s.cells = .wild none :: args ∧
        Cell.testsOnlyList Constructor.isTuple args = true := by
    intro s hs
    obtain ⟨q, hq, hspec⟩ := List.mem_filterMap.1 hs
    obtain ⟨case, args, -, hcells, hg, hargs⟩ := mem_rows_ofResults (fun a ha => (harms a ha).2) hq
    simp only [MatchRow.specialize, hcells, List.getElem?_cons_succ, List.getElem?_cons_zero,
      Option.ite_none_right_eq_some, Option.some.injEq] at hspec
    obtain ⟨-, rfl⟩ := hspec
    exact ⟨hg, args, by simp [splice], hargs⟩
  refine canFail_compile_of_tuples (hfits.within hcolumn c) (fun s hs cell hcell => ?_) ?_
  · obtain ⟨-, args, hcells, hargs⟩ := hrest s hs
    rcases List.mem_cons.1 (hcells ▸ hcell) with rfl | hcell
    · rfl
    · exact Cell.testsOnlyList_iff.1 hargs cell hcell
  · obtain ⟨q, hq, args, hqc⟩ := mem_heads.1 hc
    have hmem : { q with cells := splice q.cells 1 args } ∈
        ((ofResults t name arms).within r 1 c).rows :=
      List.mem_filterMap.2 ⟨q, hq, by simp [MatchRow.specialize, hqc]⟩
    obtain ⟨s, rows, hcons⟩ := List.exists_cons_of_ne_nil (List.ne_nil_of_mem hmem)
    exact ⟨s, rows, hcons, (hrest s (hcons ▸ List.mem_cons_self)).1⟩

/-- The search for a value that no arm covers ends with a variant that no arm lists. -/
theorem failPath_of_cases (hr : r.types.WellFormed) (hd : r.types.get? name = some d)
    (hne : arms ≠ [])
    (harms : ∀ a ∈ arms, a.1.Fits r t ∧ a.2 = false ∧ (a.1.caseOf? name).isSome)
    (hmissing : ∃ v ∈ d.variants, v.name ∉ arms.filterMap (·.1.caseOf? name)) :
    ∃ v ∈ d.variants, v.name ∉ arms.filterMap (·.1.caseOf? name) ∧
      r.failPath t [] ((ofArms t arms).compile r) =
        some [(.active .root name, .variant name v.name v.fields.length)] := by
  obtain ⟨listed, complete, hsw⟩ : ∃ listed complete, switchCases r (.named name [])
      ((ofResults t name arms).heads 1) = (listed, complete) := ⟨_, _, rfl⟩
  have hlisted : ∀ v ∈ d.variants, .variant name v.name v.fields.length ∉ listed ↔
      v.name ∉ arms.filterMap (·.1.caseOf? name) :=
    fun v hv => not_congr (mem_listed_ofResults hr hd harms hsw hv)
  obtain ⟨v, hv, hnot⟩ := hmissing
  obtain ⟨rfl, v, hv, hfresh, hfind⟩ :=
    exists_missing?_of_unlisted hr.named hd hsw ⟨v, hv, (hlisted v hv).2 hnot⟩
  have htests : (ofResults t name arms).TestsAt 1 := by
    refine ⟨by simpa [ofResults, ofArms, Matrix.bindNames, Matrix.expandActive] using hne,
      fun row hrow => ?_⟩
    obtain ⟨case, args, -, hcells, -, -⟩ := mem_rows_ofResults (fun a ha => (harms a ha).2) hrow
    exact ⟨[.wild none], _, args, [], hcells, rfl, by simp [Cell.isWild], rfl⟩
  have hfail := failPath_of_testsAt t [] htests hsw fun c hc =>
    canFail_compile_within_ofResults harms (mem_heads_of_listed hsw hc)
  rw [show ((ofArms t arms).bindNames.expandActive 0 name).bindNames.columnAt 1 =
    ⟨.active .root name, .named name []⟩ from rfl, Registries.typeAt, hfind] at hfail
  rw [compile_ofArms_of_cases hne fun a ha => (harms a ha).2.2]
  exact ⟨v, hv, (hlisted v hv).1 hfresh, hfail⟩

end

end

end Matrix

/-! ## The outcome that is missing -/

section

variable {r : Registries} {t : Ty} {name : String} {p : ActivePattern}
  {arms : List (TPattern × Bool)}

/-- A match on the cases of an active pattern that leaves an outcome of it out is said to miss such an
outcome, unless the pattern is applied to a tuple. -/
theorem uncovered_names_outcome (hr : r.Consistent) (hp : r.active.get? name = some p)
    (ht : ∀ items, t ≠ .tuple items) (hne : arms ≠ [])
    (harms : ∀ a ∈ arms, a.1.Fits r t ∧ a.2 = false ∧ (a.1.caseOf? name).isSome)
    (hmissing : ∃ c ∈ p.outcomes, c ∉ arms.filterMap (·.1.caseOf? name)) :
    ∃ c args, (r.compileMatch t arms).uncovered = some (.active name c args) ∧
      c ∈ p.outcomes ∧ c ∉ arms.filterMap (·.1.caseOf? name) := by
  obtain ⟨d, hd, hvariants⟩ := hr.outcomes hp
  rw [← hvariants] at hmissing ⊢
  obtain ⟨c, hc, hnot⟩ := hmissing
  obtain ⟨v, hv, rfl⟩ := List.mem_map.1 hc
  obtain ⟨v, hv, hfresh, hfail⟩ := Matrix.failPath_of_cases hr.wellFormed hd hne harms ⟨v, hv, hnot⟩
  have hroot : TreePath.at? [(.active .root name, .variant name v.name v.fields.length)] .root =
    none := rfl
  have happlied : TreePath.appliedTo? [(.active .root name, .variant name v.name v.fields.length)]
    .root = some name := rfl
  have hresult : TreePath.at? [(.active .root name, .variant name v.name v.fields.length)]
      (.active .root name) = some (.variant name v.name v.fields.length) := by
    simp [TreePath.at?]
  have hw := Registries.witnessWithin_of_applied (r := r) (n := 1) hroot ht happlied hresult
  rw [Registries.compileMatch, Registries.uncovered?, hfail, Option.map_some]
  exact ⟨v.name, _, congrArg some hw, List.mem_map_of_mem hv, hfresh⟩

/-- Applied to a tuple, the pattern is not seen in what is said to be missing. -/
theorem uncovered_eq_tuple (hr : r.Consistent) (hp : r.active.get? name = some p)
    {items : List Ty} (hne : arms ≠ [])
    (harms : ∀ a ∈ arms, a.1.Fits r (.tuple items) ∧ a.2 = false ∧ (a.1.caseOf? name).isSome)
    (hmissing : ∃ c ∈ p.outcomes, c ∉ arms.filterMap (·.1.caseOf? name)) :
    ∃ ws, (r.compileMatch (.tuple items) arms).uncovered = some (.tuple ws) := by
  obtain ⟨d, hd, hvariants⟩ := hr.outcomes hp
  obtain ⟨c, hc, hnot⟩ := hmissing
  obtain ⟨v, hv, rfl⟩ := List.mem_map.1 (hvariants ▸ hc)
  obtain ⟨v, -, -, hfail⟩ := Matrix.failPath_of_cases hr.wellFormed hd hne harms ⟨v, hv, hnot⟩
  have hroot : TreePath.at? [(.active .root name, .variant name v.name v.fields.length)] .root =
    none := rfl
  rw [Registries.compileMatch, Registries.uncovered?, hfail, Option.map_some]
  exact ⟨_, congrArg some (Registries.witnessWithin_tuple (n := 1) hroot)⟩

end

/-- `active Order = Below | Above` -/
def orders : Module :=
  let name := Name.mk .synthetic
  [.active ⟨.synthetic, name "Order", [⟨name "Below", []⟩, ⟨name "Above", []⟩], true,
    ⟨name "n", none⟩, .construct .synthetic (name "Below") []⟩]

/-- `| Below` on a value of type `t` -/
def belowArms (t : Ty) : List (TPattern × Bool) :=
  [(.active .synthetic t "Order" "Below" [], false)]

theorem orders_consistent : orders.registries.1.Consistent :=
  orders.registries_fst ▸
    Registries.consistent_foldl_add orders.definitions_apart orders.definitions_distinct

theorem get?_order :
    orders.registries.1.active.get? "Order" = some ⟨"Order", ["Below", "Above"], true⟩ := by
  decide +kernel

theorem fits_belowArms (t : Ty) : ∀ a ∈ belowArms t, a.1.Fits orders.registries.1 t ∧ a.2 = false ∧
    (a.1.caseOf? "Order").isSome := by
  have hd : orders.registries.1.types.get? "Order" =
      some ⟨"Order", [], [⟨"Below", []⟩, ⟨"Above", []⟩]⟩ := by decide +kernel
  rintro a (_ | ⟨_, h⟩)
  · exact ⟨.active _ _ _ (by simp [get?_order]) (.variant [] hd (v := ⟨"Below", []⟩) rfl) .nil, rfl, rfl⟩
  · cases h

/-- On a number, `Above` is said to be missing. -/
theorem number_uncovered : ∃ args, (orders.registries.1.compileMatch .s32 (belowArms .s32)).uncovered =
    some (.active "Order" "Above" args) := by
  obtain ⟨c, args, hw, hc, hnot⟩ := uncovered_names_outcome orders_consistent get?_order
    (t := .s32) nofun (by simp [belowArms]) (fits_belowArms .s32) ⟨"Above", by decide, by decide⟩
  have habove : c = "Above" := by
    rcases List.mem_pair.1 hc with rfl | rfl
    · exact absurd (by decide) hnot
    · rfl
  exact ⟨args, habove ▸ hw⟩

/-- On a pair, `(_, _)` is said to be missing, and no outcome. -/
theorem pair_uncovered :
    (∀ a ∈ belowArms (.tuple [.s32, .s32]), a.1.Fits orders.registries.1 (.tuple [.s32, .s32]) ∧
      a.2 = false ∧ (a.1.caseOf? "Order").isSome) ∧
    (∃ c ∈ ActivePattern.outcomes ⟨"Order", ["Below", "Above"], true⟩,
      c ∉ (belowArms (.tuple [.s32, .s32])).filterMap (·.1.caseOf? "Order")) ∧
    (∃ w, (orders.registries.1.compileMatch (.tuple [.s32, .s32])
      (belowArms (.tuple [.s32, .s32]))).uncovered = some w ∧ w.text = "(_, _)") ∧
    ¬ ∃ c args, (orders.registries.1.compileMatch (.tuple [.s32, .s32])
      (belowArms (.tuple [.s32, .s32]))).uncovered = some (.active "Order" c args) := by
  have hfits := fits_belowArms (.tuple [.s32, .s32])
  have hmissing : ∃ c ∈ ActivePattern.outcomes ⟨"Order", ["Below", "Above"], true⟩,
      c ∉ (belowArms (.tuple [.s32, .s32])).filterMap (·.1.caseOf? "Order") :=
    ⟨"Above", by decide, by decide⟩
  obtain ⟨ws, hw⟩ := uncovered_eq_tuple orders_consistent get?_order (by simp [belowArms]) hfits hmissing
  have htext : (orders.registries.1.compileMatch (.tuple [.s32, .s32])
      (belowArms (.tuple [.s32, .s32]))).uncovered.map Witness.text = some "(_, _)" := by decide +kernel
  refine ⟨hfits, hmissing, ⟨_, hw, ?_⟩, ?_⟩
  · simpa [hw] using htext
  · rintro ⟨c, args, h⟩
    cases hw.symm.trans h

end RowCheck
