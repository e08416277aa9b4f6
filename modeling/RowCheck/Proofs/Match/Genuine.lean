import RowCheck.Proofs.Match.Search

/-!
The witness of a match that is not exhaustive is a counterexample, for matches that apply no active
pattern and test for no texts and no fractions: it is well-typed, and no arm without a guard accepts any
value that it describes. The latter needs that no column of integers lists all values of its type. Integers
are never taken to be all listed: a match with an arm for each of them is said to leave something out.
-/
namespace RowCheck

/-! ## Counterexamples -/

namespace TPattern

mutual

/-- Whether a pattern applies no active pattern and tests for no text and no fraction. -/
def isPlain : TPattern → Bool
  | wild .. | bind .. => true
  | lit _ _ value => (Constructor.literal value.key).isCounted
  | tuple _ _ items => isPlainList items
  | variant _ _ _ _ args => isPlainList args
  | active .. => false

def isPlainList : List TPattern → Bool
  | [] => true
  | p :: ps => p.isPlain && isPlainList ps

end

end TPattern

namespace Cell

mutual

theorem testsOnly_ofPattern : (p : TPattern) → p.isPlain = true →
    (ofPattern p).testsOnly Constructor.isCounted = true
  | .wild .., _ | .bind .., _ => by simp [ofPattern, testsOnly]
  | .lit .., h => by simpa [ofPattern, testsOnly, testsOnlyList, TPattern.isPlain] using h
  | .tuple _ _ items, h => by
    simpa [ofPattern, testsOnly, Constructor.isCounted] using testsOnly_ofPatterns items h
  | .variant _ _ _ _ args, h => by
    simpa [ofPattern, testsOnly, Constructor.isCounted] using testsOnly_ofPatterns args h
  | .active .., h => by simp [TPattern.isPlain] at h

theorem testsOnly_ofPatterns : (ps : List TPattern) → TPattern.isPlainList ps = true →
    testsOnlyList Constructor.isCounted (ofPatterns ps) = true
  | [], _ => rfl
  | p :: ps, h => by
    simp only [TPattern.isPlainList, Bool.and_eq_true] at h
    simp [ofPatterns, testsOnlyList, testsOnly_ofPattern p h.1, testsOnly_ofPatterns ps h.2]

end

end Cell

theorem Matrix.testsOnly_ofArms {t : Ty} {arms : List (TPattern × Bool)} {p : Constructor → Bool}
    (h : ∀ a ∈ arms, (Cell.ofPattern a.1).testsOnly p = true) : (ofArms t arms).TestsOnly p := by
  intro row hrow c hc
  obtain ⟨a, ha, rfl⟩ := List.mem_map.1 hrow
  obtain rfl := List.mem_singleton.1 hc
  exact h a.1 (List.fst_mem_of_mem_zipIdx ha)

/-- The witness of a match that is not exhaustive is well-typed. Unless a column of integers lists all of
them, no arm without a guard accepts a subject that the witness describes. -/
theorem uncovered_accepted_by_none {r : Registries} (hr : r.types.WellFormed) {t : Ty}
    {arms : List (TPattern × Bool)} (harms : ∀ a ∈ arms, a.1.Fits r t)
    (hplain : ∀ a ∈ arms, a.1.isPlain = true) {w : Witness}
    (hw : (r.compileMatch t arms).uncovered = some w) :
    w.Fits r t ∧ ((∀ m, Matrix.Arises r (Matrix.ofArms t arms) m → m.IntegersOpen) →
      ∀ s : Subject, r.Describes w t s.value → ∀ p, (p, false) ∈ arms → p.accepts s = false) := by
  obtain ⟨found, hfound, rfl⟩ := Option.map_eq_some_iff.1 hw
  obtain ⟨-, hfits, hguarded⟩ := Matrix.failPath_compile hr (Matrix.fits_ofArms harms)
    (Matrix.testsOnly_ofArms fun a ha => Cell.testsOnly_ofPattern a.1 (hplain a ha))
    (TreePath.Reads.root r t) hfound
  refine ⟨hfits.witness_fits _ t .root .root (Nat.lt_succ_of_le List.countP_le_length),
    fun ho s hs p hp => Bool.eq_false_iff.2 fun ha => ?_⟩
  have hsited : Sited r s (Matrix.ofArms t arms).columns [s] := .cons ⟨rfl, hs.hasType⟩ .nil
  have hguarded := hguarded ho s [s] hsited (hfits.followedBy hs)
  rw [accepting_ofArms, guarded_of_mem_armClauses] at hguarded
  exact hguarded ⟨p, hp, ha⟩

/-- `| (Some _, true) | (None, _)` -/
def flaggedArms : List (TPattern × Bool) :=
  let option name args := TPattern.variant .synthetic (.named "Option" [.s32]) "Option" name args
  let pair p q := TPattern.tuple .synthetic (.tuple [.named "Option" [.s32], .bool]) [p, q]
  [(pair (option "Some" [.wild .synthetic .s32]) (.lit .synthetic .bool (.bool true)), false),
    (pair (option "None" []) (.wild .synthetic .bool), false)]

/-- The witness is `(Some _, false)`, and no option that is there and not flagged is matched. -/
theorem flagged_uncovered : ∃ w,
    (positives.compileMatch (.tuple [.named "Option" [.s32], .bool]) flaggedArms).uncovered = some w ∧
    w.text = "(Some _, false)" ∧ w.Fits positives (.tuple [.named "Option" [.s32], .bool]) ∧
    ∀ s : Subject, positives.Describes w (.tuple [.named "Option" [.s32], .bool]) s.value →
      ∀ p, (p, false) ∈ flaggedArms → p.accepts s = false := by
  have hpair : positives.Builds (.tuple [.named "Option" [.s32], .bool]) (.tuple 2)
      [.named "Option" [.s32], .bool] := .tuple _
  have hfits : ∀ a ∈ flaggedArms, a.1.Fits positives (.tuple [.named "Option" [.s32], .bool]) := by
    simp only [flaggedArms, List.mem_cons, List.not_mem_nil, or_false, forall_eq_or_imp, forall_eq]
    refine ⟨.tuple _ _ hpair (.cons ?_ (.cons (.lit _ _ (.literal (.bool true))) .nil)),
      .tuple _ _ hpair (.cons (.variant _ _ builds_none .nil) (.cons (.wild ..) .nil))⟩
    exact .variant _ _ builds_some (.cons (.wild ..) .nil)
  have htext : (positives.compileMatch (.tuple [.named "Option" [.s32], .bool])
      flaggedArms).uncovered.map Witness.text = some "(Some _, false)" := by decide +kernel
  obtain ⟨w, hw, htext⟩ := Option.map_eq_some_iff.1 htext
  obtain ⟨hwell, hnone⟩ := uncovered_accepted_by_none positives_wellFormed hfits (by decide) hw
  exact ⟨w, hw, htext, hwell, hnone fun m hm => hm.integersOpen (by decide)⟩

/-! ## Matrices that test one column -/

def Constructor.isTuple : Constructor → Bool
  | .tuple _ => true
  | _ => false

theorem DecisionTree.canFailInCases_eq_false {cases : List (Constructor × DecisionTree)}
    (h : ∀ c ∈ cases, c.2.canFail = false) : canFailInCases cases = false := by
  induction cases with
  | nil => rfl
  | cons c cases ih =>
    simp [canFailInCases, h c List.mem_cons_self, ih fun d hd => h d (List.mem_cons_of_mem _ hd)]

namespace Matrix

/-- The tree of a matrix without rows fails. -/
theorem compile_of_empty (r : Registries) {m : Matrix} (h : m.rows = []) : m.compile r = .fail := by
  rw [compile_eq]
  simp [step, Matrix.bindNames, h]

/-- The tree of a matrix fails for nothing if its first row has nothing to test and no guard. -/
theorem canFail_compile_of_wild (r : Registries) {m : Matrix} {row : MatchRow}
    {rows : List MatchRow} (h : m.rows = row :: rows) (hw : ∀ c ∈ row.cells, c.isWild = true)
    (hg : row.guarded = false) : (m.compile r).canFail = false := by
  have hnone : (MatchRow.forgetNames row.cells m.columns).findIdx? (fun c => !c.isWild) = none := by
    refine List.findIdx?_eq_none_iff.2 fun c hc => ?_
    rcases MatchRow.mem_forgetNames hc with rfl | hc
    · rfl
    · simp [hw c hc]
  rw [compile_eq]
  simp [step, Matrix.bindNames, h, hnone, MatchRow.bindNames, hg, DecisionTree.canFail]

/-- There are rows, and the first that each tests is column `i`, for a constructor of no tuple. -/
def TestsAt (m : Matrix) (i : Nat) : Prop :=
  m.rows ≠ [] ∧ ∀ row ∈ m.rows, ∃ wilds c args rest, row.cells = wilds ++ .test c args :: rest ∧
    wilds.length = i ∧ (∀ w ∈ wilds, w.isWild = true) ∧ c.isTuple = false

section

variable {r : Registries} {m : Matrix} {i : Nat}

theorem TestsAt.cell (h : m.TestsAt i) {row : MatchRow} (hrow : row ∈ m.rows) :
    ∃ c args, row.cells[i]? = some (.test c args) ∧ c.isTuple = false := by
  obtain ⟨wilds, c, args, rest, hcells, rfl, -, hc⟩ := h.2 row hrow
  exact ⟨c, args, by simp [hcells], hc⟩

/-- Such a matrix is decided by a switch. -/
theorem TestsAt.step_eq (h : m.TestsAt i) {listed : List Constructor} {complete : Bool}
    (hsw : switchCases r (m.columnAt i).ty (m.heads i) = (listed, complete)) :
    m.step r = .switch (m.columnAt i).occurrence (listed.map (fun c => (c, m.within r i c)))
      (if complete then none else some (m.fallback i)) := by
  obtain ⟨row, rows, hrows⟩ := List.exists_cons_of_ne_nil h.1
  have hfind : row.cells.findIdx? (fun c => !c.isWild) = some i := by
    obtain ⟨wilds, c, args, rest, hcells, rfl, hw, -⟩ := h.2 row (hrows ▸ List.mem_cons_self)
    rw [hcells, List.findIdx?_append, List.findIdx?_eq_none_iff.2 (by simpa using hw)]
    simp [List.findIdx?_cons, Cell.isWild]
  have hactive : m.activeIn? i = none := by
    refine List.findSome?_eq_none_iff.2 fun q hq => ?_
    obtain ⟨c, args, hc, -⟩ := h.cell hq
    simp [hc]
  have hheads : ∀ n, m.heads i ≠ [.tuple n] := by
    intro n hn
    obtain ⟨q, hq, args, hqc⟩ := mem_heads.1 (hn ▸ List.mem_singleton_self (Constructor.tuple n))
    obtain ⟨c, args', hc, htuple⟩ := h.cell hq
    cases hqc.symm.trans hc
    cases htuple
  rw [step]
  simp only [hrows, hfind, hactive]
  rw [decideColumn]
  split
  · rename_i n hn
    exact absurd hn (hheads n)
  · simp only [hsw]

/-- Where each case covers what is left, the search for a value that no arm covers ends with a constructor
that no case lists, if there is one. -/
theorem failPath_of_testsAt (scrutinee : Ty) (path : TreePath) (h : m.bindNames.TestsAt i)
    {listed : List Constructor}
    (hsw : switchCases r (m.bindNames.columnAt i).ty (m.bindNames.heads i) = (listed, false))
    (hcases : ∀ c ∈ listed, ((m.bindNames.within r i c).compile r).canFail = false) :
    r.failPath scrutinee path (m.compile r) =
      some (path ++ ((r.missing? (r.typeAt scrutinee path (m.bindNames.columnAt i).occurrence)
        listed).map (fun c => ((m.bindNames.columnAt i).occurrence, c))).toList) := by
  have hnone : r.failPathInCases scrutinee path (m.bindNames.columnAt i).occurrence (listed.map
      (fun c => (c, (m.bindNames.within r i c).compile r))) = none := by
    refine (Registries.failPathInCases_eq_none_iff _ _ _).2
      (DecisionTree.canFailInCases_eq_false fun e he => ?_)
    obtain ⟨c, hc, rfl⟩ := List.mem_map.1 he
    exact hcases c hc
  -- no row is left for a constructor that is not listed
  have hfallback : (m.bindNames.fallback i).compile r = .fail := by
    refine compile_of_empty r (List.filterMap_eq_nil_iff.2 fun q hq => ?_)
    obtain ⟨c, args, hc, -⟩ := h.cell hq
    simp [MatchRow.fallback, hc]
  rw [compile_eq, h.step_eq hsw]
  simp only [Bool.false_eq_true, if_false, List.map_map, Function.comp_def, Option.map_some,
    Registries.failPath, hnone, hfallback, List.map_id']
  cases r.missing? (r.typeAt scrutinee path (m.bindNames.columnAt i).occurrence) listed <;> simp

end

end Matrix

/-! ## Integers that are all listed -/

/-- The arm for one integer. -/
def integerArm (p : Primitive) (n : Int) : TPattern × Bool :=
  (.lit .synthetic (.prim p) (.int n), false)

section

variable {r : Registries} {p : Primitive} {low high : Int} {ns : List Int}

theorem mem_rows_integerArms {row : MatchRow}
    (h : row ∈ (Matrix.ofArms (.prim p) (ns.map (integerArm p))).bindNames.rows) :
    ∃ n ∈ ns, row.cells = [.test (.literal (.int n)) []] ∧ row.guarded = false := by
  obtain ⟨q, hq, rfl⟩ := List.mem_map.1 h
  obtain ⟨⟨a, k⟩, ha, rfl⟩ := List.mem_map.1 hq
  obtain ⟨n, hn, rfl⟩ := List.mem_map.1 (List.fst_mem_of_mem_zipIdx ha)
  exact ⟨n, hn, rfl, rfl⟩

theorem mem_heads_integerArms {n : Int} (h : n ∈ ns) : Constructor.literal (.int n) ∈
    (Matrix.ofArms (.prim p) (ns.map (integerArm p))).bindNames.heads 0 := by
  obtain ⟨k, hk⟩ : ∃ k, (integerArm p n, k) ∈ (ns.map (integerArm p)).zipIdx := by
    obtain ⟨k, hlt, hk⟩ := List.getElem_of_mem (List.mem_map_of_mem (f := integerArm p) h)
    exact ⟨k, List.mk_mem_zipIdx_iff_getElem?.2 (hk ▸ List.getElem?_eq_getElem hlt)⟩
  exact Matrix.mem_heads.2 ⟨_, List.mem_map_of_mem (List.mem_map_of_mem hk), [], rfl⟩

/-- Integers are never taken to be all listed: arms for all values of a type of integers are said to
leave something out. Nothing is left to name, so that the witness is a wildcard. -/
theorem uncovered_of_all_listed (hrange : p.range? = some (low, high))
    (hall : ∀ n, low ≤ n → n ≤ high → n ∈ ns) :
    (r.compileMatch (.prim p) (ns.map (integerArm p))).uncovered = some .wild := by
  obtain ⟨hlow, hhigh⟩ := Primitive.zero_in_range hrange
  have hheads := @mem_heads_integerArms p ns
  have hrows := @mem_rows_integerArms p ns
  suffices h : r.failPath (.prim p) []
      ((Matrix.ofArms (.prim p) (ns.map (integerArm p))).compile r) = some [] by
    rw [Registries.compileMatch, Registries.uncovered?, h, Option.map_some]
    simp [Registries.witnessWithin, Registries.witnessAt, TreePath.at?, TreePath.appliedTo?]
  have hcolumn : (Matrix.ofArms (.prim p) (ns.map (integerArm p))).bindNames.columnAt 0 =
      ⟨.root, .prim p⟩ := rfl
  have hfail := @Matrix.failPath_of_testsAt r (Matrix.ofArms (.prim p) (ns.map (integerArm p))) 0
    (.prim p) []
  rw [hcolumn] at hfail
  generalize (Matrix.ofArms (.prim p) (ns.map (integerArm p))).bindNames = m at hheads hrows hfail
  have htests : m.TestsAt 0 := by
    obtain ⟨first, hfirst, -⟩ := Matrix.mem_heads.1 (hheads (hall 0 hlow hhigh))
    refine ⟨List.ne_nil_of_mem hfirst, fun row hrow => ?_⟩
    obtain ⟨n, -, hcells, -⟩ := hrows hrow
    exact ⟨[], _, [], [], hcells, rfl, by simp, rfl⟩
  have hsignature : r.signature? (.prim p) = none := by
    cases p <;> first | rfl | cases hrange
  have hmissing : r.missing? (.prim p) (m.heads 0) = none := by
    simp only [Registries.missing?, hsignature, hrange, Option.bind_some]
    exact Registries.missingInt?_eq_none hlow hhigh fun k hk hk' => hheads (hall k hk hk')
  have hcases : ∀ c ∈ m.heads 0, ((m.within r 0 c).compile r).canFail = false := by
    intro c hc
    obtain ⟨q, hq, args, hqc⟩ := Matrix.mem_heads.1 hc
    have hmem : { q with cells := splice q.cells 0 args } ∈ (m.within r 0 c).rows :=
      List.mem_filterMap.2 ⟨q, hq, by simp [MatchRow.specialize, hqc]⟩
    obtain ⟨s, rows, hcons⟩ := List.exists_cons_of_ne_nil (List.ne_nil_of_mem hmem)
    obtain ⟨q, hq, hspec⟩ := List.mem_filterMap.1
      (show s ∈ (m.within r 0 c).rows from hcons ▸ List.mem_cons_self)
    obtain ⟨k, -, hcells, hg⟩ := hrows hq
    simp only [MatchRow.specialize, hcells, List.getElem?_cons_zero, splice_cons_zero,
      Option.ite_none_right_eq_some, Option.some.injEq] at hspec
    obtain ⟨-, rfl⟩ := hspec
    exact Matrix.canFail_compile_of_wild r hcons (by simp) hg
  simpa [Registries.typeAt, hmissing] using
    hfail htests (by simp [Matrix.switchCases, hsignature]) hcases

end

/-- `| 0 | 1 | … | 255` -/
def byteArms : List (TPattern × Bool) :=
  ((List.range 256).map (fun (n : Nat) => (n : Int))).map (integerArm .u8)

/-- Arms for all bytes leave nothing out, but the match is said not to cover `_`, which describes zero. -/
theorem bytes_uncovered :
    (∀ a ∈ byteArms, a.1.Fits .empty (.prim .u8) ∧ a.1.isPlain = true) ∧
    (Registries.empty.compileMatch (.prim .u8) byteArms).uncovered = some .wild ∧
    Registries.empty.Describes .wild (.prim .u8) (.literal (.int 0)) ∧
    ∃ p, (p, false) ∈ byteArms ∧
      p.accepts ⟨.literal (.int 0), fun _ _ => .sealed⟩ = true := by
  have hzero : (LiteralKey.int 0).Fits (.prim .u8) := .int rfl (by decide) (by decide)
  refine ⟨fun a ha => ?_, ?_, .wild (.built (.literal hzero) .nil), (integerArm .u8 0).1, ?_, by decide⟩
  · obtain ⟨n, hn, rfl⟩ := List.mem_map.1 ha
    obtain ⟨k, hk, rfl⟩ := List.mem_map.1 hn
    have hk := List.mem_range.1 hk
    exact ⟨.lit _ _ (.literal (.int rfl (by omega) (by omega))), rfl⟩
  · refine uncovered_of_all_listed rfl fun n hn hn' => List.mem_map.2 ⟨n.toNat, ?_, by omega⟩
    exact List.mem_range.2 (by omega)
  · exact List.mem_map_of_mem (List.mem_map.2 ⟨0, by simp, rfl⟩)

end RowCheck
