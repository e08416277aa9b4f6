import RowCheck.Proofs.Match.Steps

/-!
A compiled match selects the first arm. The clauses of the accepting rows are what evaluation has
to follow, and each step of compiling either keeps them or takes the first one off, so evaluating
the tree of a matrix ends with the first clause whose guard holds.
-/
namespace RowCheck

/-- How evaluation has to end when rows with these clauses accept: with the first one that has no
guard or whose guard holds. -/
def Ends (holds : Nat → Bool) : List Clause → Outcome → Prop
  | [], o => o = .failed
  | c :: cs, o =>
    if c.guarded = true ∧ holds c.arm = false then Ends holds cs o
    else ∃ bindings : Bindings, o = .selected c.arm bindings ∧ bindings = c.bindings

/-- The subjects of columns: each is what is found at the occurrence of its column, and has the type
of the column. -/
def Located (r : Registries) (root : Subject) (columns : List Column) (ss : List Subject) : Prop :=
  List.Forall₂ (fun column s => root.at? column.occurrence = some s ∧ s.Fits r column.ty) columns ss

namespace DecisionTree

variable {s : Subject} {holds : Nat → Bool} {head : Option Constructor}
  {listed : List Constructor}

theorem runCases_eq_some (f : Constructor → DecisionTree) {c : Constructor} (hc : c ∈ listed) :
    runCases s holds (some c) (listed.map (fun d => (d, f d))) = some ((f c).run s holds) := by
  induction listed with
  | nil => cases hc
  | cons d listed ih =>
    by_cases h : c = d
    · simp [runCases, h]
    · have hc := (List.mem_cons.1 hc).resolve_left h
      simp [runCases, h, ih hc]

theorem runCases_eq_none (f : Constructor → DecisionTree) (h : ∀ c ∈ listed, head ≠ some c) :
    runCases s holds head (listed.map (fun d => (d, f d))) = none := by
  induction listed with
  | nil => rfl
  | cons d listed ih =>
    simp [runCases, h d List.mem_cons_self, ih (fun c hc => h c (List.mem_cons_of_mem _ hc))]

end DecisionTree

section

variable {r : Registries} {root s : Subject} {columns : List Column} {ss : List Subject} {i : Nat}
  {column : Column}

theorem Located.subject (h : Located r root columns ss) (hk : columns[i]? = some column) :
    ∃ s, ss[i]? = some s ∧ root.at? column.occurrence = some s ∧ s.Fits r column.ty := by
  obtain ⟨hi, he⟩ := List.getElem?_eq_some_iff.1 hk
  have hi' : i < ss.length := h.length_eq ▸ hi
  have hs := List.Forall₂.get h hi hi'
  exact ⟨ss[i], List.getElem?_eq_getElem hi', by simpa [he] using hs⟩

/-- The fields of a subject stand at the columns that compiling makes for them. -/
theorem located_fields {c d : Constructor} {types : List Ty}
    (ho : root.at? column.occurrence = some s) (hs : s.Fits r column.ty)
    (ht : r.Builds column.ty d types) (hv : s.value.constructor? = some c) :
    Located r root ((r.fieldTypes column.ty c).zipIdx.map
      (fun f => ⟨.field column.occurrence f.2, f.1⟩)) s.fields := by
  have hf := hs.fields ht hv
  refine List.forall₂_iff_get.2 ⟨by simpa using hf.length_eq.symm, fun k h₁ h₂ => ?_⟩
  have hk : k < (r.fieldTypes column.ty c).length := by simpa using h₁
  have hget : s.fields[k]? = some s.fields[k] := List.getElem?_eq_getElem h₂
  constructor
  · simp [Subject.at?, ho, hget]
  · simpa using List.Forall₂.get hf h₂ hk

end

namespace Matrix

variable {r : Registries} {root : Subject} {holds : Nat → Bool} {m : Matrix} {ss : List Subject}

/-- A first row with nothing left to test accepts, and has bound all its names. -/
theorem accepting_of_wild {row : MatchRow} {rows : List MatchRow} (hm : m.Fits r)
    (hn : m.Nameless) (hl : m.columns.length = ss.length) (h : m.rows = row :: rows)
    (hw : ∀ c ∈ row.cells, c.isWild = true) :
    m.accepting ss =
      ⟨row.arm, row.guarded, row.bindings⟩ :: ({ m with rows } : Matrix).accepting ss := by
  have hrow : row ∈ m.rows := h ▸ List.mem_cons_self
  have hlen : ss.length = row.cells.length := by rw [(hm row hrow).length_eq, hl]
  have ha : row.accepts ss = true := Cell.acceptsAll_of_wild hlen hw
  have hp : Cell.placesAll m.columns row.cells = [] := Cell.placesAll_of_wild hw (hn row hrow)
  simp [accepting, h, ha, MatchRow.clause, hp]

/-- Evaluating the tree of a matrix ends with the first accepting row whose guard holds. -/
theorem run_compile (hr : r.types.Named) (hm : m.Fits r) (hl : Located r root m.columns ss) :
    Ends holds (m.accepting ss) ((m.compile r).run root holds) := by
  induction m using compile_induction r generalizing ss with
  | _ m ih =>
    rw [compile_eq, ← m.accepting_bindNames]
    have hn := hm.nameless_bindNames
    replace hm := hm.bindNames
    replace hl : Located r root m.bindNames.columns ss := hl
    have hst := m.bindNames.steps r
    generalize m.bindNames.step r = st at ih hst ⊢
    generalize m.bindNames = n at hm hn hl hst ⊢
    cases hst with
    | fail h => simp [accepting, h, Ends, DecisionTree.run]
    | leaf h hw hg =>
      rw [accepting_of_wild hm hn hl.length_eq h hw]
      simp [Ends, hg, DecisionTree.run]
    | @guard row rows h hw hg =>
      rw [accepting_of_wild hm hn hl.length_eq h hw]
      cases hh : holds row.arm with
      | true => simp [Ends, hg, DecisionTree.run, hh]
      | false =>
        simpa [Ends, hg, DecisionTree.run, hh] using ih _ (by simp [MatchStep.rest]) (hm.tail h) hl
    | @active row i pattern hrow hi ha =>
      obtain ⟨column, hk⟩ := hm.exists_column hrow hi
      obtain ⟨s, hs, ho, hfit⟩ := hl.subject hk
      rw [← accepting_expandActive hm hn hk hs ⟨rfl, rfl, fun _ _ => rfl⟩]
      refine ih _ (by simp [MatchStep.rest]) (hm.expandActive hk pattern) ?_
      simp only [expandActive, columnAt_eq hk]
      refine forall₂_splice i hl (.cons ⟨ho, hfit⟩ (.cons ⟨by simp [Subject.at?, ho], ?_⟩ .nil))
      exact hfit.applied (hm.isSome_of_activeIn? hk ha)
    | @tuple row i k args hrow hc ha hh =>
      obtain ⟨column, hk, types, hb⟩ := hm.builds hrow hc
      obtain ⟨s, hs, ho, hfit⟩ := hl.subject hk
      have hv : s.value.constructor? = some (.tuple k) := by
        have ht : ∃ all, r.signature? column.ty = some all ∧ all = [.tuple k] := by
          generalize column.ty = t at hb
          cases hb
          exact ⟨_, rfl, rfl⟩
        obtain ⟨all, hall, rfl⟩ := ht
        obtain ⟨c, hc, hv⟩ := hfit.value.exists_constructor hr hall
        rw [hv, List.mem_singleton.1 hc]
      have hlen := (hfit.fields hb hv).length_eq
      rw [← accepting_within hm hn ha hk hs hv hlen]
      refine ih _ (by simp [MatchStep.rest]) (hm.within hk _) ?_
      simp only [within, specialize, columnAt_eq hk]
      exact forall₂_splice i hl (located_fields ho hfit hb hv)
    | @switch row i d args listed complete hrow hc ha hsw =>
      obtain ⟨column, hk, types, hb⟩ := hm.builds hrow hc
      obtain ⟨s, hs, ho, hfit⟩ := hl.subject hk
      rw [columnAt_eq hk] at hsw
      simp only [columnAt_eq hk, List.map_map, Function.comp_def]
      by_cases hv : ∃ c ∈ listed, s.value.constructor? = some c
      · -- the case of the constructor that the value is built with
        obtain ⟨c, hc, hv⟩ := hv
        have hlen := (hfit.fields hb hv).length_eq
        have hrun : Ends holds (n.accepting ss) (((n.within r i c).compile r).run root holds) := by
          rw [← accepting_within hm hn ha hk hs hv hlen]
          refine ih _ (within_mem_rest hc) (hm.within hk _) ?_
          simp only [within, specialize, columnAt_eq hk]
          exact forall₂_splice i hl (located_fields ho hfit hb hv)
        cases complete <;>
          simpa [DecisionTree.run, ho, hv,
            DecisionTree.runCases_eq_some (fun c => (n.within r i c).compile r) hc] using hrun
      · -- the fallback, which is there as the value has no listed constructor
        have hnone : ∀ c ∈ listed, s.value.constructor? ≠ some c := fun c hc e => hv ⟨c, hc, e⟩
        have hcomplete : complete = false := by
          refine Bool.eq_false_iff.2 fun hcomplete => ?_
          obtain ⟨all, hall, hsub⟩ := (complete_iff hsw).1 hcomplete
          obtain ⟨c, hc, he⟩ := hfit.value.exists_constructor hr hall
          exact hnone c (hsub c hc) he
        have hheads : ∀ c ∈ n.heads i, s.value.constructor? ≠ some c := by
          intro c hc he
          obtain ⟨us, hus, -⟩ := hfit.value.exists_built hb he
          exact hnone c (mem_listed hr hsw hus hc) he
        subst hcomplete
        have hrun : Ends holds (n.accepting ss) (((n.fallback i).compile r).run root holds) := by
          rw [← accepting_fallback hm hn ha hk hs hheads]
          refine ih _ (by simp [MatchStep.rest]) (hm.fallback) ?_
          exact forall₂_splice i hl .nil
        simpa [DecisionTree.run, ho, DecisionTree.runCases_eq_none _ hnone] using hrun

end Matrix

/-! ## Matches -/

/-- The clauses of the arms that accept, where arms are numbered from `n`. -/
def armClauses (s : Subject) (n : Nat) (arms : List (TPattern × Bool)) : List Clause :=
  ((arms.zipIdx n).filter (fun a => a.1.1.accepts s)).map
    (fun a => ⟨a.2, a.1.2, a.1.1.places .root⟩)

theorem armClauses_cons (s : Subject) (n : Nat) (p : TPattern) (guarded : Bool)
    (arms : List (TPattern × Bool)) :
    armClauses s n ((p, guarded) :: arms) =
      if p.accepts s = true then ⟨n, guarded, p.places .root⟩ :: armClauses s (n + 1) arms
      else armClauses s (n + 1) arms := by
  simp only [armClauses, List.zipIdx_cons, List.filter_cons]
  split <;> rfl

theorem accepting_ofArms (t : Ty) (arms : List (TPattern × Bool)) (s : Subject) :
    (Matrix.ofArms t arms).accepting [s] = armClauses s 0 arms := by
  simp [armClauses, Matrix.accepting, Matrix.ofArms, List.filter_map, Function.comp_def,
    MatchRow.accepts, MatchRow.clause, Cell.acceptsAll, Cell.placesAll, Cell.accepts_ofPattern,
    Cell.places_ofPattern]

section

variable {arms : List (TPattern × Bool)} {s : Subject} {holds : Nat → Bool}

theorem selects_cons_zero {p : TPattern} {guarded : Bool} :
    Selects ((p, guarded) :: arms) s holds 0 ↔
      p.accepts s = true ∧ (guarded = true → holds 0 = true) := by
  constructor
  · rintro ⟨q, g, he, h⟩
    cases he
    exact h
  · exact fun h => ⟨p, guarded, rfl, h⟩

theorem selects_cons_succ {a : TPattern × Bool} {i : Nat} :
    Selects (a :: arms) s holds (i + 1) ↔ Selects arms s (fun j => holds (j + 1)) i := by
  simp [Selects]

theorem SelectsFirst.unique {i j : Nat} (hi : SelectsFirst arms s holds i)
    (hj : SelectsFirst arms s holds j) : i = j := by
  rcases Nat.lt_trichotomy i j with h | h | h
  · exact absurd hi.1 (hj.2 i h)
  · exact h
  · exact absurd hj.1 (hi.2 j h)

/-- Ending with the first clause of a match is selecting its first arm. The arms are numbered from
`n`. -/
theorem Ends.selectsFirst {n : Nat} {o : Outcome}
    (h : Ends holds (armClauses s n arms) o) :
    (o = .failed ∧ ∀ i, ¬ Selects arms s (fun j => holds (n + j)) i) ∨
    ∃ i p guarded bindings, o = .selected (n + i) bindings ∧ arms[i]? = some (p, guarded) ∧
      bindings.Perm (p.places .root) ∧ SelectsFirst arms s (fun j => holds (n + j)) i := by
  induction arms generalizing n with
  | nil => exact .inl ⟨h, fun i hi => by obtain ⟨p, g, he, -⟩ := hi; simp at he⟩
  | cons a arms ih =>
    obtain ⟨p, guarded⟩ := a
    have shift : (fun j => holds (n + (j + 1))) = fun j => holds (n + 1 + j) := by
      funext j
      rw [Nat.add_right_comm, Nat.add_assoc]
    by_cases hsel : p.accepts s = true ∧ (guarded = true → holds n = true)
    · obtain ⟨ha, hg⟩ := hsel
      rw [armClauses_cons, if_pos ha, Ends, if_neg] at h
      · obtain ⟨bindings, rfl, hb⟩ := h
        refine .inr ⟨0, p, guarded, bindings, rfl, rfl, Multiset.coe_eq_coe.1 hb, ?_, ?_⟩
        · exact selects_cons_zero.2 ⟨ha, hg⟩
        · exact fun j hj => absurd hj (Nat.not_lt_zero j)
      · rintro ⟨hguarded, hfalse⟩
        simp [hg hguarded] at hfalse
    · have h : Ends holds (armClauses s (n + 1) arms) o := by
        rw [armClauses_cons] at h
        by_cases ha : p.accepts s = true
        · have hg : guarded = true ∧ holds n = false := by
            cases guarded <;> cases hh : holds n <;> simp_all
          rwa [if_pos ha, Ends, if_pos hg] at h
        · rwa [if_neg ha] at h
      have hzero : ¬ Selects ((p, guarded) :: arms) s (fun j => holds (n + j)) 0 := fun hz =>
        hsel (selects_cons_zero.1 hz)
      rcases ih h with ⟨rfl, hnone⟩ | ⟨i, q, g, bindings, rfl, hi, hp, hfirst, hbefore⟩
      · refine .inl ⟨rfl, fun i => ?_⟩
        cases i with
        | zero => exact hzero
        | succ i =>
          rw [selects_cons_succ, shift]
          exact hnone i
      · refine .inr ⟨i + 1, q, g, bindings, by rw [Nat.add_right_comm, Nat.add_assoc], by simpa, hp,
          ?_, fun j hj => ?_⟩
        · rw [selects_cons_succ, shift]
          exact hfirst
        · cases j with
          | zero => exact hzero
          | succ j =>
            rw [selects_cons_succ, shift]
            exact hbefore j (by omega)

end

/-- The tree of a match fails if no arm accepts, and otherwise ends with the first arm that does. -/
theorem Matrix.run_ofArms {r : Registries} (hr : r.types.Named) {t : Ty}
    {arms : List (TPattern × Bool)} (harms : ∀ a ∈ arms, a.1.Fits r t) {s : Subject}
    (hs : s.Fits r t) (holds : Nat → Bool) :
    (((ofArms t arms).compile r).run s holds = .failed ∧ ∀ i, ¬ Selects arms s holds i) ∨
    ∃ i p guarded bindings, ((ofArms t arms).compile r).run s holds = .selected i bindings ∧
      arms[i]? = some (p, guarded) ∧ bindings.Perm (p.places .root) ∧
      SelectsFirst arms s holds i := by
  have hl : Located r s (ofArms t arms).columns [s] := .cons ⟨rfl, hs⟩ .nil
  have h : Ends holds _ (((ofArms t arms).compile r).run s holds) :=
    run_compile hr (fits_ofArms harms) hl
  rw [accepting_ofArms] at h
  simpa only [Nat.zero_add] using h.selectsFirst

/-- The tree of a match selects the first arm, in source order, whose pattern accepts the subject
and whose guard holds if there is one; it fails if there is no such arm, and it is never stuck. What
the selected arm binds are the names of its pattern, each with the occurrence of its value. -/
theorem compile_selects_first {r : Registries} (hr : r.types.Named) {t : Ty}
    {arms : List (TPattern × Bool)} (harms : ∀ a ∈ arms, a.1.Fits r t) {s : Subject}
    (hs : s.Fits r t) (holds : Nat → Bool) :
    let o := ((Matrix.ofArms t arms).compile r).run s holds
    (∀ i, (∃ bindings, o = .selected i bindings) ↔ SelectsFirst arms s holds i) ∧
    (o = .failed ↔ ∀ i, ¬ Selects arms s holds i) ∧
    o ≠ .stuck ∧
    ∀ i bindings p guarded, o = .selected i bindings → arms[i]? = some (p, guarded) →
      bindings.Perm (p.places .root) := by
  intro o
  rcases Matrix.run_ofArms hr harms hs holds with ⟨ho, hnone⟩ | ⟨i, p, g, bindings, ho, hi, hp, hfirst⟩
  · replace ho : o = .failed := ho
    refine ⟨fun i => ⟨?_, fun hi => absurd hi.1 (hnone i)⟩, by simp [ho, hnone], by simp [ho], ?_⟩
    · rintro ⟨bindings, hb⟩
      simp [ho] at hb
    · intro i bindings p guarded hb
      simp [ho] at hb
  · replace ho : o = .selected i bindings := ho
    refine ⟨fun j => ⟨?_, fun hj => ?_⟩, ?_, by simp [ho], ?_⟩
    · rintro ⟨bindings', hb⟩
      simp only [ho, Outcome.selected.injEq] at hb
      exact hb.1 ▸ hfirst
    · exact ⟨bindings, hj.unique hfirst ▸ ho⟩
    · simp only [ho, reduceCtorEq, false_iff, not_forall, not_not]
      exact ⟨i, hfirst.1⟩
    · intro j bindings' q g' hb hj
      simp only [ho, Outcome.selected.injEq] at hb
      obtain ⟨rfl, rfl⟩ := hb
      cases hi.symm.trans hj
      exact hp

/-! ## An example -/

def SumType.option : SumType := ⟨"Option", [0], [⟨"Some", [.var 0]⟩, ⟨"None", []⟩]⟩

def SumType.sign : SumType := ⟨"Sign", [], [⟨"Positive", [.s32]⟩, ⟨noMatch, []⟩]⟩

/-- Options, and an active pattern that knows positive numbers. -/
def positives : Registries where
  types := (TypeRegistry.empty.insert .option).insert .sign
  active := ActiveRegistry.empty.insert ⟨"Sign", ["Positive"], false⟩

/-- `| Some (Positive k) when g | Some n | None` -/
def positiveArms : List (TPattern × Bool) :=
  let bind x := TPattern.bind .synthetic .s32 x none
  let option name args := TPattern.variant .synthetic (.named "Option" [.s32]) "Option" name args
  [(option "Some" [.active .synthetic .s32 "Sign" "Positive" [bind "k"]], true),
    (option "Some" [bind "n"], false), (option "None" [], false)]

/-- `Some 7`, where the pattern gives `Positive 7` on every value. -/
def someSeven : Subject where
  value := .variant "Option" "Some" [.literal (.int 7)]
  results _ _ := .variant "Sign" "Positive" [.literal (.int 7)]

theorem positives_named : positives.types.Named :=
  (TypeRegistry.named_empty.insert _).insert _

theorem builds_some :
    positives.Builds (.named "Option" [.s32]) (.variant "Option" "Some" 1) [.s32] :=
  .variant (d := .option) (v := ⟨"Some", [.var 0]⟩) [.s32] rfl rfl

theorem builds_none : positives.Builds (.named "Option" [.s32]) (.variant "Option" "None" 0) [] :=
  .variant (d := .option) (v := ⟨"None", []⟩) [.s32] rfl rfl

theorem builds_positive :
    positives.Builds (.named "Sign" []) (.variant "Sign" "Positive" 1) [.s32] :=
  .variant (d := .sign) (v := ⟨"Positive", [.s32]⟩) [] rfl rfl

theorem fits_positiveArms : ∀ a ∈ positiveArms, a.1.Fits positives (.named "Option" [.s32]) := by
  simp only [positiveArms, List.mem_cons, List.not_mem_nil, or_false, forall_eq_or_imp, forall_eq]
  refine ⟨.variant _ _ builds_some (.cons ?_ .nil), .variant _ _ builds_some (.cons ?_ .nil),
    .variant _ _ builds_none .nil⟩
  · exact .active _ _ _ (by decide) builds_positive (.cons (.bind ..) .nil)
  · exact .bind ..

theorem fits_someSeven : someSeven.Fits positives (.named "Option" [.s32]) := by
  have hseven : positives.HasType (.literal (.int 7)) .s32 :=
    .built (.literal (.int rfl (by decide) (by decide))) .nil
  refine ⟨.built builds_some (.cons hseven .nil), fun path pattern hp => ?_⟩
  have hsign : pattern = "Sign" := by
    by_contra h
    simp [positives, ActiveRegistry.get?, ActiveRegistry.insert, ActiveRegistry.empty,
      SortedMap.get?_insert, Ne.symm h] at hp
  subst hsign
  exact .built builds_positive (.cons hseven .nil)

/-- With no guard true, the second arm is selected and binds the number. -/
theorem selects_second : ∃ bindings,
    ((Matrix.ofArms (.named "Option" [.s32]) positiveArms).compile positives).run someSeven
      (fun _ => false) = .selected 1 bindings ∧ bindings.Perm [("n", .field .root 0)] := by
  obtain ⟨hsel, -, -, hb⟩ :=
    compile_selects_first positives_named fits_positiveArms fits_someSeven (fun _ => false)
  have hfirst : SelectsFirst positiveArms someSeven (fun _ => false) 1 := by
    refine ⟨⟨_, _, rfl, by decide, by decide⟩, fun j hj => ?_⟩
    obtain rfl : j = 0 := by omega
    rintro ⟨p, guarded, hp, -, hg⟩
    cases hp
    simp at hg
  obtain ⟨bindings, hrun⟩ := (hsel 1).2 hfirst
  exact ⟨bindings, hrun, hb 1 bindings _ _ hrun rfl⟩

end RowCheck
