import RowCheck.Proofs.Match.Inhabited
import RowCheck.Proofs.Match.Ways

/-!
A compiled match fails for some subject exactly if its tree has a way that ends without an arm. One
direction is that the tree selects the first arm; the other is that no way through a tree is there
in vain: the constructors that a way fixes can be had together. This needs that every type has
values, and that a column of integers never lists all of them.
-/
namespace RowCheck

/-! ## Every way is taken -/

/-- Subjects for a list of columns with one replaced are those for the list itself, with the subject
there replaced. -/
theorem exists_of_forall₂_splice {α β : Type} {R : α → β → Prop} {l new : List α} {zs : List β}
    {i : Nat} {a : α} (ha : l[i]? = some a) (h : List.Forall₂ R (splice l i new) zs) :
    ∃ xs, List.Forall₂ R new xs ∧
      ∀ y, R a y → ∃ ys, List.Forall₂ R l ys ∧ ys[i]? = some y ∧ splice ys i xs = zs := by
  induction i generalizing l zs with
  | zero =>
    cases l with
    | nil => simp at ha
    | cons b l =>
      obtain rfl : b = a := by simpa using ha
      rw [splice_cons_zero] at h
      have hxs := (List.forall₂_take_append zs new l h.flip).flip
      have hys := (List.forall₂_drop_append zs new l h.flip).flip
      refine ⟨_, hxs, fun y hy => ⟨y :: zs.drop new.length, .cons hy hys, rfl, ?_⟩⟩
      simp
  | succ i ih =>
    cases l with
    | nil => simp at ha
    | cons b l =>
      rw [splice_cons_succ] at h
      cases h with
      | @cons _ z _ zs hz hzs =>
        obtain ⟨xs, hxs, hall⟩ := ih (by simpa using ha) hzs
        refine ⟨xs, hxs, fun y hy => ?_⟩
        obtain ⟨ys, hys, hi, rfl⟩ := hall y hy
        exact ⟨z :: ys, .cons hz hys, by simpa using hi, by simp⟩

namespace Matrix

/-- Whether an arm, or a way that ends without one, is visited for some subjects of the columns. -/
def Visited (r : Registries) (m : Matrix) (x : Option Nat) : Prop :=
  ∃ ss, List.Forall₂ (fun column s => Subject.Fits r s (Column.ty column)) m.columns ss ∧
    x ∈ trail (m.accepting ss)

variable {r : Registries} {m : Matrix} {x : Option Nat}

theorem visited_of_bindNames (h : m.bindNames.Visited r x) : m.Visited r x := by
  obtain ⟨ss, hss, hx⟩ := h
  exact ⟨ss, hss, accepting_bindNames m ss ▸ hx⟩

theorem visited_of_fail (hp : r.Populated) (h : m.rows = []) : m.Visited r none := by
  obtain ⟨ss, hss⟩ := hp.exists_subjects m.columns
  exact ⟨ss, hss, by simp [accepting, h, trail]⟩

namespace Fits

variable {row : MatchRow} {rows : List MatchRow} {i : Nat} {column : Column}

/-- The first row is visited for any subjects, if all its cells are wildcards. -/
theorem visited_of_wild (hm : m.Fits r) (hp : r.Populated) (hn : m.Nameless)
    (h : m.rows = row :: rows) (hw : ∀ c ∈ row.cells, c.isWild = true) :
    m.Visited r (some row.arm) := by
  obtain ⟨ss, hss⟩ := hp.exists_subjects m.columns
  refine ⟨ss, hss, ?_⟩
  rw [accepting_of_wild hm hn hss.length_eq h hw, trail]
  split <;> exact List.mem_cons_self

/-- What is visited after a first row with a guard is visited with it. -/
theorem visited_of_guard (hm : m.Fits r) (hn : m.Nameless) (h : m.rows = row :: rows)
    (hw : ∀ c ∈ row.cells, c.isWild = true) (hg : row.guarded = true)
    (hx : ({ m with rows } : Matrix).Visited r x) : m.Visited r x := by
  obtain ⟨ss, hss, hx⟩ := hx
  refine ⟨ss, hss, ?_⟩
  rw [accepting_of_wild hm hn hss.length_eq h hw]
  simpa [trail, hg] using .inr hx

/-- What is visited with an active pattern applied is visited for the subject that it gives a result. -/
theorem visited_of_expandActive (hm : m.Fits r) (hn : m.Nameless) (hk : m.columns[i]? = some column)
    {pattern : String} (hx : (m.expandActive i pattern).Visited r x) : m.Visited r x := by
  obtain ⟨zs, hzs, hx⟩ := hx
  simp only [Matrix.expandActive, columnAt_eq hk] at hzs
  obtain ⟨xs, hxs, hall⟩ := exists_of_forall₂_splice hk hzs
  cases hxs with
  | @cons _ u _ _ hu hxs =>
    cases hxs with
    | @cons _ w _ _ hw hxs =>
      cases hxs
      obtain ⟨ss, hss, hs, rfl⟩ := hall _ (hu.withResult hw)
      refine ⟨ss, hss, ?_⟩
      rw [← accepting_expandActive hm hn hk hs (u.sameBut_withResult w pattern)]
      simpa using hx

/-- What is visited within the fields of a constructor is visited for subjects built with it. -/
theorem visited_of_within (hm : m.Fits r) (hp : r.Populated) (hn : m.Nameless)
    (ha : m.activeIn? i = none) (hk : m.columns[i]? = some column) {c : Constructor} {types : List Ty}
    (hb : r.Builds column.ty c types) (hx : (m.within r i c).Visited r x) : m.Visited r x := by
  obtain ⟨zs, hzs, hx⟩ := hx
  simp only [Matrix.within, specialize, columnAt_eq hk, hb.fieldTypes_eq] at hzs
  obtain ⟨xs, hxs, hall⟩ := exists_of_forall₂_splice hk hzs
  have hxs : List.Forall₂ (fun s u => Subject.Fits r s u) xs types := by
    refine List.forall₂_iff_get.2 ⟨by simpa using hxs.length_eq.symm, fun k h₁ h₂ => ?_⟩
    simpa using List.Forall₂.get hxs (by simpa using h₂) h₁
  obtain ⟨s, hs, hv, rfl⟩ := hp.exists_assembled hb hxs
  obtain ⟨ss, hss, hi, rfl⟩ := hall s hs
  refine ⟨ss, hss, ?_⟩
  rwa [← accepting_within hm hn ha hk hi hv (by rw [hb.fieldTypes_eq, hxs.length_eq])]

/-- What is visited without a column is visited for a subject there that no row tests for, if there is
one. -/
theorem visited_of_fallback (hm : m.Fits r) (hp : r.Populated) (hn : m.Nameless)
    (ha : m.activeIn? i = none) (hk : m.columns[i]? = some column) {v : Value}
    (hv : r.HasType v column.ty) (hunlisted : ∀ c ∈ m.heads i, v.constructor? ≠ some c)
    (hx : (m.fallback i).Visited r x) : m.Visited r x := by
  obtain ⟨zs, hzs, hx⟩ := hx
  obtain ⟨xs, hxs, hall⟩ := exists_of_forall₂_splice hk hzs
  cases hxs
  obtain ⟨s, rfl, hfit⟩ := hp.exists_subject hv
  obtain ⟨ss, hss, hs, rfl⟩ := hall s hfit
  refine ⟨ss, hss, ?_⟩
  rwa [← accepting_fallback hm hn ha hk hs hunlisted]

end Fits

/-- Every arm that a compiled tree selects or tries, and every way that ends without an arm, is
visited for some subjects of the columns. -/
theorem visited_of_mem_visits (hr : r.types.WellFormed) (hp : r.Populated) (hm : m.Fits r)
    (ho : ∀ n, Arises r m n → n.IntegersOpen) (hx : x ∈ (m.compile r).visits) : m.Visited r x := by
  induction m using compile_induction r with
  | _ m ih =>
    have hn := hm.nameless_bindNames
    replace hm := hm.bindNames
    have hopen := ho _ (.self m)
    have ho : ∀ n ∈ (m.bindNames.step r).rest, ∀ k, Arises r n k → k.IntegersOpen :=
      fun n hn k hk => ho k (.step hn hk)
    refine visited_of_bindNames ?_
    rw [compile_eq] at hx
    have hst := m.bindNames.steps r
    generalize m.bindNames.step r = st at ih hst hx ho
    generalize m.bindNames = n at hm hn hopen hst ⊢
    replace ih := fun k hk hfit hx => ih k hk hfit (ho k hk) hx
    cases hst with
    | fail h =>
      obtain rfl : x = none := by simpa [DecisionTree.visits] using hx
      exact visited_of_fail hp h
    | @leaf row rows h hw hg =>
      obtain rfl : x = some row.arm := by simpa [DecisionTree.visits] using hx
      exact hm.visited_of_wild hp hn h hw
    | @guard row rows h hw hg =>
      rcases List.mem_cons.1 hx with rfl | hx
      · exact hm.visited_of_wild hp hn h hw
      · exact hm.visited_of_guard hn h hw hg (ih _ (by simp [MatchStep.rest]) (hm.tail h) hx)
    | @active row i pattern hrow hi ha =>
      obtain ⟨column, hk⟩ := hm.exists_column hrow hi
      exact hm.visited_of_expandActive hn hk
        (ih _ (by simp [MatchStep.rest]) (hm.expandActive hk pattern) hx)
    | @tuple row i k args hrow hc ha hh =>
      obtain ⟨column, hk, types, hb⟩ := hm.builds hrow hc
      exact hm.visited_of_within hp hn ha hk hb
        (ih _ (by simp [MatchStep.rest]) (hm.within hk _) hx)
    | @switch row i d args listed complete hrow hc ha hsw =>
      obtain ⟨column, hk, types, hb⟩ := hm.builds hrow hc
      have hcases : ∀ c ∈ listed, x ∈ ((n.within r i c).compile r).visits → n.Visited r x := by
        intro c hc hx
        obtain ⟨us, hus⟩ := hm.builds_of_listed hk hsw hc
        exact hm.visited_of_within hp hn ha hk hus
          (ih _ (within_mem_rest hc) (hm.within hk _) hx)
      cases complete with
      | true =>
        simp only [Option.map_none, if_true, DecisionTree.visits, List.map_map,
          Function.comp_def] at hx
        obtain ⟨_, hmem, hx⟩ := DecisionTree.mem_visitsOfCases.1 hx
        obtain ⟨c, hc, rfl⟩ := List.mem_map.1 hmem
        exact hcases c hc hx
      | false =>
        simp only [Option.map_some, Bool.false_eq_true, if_false, DecisionTree.visits,
          List.map_map, Function.comp_def, List.mem_append] at hx
        rcases hx with hx | hx
        · obtain ⟨_, hmem, hx⟩ := DecisionTree.mem_visitsOfCases.1 hx
          obtain ⟨c, hc, rfl⟩ := List.mem_map.1 hmem
          exact hcases c hc hx
        · rw [columnAt_eq hk] at hsw
          obtain ⟨v, hv, hunlisted⟩ := exists_unlisted hr hp hb hsw
            (fun p low high => hopen i column p low high hk)
          exact hm.visited_of_fallback hp hn ha hk hv hunlisted
            (ih _ (by simp [MatchStep.rest]) hm.fallback hx)

end Matrix

/-! ## Exhaustiveness -/

/-- A match is found to cover every value exactly if every subject of the type of its scrutinee is
accepted by an arm without a guard, whatever the active patterns give; and exactly if its tree has no
way that ends without an arm. -/
theorem uncovered_eq_none_iff {r : Registries} (hr : r.types.WellFormed) (hp : r.Populated) {t : Ty}
    {arms : List (TPattern × Bool)} (harms : ∀ a ∈ arms, a.1.Fits r t)
    (ho : ∀ m, Matrix.Arises r (Matrix.ofArms t arms) m → m.IntegersOpen) :
    ((r.compileMatch t arms).uncovered = none ↔
      ∀ s : Subject, s.Fits r t → ∃ p, (p, false) ∈ arms ∧ p.accepts s = true) ∧
    ((r.compileMatch t arms).uncovered = none ↔
      (r.compileMatch t arms).tree.canFail = false) := by
  have hfail : (r.compileMatch t arms).uncovered = none ↔
      ((Matrix.ofArms t arms).compile r).canFail = false := Registries.uncovered?_eq_none_iff
  refine ⟨?_, hfail⟩
  rw [hfail]
  constructor
  · intro h s hs
    by_contra hnone
    have hl : Located r s (Matrix.ofArms t arms).columns [s] := .cons ⟨rfl, hs⟩ .nil
    have hends : Ends (fun _ => false) _ _ :=
      Matrix.run_compile hr.named (Matrix.fits_ofArms harms) hl
    rw [accepting_ofArms] at hends
    have hrun := hends.eq_failed (guarded_of_mem_armClauses.2 hnone)
    simp [DecisionTree.canFail_of_run_eq_failed hrun] at h
  · intro h
    by_contra hc
    have hvisits := (DecisionTree.canFail_iff _).1 (by simpa using hc)
    obtain ⟨ss, hss, hx⟩ := Matrix.visited_of_mem_visits hr hp (Matrix.fits_ofArms harms) ho hvisits
    cases hss with
    | @cons _ s _ _ hs hss =>
      cases hss
      rw [accepting_ofArms, none_mem_trail, guarded_of_mem_armClauses] at hx
      exact hx (h s hs)

theorem positives_wellFormed : positives.types.WellFormed :=
  (TypeRegistry.wellFormed_empty.insert (by decide)).insert (by decide)

theorem positives_populated : positives.Populated := by
  refine Registries.populated_of_constants positives_wellFormed fun name d hd => ?_
  simp only [positives, TypeRegistry.get?_insert, TypeRegistry.get?_empty] at hd
  split at hd
  · cases hd
    exact ⟨⟨noMatch, []⟩, by simp [SumType.sign], rfl⟩
  · split at hd
    · cases hd
      exact ⟨⟨"None", []⟩, by simp [SumType.option], rfl⟩
    · cases hd

/-- Without its second arm the match is not exhaustive: the guard of the first may be false. -/
theorem uncovered_without_second :
    (positives.compileMatch (.named "Option" [.s32]) (positiveArms.eraseIdx 1)).uncovered ≠ none ∧
    (positives.compileMatch (.named "Option" [.s32])
      (positiveArms.eraseIdx 1)).tree.canFail = true := by
  have hfits : ∀ a ∈ positiveArms.eraseIdx 1, a.1.Fits positives (.named "Option" [.s32]) :=
    fun a ha => fits_positiveArms a (List.mem_of_mem_eraseIdx ha)
  obtain ⟨hcover, hfail⟩ := uncovered_eq_none_iff positives_wellFormed positives_populated hfits
    (fun m hm => hm.integersOpen (by decide))
  have hne : (positives.compileMatch (.named "Option" [.s32])
      (positiveArms.eraseIdx 1)).uncovered ≠ none := by
    intro h
    obtain ⟨p, hp, ha⟩ := hcover.1 h someSeven fits_someSeven
    simp only [positiveArms, List.eraseIdx, List.mem_cons, Prod.mk.injEq, Bool.false_eq_true,
      and_false, and_true, List.not_mem_nil, or_false, false_or] at hp
    subst hp
    simp [TPattern.accepts, someSeven, Value.constructor?] at ha
  exact ⟨hne, by simpa using fun h => hne (hfail.2 h)⟩

end RowCheck
