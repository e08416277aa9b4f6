import RowCheck.Match.Matrix

/-!
From a matrix to a decision tree. One step looks at the first row: it selects or tries its arm
when there is nothing left to test, and otherwise looks into the first column where there is.
Every matrix that a step leaves to compile weighs less, so compiling ends, whatever the patterns.
-/
namespace RowCheck

/-- What one step of compiling a matrix leads to. -/
inductive MatchStep where
  | fail
  | leaf (arm : Nat) (bindings : Bindings)
  | guard (arm : Nat) (bindings : Bindings) (rest : Matrix)
  /-- Nothing is decided, and compiling goes on with another matrix. -/
  | goOn (rest : Matrix)
  | switch (occurrence : Occurrence) (cases : List (Constructor × Matrix))
      (fallback : Option Matrix)

/-- The matrices that are left to compile. -/
def MatchStep.rest : MatchStep → List Matrix
  | fail | leaf .. => []
  | guard _ _ m | goOn m => [m]
  | switch _ cases fallback => cases.map (·.2) ++ fallback.toList

namespace Matrix

/-- The constructors that a switch on a value of type `t` lists, given those that are tested, and
whether they are all there are. A type with finitely many constructors gives their order. -/
def switchCases (r : Registries) (t : Ty) (heads : List Constructor) : List Constructor × Bool :=
  match r.signature? t with
  | some all => (all.filter (fun c => decide (c ∈ heads)), all.all (fun c => decide (c ∈ heads)))
  | none => (heads, false)

/-- The matrix for the fields of `c` in column `i`. -/
def within (r : Registries) (m : Matrix) (i : Nat) (c : Constructor) : Matrix :=
  m.specialize i c (r.fieldTypes (m.columnAt i).ty c)

/-- Decide column `i` by its constructors. A test for a tuple always succeeds and needs no switch.
-/
def decideColumn (r : Registries) (m : Matrix) (i : Nat) : MatchStep :=
  match m.heads i with
  | [.tuple n] => .goOn (m.within r i (.tuple n))
  | heads =>
    let (listed, complete) := switchCases r (m.columnAt i).ty heads
    .switch (m.columnAt i).occurrence (listed.map (fun c => (c, m.within r i c)))
      (if complete then none else some (m.fallback i))

/-- One step on a matrix without names in its cells. -/
def step (r : Registries) (m : Matrix) : MatchStep :=
  match m.rows with
  | [] => .fail
  | row :: rows =>
    match row.cells.findIdx? (fun c => !c.isWild) with
    | none =>
      if row.guarded then .guard row.arm row.bindings { m with rows := rows }
      else .leaf row.arm row.bindings
    | some i =>
      match m.activeIn? i with
      | some pattern => .goOn (m.expandActive i pattern)
      | none => m.decideColumn r i

end Matrix

/-! ## Every step loses weight -/

theorem Cell.weightList_splice (l m : List Cell) (i : Nat) :
    weightList (splice l i m) + ((l[i]?).map weight).getD 0 = weightList l + weightList m := by
  induction l generalizing i with
  | nil => simp [splice, weightList]
  | cons c cs ih =>
    cases i with
    | zero => simp [splice, weightList, weightList_append]; omega
    | succ i =>
      have := ih i
      simp only [splice, List.take_succ_cons, List.drop_succ_cons, List.cons_append, weightList,
        List.getElem?_cons_succ] at this ⊢
      omega

theorem Cell.weightList_replicate (n : Nat) : weightList (List.replicate n (wild none)) = 0 := by
  induction n with
  | zero => rfl
  | succ n ih => simp [List.replicate_succ, weightList, weight, ih]

theorem Cell.weightList_applied (pattern : String) (c : Cell) :
    weightList (c.applied pattern) ≤ c.weight := by
  cases c with
  | active p case args =>
    by_cases h : p = pattern <;> simp [applied, h, weightList, weight]
  | wild name => simp [applied, weightList, weight]
  | test d args => simp [applied, weightList, weight]

theorem Cell.weightList_applied_lt (pattern case : String) (args : List Cell) :
    weightList ((active pattern case args).applied pattern) <
      (active pattern case args).weight := by
  simp [applied, weightList, weight]

namespace MatchRow

theorem weightList_forgetNames (cells : List Cell) (columns : List Column) :
    Cell.weightList (forgetNames cells columns) = Cell.weightList cells := by
  induction cells generalizing columns with
  | nil => cases columns <;> rfl
  | cons c cs ih =>
    cases columns with
    | nil => cases c <;> rfl
    | cons d ds => cases c <;> simp [forgetNames, Cell.weightList, Cell.weight, ih]

theorem weight_bindNames (columns : List Column) (r : MatchRow) :
    (r.bindNames columns).weight = r.weight := by
  simp [bindNames, weight, weightList_forgetNames]

theorem weight_expandActive (i : Nat) (pattern : String) (r : MatchRow) :
    (r.expandActive i pattern).weight ≤ r.weight := by
  unfold expandActive
  split
  · exact Nat.le_refl _
  · rename_i c hc
    have h := Cell.weightList_splice r.cells (c.applied pattern) i
    have := Cell.weightList_applied pattern c
    simp only [hc, Option.map_some, Option.getD_some] at h
    simp only [weight]
    omega

theorem weight_expandActive_lt {i : Nat} {pattern case : String} {args : List Cell} {r : MatchRow}
    (hc : r.cells[i]? = some (.active pattern case args)) :
    (r.expandActive i pattern).weight < r.weight := by
  have h := Cell.weightList_splice r.cells ((Cell.active pattern case args).applied pattern) i
  have := Cell.weightList_applied_lt pattern case args
  simp only [hc, Option.map_some, Option.getD_some] at h
  simp only [expandActive, hc, weight]
  omega

theorem weight_specialize {i n : Nat} {c : Constructor} {r s : MatchRow}
    (h : r.specialize i c n = some s) : s.weight ≤ r.weight := by
  unfold specialize at h
  split at h
  · rename_i d args hc
    split at h
    · cases h
      have := Cell.weightList_splice r.cells args i
      simp only [hc, Option.map_some, Option.getD_some, Cell.weight] at this
      simp only [weight]
      omega
    · cases h
  · rename_i hc
    cases h
    have := Cell.weightList_splice r.cells (List.replicate n (.wild none)) i
    simp only [hc, Option.map_some, Option.getD_some, Cell.weight,
      Cell.weightList_replicate] at this
    simp only [weight]
    omega
  · cases h

theorem weight_specialize_lt {i n : Nat} {c d : Constructor} {args : List Cell} {r s : MatchRow}
    (hc : r.cells[i]? = some (.test d args)) (h : r.specialize i c n = some s) :
    s.weight < r.weight := by
  simp only [specialize, hc] at h
  split at h
  · cases h
    have := Cell.weightList_splice r.cells args i
    simp only [hc, Option.map_some, Option.getD_some, Cell.weight] at this
    simp only [weight]
    omega
  · cases h

theorem weight_fallback {i : Nat} {r s : MatchRow} (h : r.fallback i = some s) :
    s.weight ≤ r.weight := by
  unfold fallback at h
  split at h
  · rename_i hc
    cases h
    have := Cell.weightList_splice r.cells [] i
    simp only [hc, Option.map_some, Option.getD_some, Cell.weight, Cell.weightList] at this
    simp only [weight]
    omega
  · cases h

theorem weight_pos (r : MatchRow) : 0 < r.weight := by
  simp only [weight]
  omega

end MatchRow

/-- Rows that lose no weight one by one lose none together. -/
theorem weightList_filterMap_le (f : MatchRow → Option MatchRow)
    (h : ∀ r s, f r = some s → s.weight ≤ r.weight) (rows : List MatchRow) :
    MatchRow.weightList (rows.filterMap f) ≤ MatchRow.weightList rows := by
  induction rows with
  | nil => simp
  | cons r rs ih =>
    cases hf : f r with
    | none => simp only [List.filterMap_cons, hf, MatchRow.weightList]; omega
    | some s =>
      have := h r s hf
      simp only [List.filterMap_cons, hf, MatchRow.weightList]
      omega

/-- If moreover the first row loses weight or is dropped, they lose weight together. -/
theorem weightList_filterMap_lt (f : MatchRow → Option MatchRow)
    (h : ∀ r s, f r = some s → s.weight ≤ r.weight) (r : MatchRow) (rs : List MatchRow)
    (hr : ∀ s, f r = some s → s.weight < r.weight) :
    MatchRow.weightList ((r :: rs).filterMap f) < MatchRow.weightList (r :: rs) := by
  have := weightList_filterMap_le f h rs
  have := r.weight_pos
  cases hf : f r with
  | none => simp only [List.filterMap_cons, hf, MatchRow.weightList]; omega
  | some s =>
    have := hr s hf
    simp only [List.filterMap_cons, hf, MatchRow.weightList]
    omega

namespace Matrix

theorem weight_bindNames (m : Matrix) : m.bindNames.weight = m.weight := by
  simp only [weight, bindNames]
  induction m.rows with
  | nil => rfl
  | cons r rs ih => simp only [List.map_cons, MatchRow.weightList, MatchRow.weight_bindNames, ih]

theorem weight_expandActive_lt {m : Matrix} {i : Nat} {pattern : String}
    (h : m.activeIn? i = some pattern) : (m.expandActive i pattern).weight < m.weight := by
  obtain ⟨columns, rows⟩ := m
  simp only [activeIn?] at h
  simp only [weight, expandActive]
  induction rows with
  | nil => simp at h
  | cons r rs ih =>
    have hle : ∀ rs : List MatchRow,
        MatchRow.weightList (rs.map (MatchRow.expandActive i pattern)) ≤
          MatchRow.weightList rs := by
      intro rs
      induction rs with
      | nil => simp
      | cons r rs ih =>
        have := r.weight_expandActive i pattern
        simp only [List.map_cons, MatchRow.weightList]
        omega
    rw [List.findSome?_cons] at h
    simp only [List.map_cons, MatchRow.weightList]
    split at h
    · rename_i q hq
      split at hq
      · rename_i case args hc
        cases hq
        cases h
        have := MatchRow.weight_expandActive_lt hc
        have := hle rs
        omega
      · cases hq
    · have := ih h
      have := r.weight_expandActive i pattern
      omega

theorem weight_specialize_lt {m : Matrix} {r : MatchRow} {rs : List MatchRow} {i : Nat}
    {d : Constructor} {args : List Cell} (hm : m.rows = r :: rs)
    (hc : r.cells[i]? = some (.test d args)) (c : Constructor) (fields : List Ty) :
    (m.specialize i c fields).weight < m.weight := by
  simp only [weight, specialize, hm]
  exact weightList_filterMap_lt _ (fun _ _ h => MatchRow.weight_specialize h) _ _
    (fun _ h => MatchRow.weight_specialize_lt hc h)

theorem weight_fallback_lt {m : Matrix} {r : MatchRow} {rs : List MatchRow} {i : Nat}
    {d : Constructor} {args : List Cell} (hm : m.rows = r :: rs)
    (hc : r.cells[i]? = some (.test d args)) : (m.fallback i).weight < m.weight := by
  simp only [weight, fallback, hm]
  refine weightList_filterMap_lt _ (fun _ _ h => MatchRow.weight_fallback h) _ _ (fun s h => ?_)
  simp [MatchRow.fallback, hc] at h

/-- A row whose column holds no active pattern tests a constructor there, if it tests anything. -/
theorem test_of_activeIn?_eq_none {m : Matrix} {r : MatchRow} {rs : List MatchRow} {i : Nat}
    {c : Cell} (hm : m.rows = r :: rs) (hc : r.cells[i]? = some c) (hw : c.isWild = false)
    (ha : m.activeIn? i = none) : ∃ d args, c = .test d args := by
  cases c with
  | wild name => simp [Cell.isWild] at hw
  | test d args => exact ⟨d, args, rfl⟩
  | active p case args => simp [activeIn?, hm, hc] at ha

theorem weight_of_mem_decideColumn {r : Registries} {m n : Matrix} {row : MatchRow}
    {rows : List MatchRow} {i : Nat} {d : Constructor} {args : List Cell}
    (hm : m.rows = row :: rows) (hc : row.cells[i]? = some (.test d args))
    (h : n ∈ (m.decideColumn r i).rest) : n.weight < m.weight := by
  have hw : ∀ c, (m.within r i c).weight < m.weight := fun c => weight_specialize_lt hm hc c _
  unfold decideColumn at h
  split at h
  · simp only [MatchStep.rest, List.mem_singleton] at h
    exact h ▸ hw _
  · simp only [MatchStep.rest, List.map_map, List.mem_append, List.mem_map, Function.comp_apply,
      Option.mem_toList] at h
    rcases h with ⟨c, -, rfl⟩ | h
    · exact hw c
    · split at h
      · cases h
      · cases h
        exact weight_fallback_lt hm hc

/-- Every matrix that a step leaves to compile weighs less. -/
theorem weight_of_mem_step {r : Registries} {m n : Matrix} (h : n ∈ (m.step r).rest) :
    n.weight < m.weight := by
  unfold step at h
  split at h
  · simp [MatchStep.rest] at h
  · rename_i row rows hm
    split at h
    · split at h
      · simp only [MatchStep.rest, List.mem_singleton] at h
        have := row.weight_pos
        simp only [h, weight, hm, MatchRow.weightList]
        omega
      · simp [MatchStep.rest] at h
    · rename_i i hi
      split at h
      · rename_i pattern hp
        simp only [MatchStep.rest, List.mem_singleton] at h
        exact h ▸ weight_expandActive_lt hp
      · rename_i ha
        obtain ⟨hlt, hwild, -⟩ := List.findIdx?_eq_some_iff_getElem.1 hi
        have hc : row.cells[i]? = some row.cells[i] := List.getElem?_eq_getElem hlt
        obtain ⟨d, args, e⟩ := test_of_activeIn?_eq_none hm hc (by simpa using hwild) ha
        exact weight_of_mem_decideColumn hm (hc.trans (congrArg some e)) h

/-- The decision tree of a matrix. -/
def compile (r : Registries) (m : Matrix) : DecisionTree :=
  match _h : m.bindNames.step r with
  | .fail => .fail
  | .leaf arm bindings => .leaf arm bindings
  | .guard arm bindings rest => .guard arm bindings (compile r rest)
  | .goOn rest => compile r rest
  | .switch occurrence cases fallback =>
    .switch occurrence (cases.attach.map (fun c => (c.1.1, compile r c.1.2)))
      (fallback.attach.map (fun n => compile r n.1))
termination_by m.weight
decreasing_by
  all_goals
    rw [← m.weight_bindNames]
    apply weight_of_mem_step (r := r)
    rw [_h]
  · simp [MatchStep.rest]
  · simp [MatchStep.rest]
  · exact List.mem_append_left _ (List.mem_map_of_mem c.2)
  · exact List.mem_append_right _ (Option.mem_toList.2 n.2)

/-- The matrix of a match: one column for the scrutinee, and a row for each arm. -/
def ofArms (scrutinee : Ty) (arms : List (TPattern × Bool)) : Matrix where
  columns := [⟨.root, scrutinee⟩]
  rows := arms.zipIdx.map (fun a => ⟨[.ofPattern a.1.1], a.2, a.1.2, []⟩)

end Matrix

end RowCheck
