import RowCheck.Proofs.Match.Accepting

/-!
What one step of compiling a matrix can do, said once: the two facts about compiled trees that
follow from it are that they select the first arm, and that every way through them is taken.
-/
namespace RowCheck
namespace Matrix

/-- The steps on a matrix without names in its cells. A step that looks into a column names the row
that asks for it, and no active pattern is left in that column. -/
inductive Steps (r : Registries) (m : Matrix) : MatchStep → Prop
  | fail : m.rows = [] → Steps r m .fail
  | leaf {row : MatchRow} {rows : List MatchRow} : m.rows = row :: rows →
      (∀ c ∈ row.cells, c.isWild = true) → row.guarded = false →
      Steps r m (.leaf row.arm row.bindings)
  | guard {row : MatchRow} {rows : List MatchRow} : m.rows = row :: rows →
      (∀ c ∈ row.cells, c.isWild = true) → row.guarded = true →
      Steps r m (.guard row.arm row.bindings { m with rows })
  | active {row : MatchRow} {i : Nat} {pattern : String} : row ∈ m.rows → i < row.cells.length →
      m.activeIn? i = some pattern → Steps r m (.goOn (m.expandActive i pattern))
  | tuple {row : MatchRow} {i n : Nat} {args : List Cell} : row ∈ m.rows →
      row.cells[i]? = some (.test (.tuple n) args) → m.activeIn? i = none →
      m.heads i = [.tuple n] → Steps r m (.goOn (m.within r i (.tuple n)))
  | switch {row : MatchRow} {i : Nat} {d : Constructor} {args : List Cell}
      {listed : List Constructor} {complete : Bool} : row ∈ m.rows →
      row.cells[i]? = some (.test d args) → m.activeIn? i = none →
      switchCases r (m.columnAt i).ty (m.heads i) = (listed, complete) →
      Steps r m (.switch (m.columnAt i).occurrence (listed.map (fun c => (c, m.within r i c)))
        (if complete then none else some (m.fallback i)))

theorem steps (r : Registries) (m : Matrix) : m.Steps r (m.step r) := by
  unfold step
  split
  · exact .fail ‹_›
  · rename_i row rows hm
    have hrow : row ∈ m.rows := hm ▸ List.mem_cons_self
    split
    · rename_i hw
      have hw : ∀ c ∈ row.cells, c.isWild = true := by
        simpa using List.findIdx?_eq_none_iff.1 hw
      split
      · exact .guard hm hw ‹_›
      · exact .leaf hm hw (by simpa using ‹¬ row.guarded = true›)
    · rename_i i hi
      obtain ⟨hlt, hwild, -⟩ := List.findIdx?_eq_some_iff_getElem.1 hi
      split
      · exact .active hrow hlt ‹_›
      · rename_i ha
        have hc : row.cells[i]? = some row.cells[i] := List.getElem?_eq_getElem hlt
        obtain ⟨d, args, e⟩ := test_of_activeIn?_eq_none hm hc (by simpa using hwild) ha
        rw [e] at hc
        unfold decideColumn
        split
        · rename_i n hh
          have hd : d ∈ m.heads i := mem_heads.2 ⟨row, hrow, args, hc⟩
          obtain rfl : d = .tuple n := by simpa [hh] using hd
          exact .tuple hrow hc ha hh
        · exact .switch hrow hc ha rfl

/-! ## Constructors of a switch -/

section

variable {r : Registries} {t : Ty} {heads listed : List Constructor} {complete : Bool}

/-- A switch lists constructors that are tested. -/
theorem mem_heads_of_listed (h : switchCases r t heads = (listed, complete)) {c : Constructor}
    (hc : c ∈ listed) : c ∈ heads := by
  unfold switchCases at h
  split at h <;> simp only [Prod.mk.injEq] at h <;> obtain ⟨rfl, -⟩ := h
  · simpa using (List.mem_filter.1 hc).2
  · exact hc

/-- A switch lists all that are tested and build values of the type. -/
theorem mem_listed (hr : r.types.Named) (h : switchCases r t heads = (listed, complete))
    {c : Constructor} {types : List Ty} (hb : r.Builds t c types) (hc : c ∈ heads) :
    c ∈ listed := by
  unfold switchCases at h
  split at h
  · rename_i all ha
    simp only [Prod.mk.injEq] at h
    obtain ⟨rfl, -⟩ := h
    exact List.mem_filter.2 ⟨hb.mem_signature hr ha, by simpa using hc⟩
  · simp only [Prod.mk.injEq] at h
    obtain ⟨rfl, -⟩ := h
    exact hc

/-- The constructors that a switch lists build values of the type of the column. -/
theorem Fits.builds_of_listed {m : Matrix} {i : Nat} {column : Column} (hm : m.Fits r)
    (hk : m.columns[i]? = some column) (h : switchCases r t (m.heads i) = (listed, complete))
    {c : Constructor} (hc : c ∈ listed) : ∃ types, r.Builds column.ty c types := by
  obtain ⟨row, hrow, args, hcell⟩ := mem_heads.1 (mem_heads_of_listed h hc)
  obtain ⟨column', hk', hb⟩ := hm.builds hrow hcell
  exact Option.some.inj (hk'.symm.trans hk) ▸ hb

/-- A switch leaves a matrix to compile for each constructor that it lists. -/
theorem within_mem_rest {m : Matrix} {i : Nat} {o : Occurrence} {fallback : Option Matrix}
    {c : Constructor} (hc : c ∈ listed) : m.within r i c ∈
      (MatchStep.switch o (listed.map (fun c => (c, m.within r i c))) fallback).rest :=
  List.mem_append_left _ (by simpa using ⟨c, hc, rfl⟩)

/-- A switch without a fallback lists every constructor of its type. -/
theorem complete_iff (h : switchCases r t heads = (listed, complete)) :
    complete = true ↔ ∃ all, r.signature? t = some all ∧ ∀ c ∈ all, c ∈ listed := by
  unfold switchCases at h
  split at h
  · rename_i all ha
    simp only [Prod.mk.injEq] at h
    obtain ⟨rfl, rfl⟩ := h
    simpa [ha] using forall₂_congr fun c hc => (and_iff_right hc).symm
  · rename_i ha
    simp only [Prod.mk.injEq] at h
    obtain ⟨-, rfl⟩ := h
    simp [ha]

end

/-! ## Compiled trees -/

/-- The tree of a matrix, by its first step. -/
theorem compile_eq (r : Registries) (m : Matrix) :
    m.compile r = match m.bindNames.step r with
      | .fail => .fail
      | .leaf arm bindings => .leaf arm bindings
      | .guard arm bindings rest => .guard arm bindings (rest.compile r)
      | .goOn rest => rest.compile r
      | .switch o cases fallback =>
        .switch o (cases.map (fun c => (c.1, c.2.compile r))) (fallback.map (compile r)) := by
  rw [compile]
  split <;> rename_i h <;> rw [h]
  simp only [Option.map_attach_eq_pmap, Option.pmap_eq_map, List.map_attach_eq_pmap,
    List.pmap_eq_map]

/-- Facts about matrices may be proved from the matrices that a step leaves to compile. -/
theorem compile_induction (r : Registries) {P : Matrix → Prop}
    (h : ∀ m, (∀ n ∈ (m.bindNames.step r).rest, P n) → P m) (m : Matrix) : P m := by
  induction hw : m.weight using Nat.strong_induction_on generalizing m with
  | _ w ih =>
    refine h m (fun n hn => ih n.weight ?_ n rfl)
    rw [← hw, ← m.weight_bindNames]
    exact weight_of_mem_step hn

theorem fits_ofArms {r : Registries} {t : Ty} {arms : List (TPattern × Bool)}
    (h : ∀ a ∈ arms, a.1.Fits r t) : (ofArms t arms).Fits r := by
  intro row hrow
  obtain ⟨⟨a, i⟩, ha, rfl⟩ := List.mem_map.1 hrow
  have ha : a ∈ arms := List.fst_mem_of_mem_zipIdx ha
  exact .cons (Cell.fits_ofPattern a.1 t (h a ha)) .nil

end Matrix

/-! ## Subjects of a type -/

namespace Subject

variable {r : Registries} {s : Subject} {t : Ty} {c d : Constructor} {types : List Ty}

theorem getElem?_fields (s : Subject) (i : Nat) :
    s.fields[i]? = s.value.parts[i]?.map
      (fun v => ⟨v, fun path => s.results (.field i :: path)⟩) := by
  simp [fields]

theorem Fits.applied (h : s.Fits r t) {pattern : String} (hp : (r.active.get? pattern).isSome) :
    (s.applied pattern).Fits r (.named pattern []) :=
  ⟨h.results [] pattern hp, fun path q hq => h.results (.active pattern :: path) q hq⟩

/-- The fields of a subject have the types that compiling assumes for its constructor. -/
theorem Fits.fields (h : s.Fits r t) (ht : r.Builds t d types)
    (hv : s.value.constructor? = some c) :
    List.Forall₂ (fun f u => f.Fits r u) s.fields (r.fieldTypes t c) := by
  obtain ⟨us, hb, hp⟩ := h.value.exists_built ht hv
  rw [hb.fieldTypes_eq]
  refine List.forall₂_iff_get.2 ⟨by simpa [Subject.fields] using hp.length_eq, fun i h₁ h₂ => ?_⟩
  have hi : i < s.value.parts.length := by simpa [Subject.fields] using h₁
  simp only [Subject.fields, List.get_eq_getElem, List.getElem_mapIdx]
  exact ⟨List.Forall₂.get hp hi h₂, fun path q hq => h.results (.field i :: path) q hq⟩

end Subject

/-! ## Arms of compiled trees -/

theorem DecisionTree.mem_armsOfCases {i : Nat} {cases : List (Constructor × DecisionTree)} :
    i ∈ armsOfCases cases ↔ ∃ c ∈ cases, i ∈ c.2.arms := by
  induction cases with
  | nil => simp [armsOfCases]
  | cons c cases ih => simp [armsOfCases, ih]

namespace MatchRow

/-- Taking a row apart changes nothing but its cells. -/
theorem eq_of_specialize {i n : Nat} {c : Constructor} {r s : MatchRow}
    (h : r.specialize i c n = some s) : s = { r with cells := s.cells } := by
  unfold specialize at h
  split at h
  · split at h <;> cases h
    rfl
  · cases h
    rfl
  · cases h

theorem eq_of_fallback {i : Nat} {r s : MatchRow} (h : r.fallback i = some s) :
    s = { r with cells := s.cells } := by
  unfold fallback at h
  split at h <;> cases h
  rfl

theorem expandActive_eq (i : Nat) (pattern : String) (r : MatchRow) :
    r.expandActive i pattern = { r with cells := (r.expandActive i pattern).cells } := by
  unfold expandActive
  split <;> rfl

theorem arm_specialize {i n : Nat} {c : Constructor} {r s : MatchRow}
    (h : r.specialize i c n = some s) : s.arm = r.arm := by rw [eq_of_specialize h]

theorem arm_fallback {i : Nat} {r s : MatchRow} (h : r.fallback i = some s) : s.arm = r.arm := by
  rw [eq_of_fallback h]

theorem arm_expandActive (i : Nat) (pattern : String) (r : MatchRow) :
    (r.expandActive i pattern).arm = r.arm := by rw [expandActive_eq]

theorem bindings_specialize {i n : Nat} {c : Constructor} {r s : MatchRow}
    (h : r.specialize i c n = some s) : s.bindings = r.bindings := by rw [eq_of_specialize h]

theorem bindings_fallback {i : Nat} {r s : MatchRow} (h : r.fallback i = some s) :
    s.bindings = r.bindings := by rw [eq_of_fallback h]

theorem bindings_expandActive (i : Nat) (pattern : String) (r : MatchRow) :
    (r.expandActive i pattern).bindings = r.bindings := by rw [expandActive_eq]

end MatchRow

namespace Matrix

/-- The arms that the rows of a matrix stand for. -/
def arms (m : Matrix) : List Nat := m.rows.map MatchRow.arm

theorem arms_bindNames (m : Matrix) : m.bindNames.arms = m.arms := List.map_map

theorem arms_filterMap {f : MatchRow → Option MatchRow}
    (hf : ∀ row row', f row = some row' → row'.arm = row.arm) (rows : List MatchRow) :
    ((rows.filterMap f).map MatchRow.arm).Sublist (rows.map MatchRow.arm) := by
  induction rows with
  | nil => exact .slnil
  | cons row rows ih =>
    cases hrow : f row with
    | none => simpa [List.filterMap_cons, hrow] using ih.cons row.arm
    | some row' => simpa [List.filterMap_cons, hrow, hf row row' hrow] using ih.cons_cons row.arm

theorem arms_within {r : Registries} {m : Matrix} {i : Nat} {c : Constructor} :
    (m.within r i c).arms.Sublist m.arms :=
  arms_filterMap (fun _ _ => MatchRow.arm_specialize) m.rows

theorem arms_fallback {m : Matrix} {i : Nat} : (m.fallback i).arms.Sublist m.arms :=
  arms_filterMap (fun _ _ => MatchRow.arm_fallback) m.rows

theorem arms_expandActive (m : Matrix) (i : Nat) (pattern : String) :
    (m.expandActive i pattern).arms = m.arms :=
  List.map_map.trans (List.map_congr_left fun row _ => row.arm_expandActive i pattern)

/-- A compiled tree has none but the arms of its matrix. -/
theorem arms_compile (r : Registries) (m : Matrix) : (m.compile r).arms ⊆ m.arms := by
  induction m using compile_induction r with
  | _ m ih =>
    rw [compile_eq, ← m.arms_bindNames]
    have hst := m.bindNames.steps r
    generalize m.bindNames.step r = st at ih hst ⊢
    generalize m.bindNames = n at hst ⊢
    cases hst with
    | fail => simp [DecisionTree.arms]
    | leaf h => simp [DecisionTree.arms, arms, h]
    | @guard row rows h =>
      have hrest := ih _ (List.mem_singleton_self _)
      simp only [DecisionTree.arms, arms, h, List.map_cons]
      exact List.cons_subset_cons _ hrest
    | @active row i pattern =>
      exact n.arms_expandActive i pattern ▸ ih _ (List.mem_singleton_self _)
    | tuple => exact List.Subset.trans (ih _ (List.mem_singleton_self _)) arms_within.subset
    | @switch row i d args listed complete =>
      have hcases : DecisionTree.armsOfCases ((listed.map fun c => (c, n.within r i c)).map
          fun c => (c.1, c.2.compile r)) ⊆ n.arms := by
        intro a ha
        obtain ⟨c, hc, ha⟩ := DecisionTree.mem_armsOfCases.1 ha
        obtain ⟨p, hp, rfl⟩ := List.mem_map.1 hc
        have hpa := ih p.2 (List.mem_append_left _ (List.mem_map_of_mem hp)) ha
        obtain ⟨c, -, rfl⟩ := List.mem_map.1 hp
        exact arms_within.subset hpa
      cases complete with
      | true => exact hcases
      | false =>
        have hfallback := ih _ (List.mem_append_right _ (List.mem_singleton_self _))
        exact List.append_subset.2 ⟨hcases, List.Subset.trans hfallback arms_fallback.subset⟩

theorem lt_of_mem_arms_ofArms {r : Registries} {t : Ty} {arms : List (TPattern × Bool)} {i : Nat}
    (h : i ∈ ((ofArms t arms).compile r).arms) : i < arms.length := by
  obtain ⟨row, hrow, rfl⟩ := List.mem_map.1 (arms_compile r _ h)
  obtain ⟨a, ha, rfl⟩ := List.mem_map.1 hrow
  simpa using List.snd_lt_of_mem_zipIdx ha

end Matrix
end RowCheck
