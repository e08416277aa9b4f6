import RowCheck.Match.Compile
import RowCheck.Proofs.Match.Cells

/-!
Cells against the columns that they stand in. Each way in which a matrix is taken apart replaces one
column, so what holds of every cell and its column is kept if it holds of the cells that are put in, and
if the others may stand beside the new columns.
-/
namespace RowCheck

/-- The columns for the fields of a value. -/
def fieldColumns (o : Occurrence) (types : List Ty) : List Column :=
  types.zipIdx.map (fun f => ⟨.field o f.2, f.1⟩)

@[simp] theorem length_fieldColumns (o : Occurrence) (types : List Ty) :
    (fieldColumns o types).length = types.length := by
  simp [fieldColumns]

theorem mem_fieldColumns {o : Occurrence} {types : List Ty} {k : Column} :
    k ∈ fieldColumns o types ↔ ∃ j : Nat, types[j]? = some k.ty ∧ k.occurrence = .field o j := by
  simp only [fieldColumns, List.mem_map, Prod.exists, List.mk_mem_zipIdx_iff_getElem?]
  constructor
  · rintro ⟨t, j, hj, rfl⟩
    exact ⟨j, hj, rfl⟩
  · rintro ⟨j, hj, ho⟩
    exact ⟨k.ty, j, hj, by rw [← ho]⟩

theorem forall₂_fieldColumns {S : Cell → Ty → Prop} {cells : List Cell} {types : List Ty}
    (h : List.Forall₂ S cells types) (o : Occurrence) :
    List.Forall₂ (fun c k => S c (Column.ty k)) cells (fieldColumns o types) :=
  List.forall₂_iff_get.2 ⟨by simpa using h.length_eq, fun i h₁ h₂ => by
    simpa [fieldColumns] using h.get h₁ (by simpa using h₂)⟩

theorem MatchRow.forall₂_forgetNames {R : Cell → Column → Prop}
    (hR : ∀ name k, R (.wild name) k → R (.wild none) k) {cells : List Cell}
    {columns columns' : List Column} (h : List.Forall₂ R cells columns') :
    List.Forall₂ R (forgetNames cells columns) columns' := by
  induction h generalizing columns with
  | nil => cases columns <;> exact .nil
  | @cons c column' cells columns' hc hs ih =>
    cases columns with
    | nil =>
      rcases c with ⟨_ | name⟩ | ⟨d, args⟩ | ⟨p, case, args⟩ <;> exact .cons hc hs
    | cons column columns =>
      rcases c with ⟨_ | name⟩ | ⟨d, args⟩ | ⟨p, case, args⟩
      · exact .cons hc ih
      · exact .cons (hR _ _ hc) ih
      · exact .cons hc ih
      · exact .cons hc ih

namespace Matrix

/-- Whether every row has a cell for each column, and something holds of the two. -/
def Each (R : Cell → Column → Prop) (m : Matrix) : Prop :=
  ∀ row ∈ m.rows, List.Forall₂ R row.cells m.columns

section

variable {r : Registries} {m : Matrix} {R R' : Cell → Column → Prop} {i : Nat} {column : Column}
  {row : MatchRow}

theorem columnAt_eq (hk : m.columns[i]? = some column) : m.columnAt i = column := by
  simp [columnAt, hk]

theorem expandActive_columns (hk : m.columns[i]? = some column) (pattern : String) :
    (m.expandActive i pattern).columns = splice m.columns i
      [column, ⟨.active column.occurrence pattern, .named pattern []⟩] := by
  simp only [expandActive, columnAt_eq hk]

/-- The column of a cell of a row. -/
theorem Each.exists_column (h : m.Each R) (hrow : row ∈ m.rows) (hi : i < row.cells.length) :
    ∃ column, m.columns[i]? = some column :=
  ⟨_, List.getElem?_eq_getElem ((h row hrow).length_eq ▸ hi)⟩

/-- The cell of a row in a column. -/
theorem Each.cell (h : m.Each R) (hk : m.columns[i]? = some column) (hrow : row ∈ m.rows) :
    ∃ c, row.cells[i]? = some c ∧ R c column := by
  obtain ⟨hi, rfl⟩ := List.getElem?_eq_some_iff.1 hk
  have hi' : i < row.cells.length := (h row hrow).length_eq ▸ hi
  exact ⟨row.cells[i], List.getElem?_eq_getElem hi', (h row hrow).get hi' hi⟩

theorem Each.and (h : m.Each R) (h' : m.Each R') : m.Each (fun c k => R c k ∧ R' c k) :=
  fun row hrow => List.forall₂_iff_get.2 ⟨(h row hrow).length_eq, fun _ h₁ h₂ =>
    ⟨(h row hrow).get h₁ h₂, (h' row hrow).get h₁ h₂⟩⟩

/-- The first row may be left out. -/
theorem Each.tail (h : m.Each R) {rows : List MatchRow} (hm : m.rows = row :: rows) :
    ({ m with rows } : Matrix).Each R :=
  fun q hq => h q (hm ▸ List.mem_cons_of_mem _ hq)

theorem Each.bindNames (h : m.Each R) (hR : ∀ name k, R (.wild name) k → R (.wild none) k) :
    m.bindNames.Each R := by
  intro row hrow
  obtain ⟨q, hq, rfl⟩ := List.mem_map.1 hrow
  exact MatchRow.forall₂_forgetNames hR (h q hq)

theorem Each.expandActive (h : m.Each R) (hk : m.columns[i]? = some column) {pattern : String}
    (hR : ∀ k ∈ splice m.columns i [], ∀ c, R c k → R' c k)
    (hnew : ∀ c, R c column → List.Forall₂ R' (c.applied pattern)
      [column, ⟨.active column.occurrence pattern, .named pattern []⟩]) :
    (m.expandActive i pattern).Each R' := by
  intro row hrow
  obtain ⟨q, hq, rfl⟩ := List.mem_map.1 hrow
  obtain ⟨c, hc, hcell⟩ := h.cell hk hq
  rw [expandActive_columns hk]
  simp only [MatchRow.expandActive, hc]
  exact forall₂_splice_of_imp i (h q hq) hR (hnew c hcell)

theorem Each.within (h : m.Each R) (hk : m.columns[i]? = some column) {c : Constructor}
    (hR : ∀ k ∈ splice m.columns i [], ∀ c, R c k → R' c k)
    (hwild : ∀ k ∈ fieldColumns column.occurrence (r.fieldTypes column.ty c), R' (.wild none) k)
    (htest : ∀ args, R (.test c args) column →
      List.Forall₂ R' args (fieldColumns column.occurrence (r.fieldTypes column.ty c))) :
    (m.within r i c).Each R' := by
  intro row hrow
  obtain ⟨q, hq, hs⟩ := List.mem_filterMap.1 hrow
  obtain ⟨cell, hc, hcell⟩ := h.cell hk hq
  simp only [MatchRow.specialize, hc, columnAt_eq hk] at hs
  simp only [Matrix.within, Matrix.specialize, columnAt_eq hk]
  cases cell with
  | wild name =>
    cases hs
    refine forall₂_splice_of_imp i (h q hq) hR (forall₂_of_length_eq (by simp) ?_)
    intro a ha k hmem
    exact List.eq_of_mem_replicate ha ▸ hwild k hmem
  | test d args =>
    simp only [Option.ite_none_right_eq_some, Option.some.injEq] at hs
    obtain ⟨rfl, rfl⟩ := hs
    exact forall₂_splice_of_imp i (h q hq) hR (htest args hcell)
  | active p case args => cases hs

theorem Each.fallback (h : m.Each R) (hR : ∀ k ∈ splice m.columns i [], ∀ c, R c k → R' c k) :
    (m.fallback i).Each R' := by
  intro row hrow
  obtain ⟨q, hq, hs⟩ := List.mem_filterMap.1 hrow
  unfold MatchRow.fallback at hs
  split at hs <;> cases hs
  exact forall₂_splice_of_imp i (h q hq) hR .nil

end

end Matrix

end RowCheck
