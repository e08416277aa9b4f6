import Mathlib.Data.Multiset.Basic
import RowCheck.Proofs.Match.Builds
import RowCheck.Proofs.Match.Columns

/-!
The rows of a matrix that accept the subjects of its columns, as the arms they stand for and what
they bind. Every way in which a matrix is taken apart keeps them: applying an active pattern
beforehand, looking into the fields of a constructor, and dropping a column whose constructor no
row tests for.
-/
namespace RowCheck

/-- What is left of a row once it is known to accept: its arm, whether that has a guard, and what it
binds in the end. The order of the bindings is not kept. -/
structure Clause where
  arm : Nat
  guarded : Bool
  bindings : Multiset (String × Occurrence)

namespace MatchRow

def accepts (ss : List Subject) (row : MatchRow) : Bool := Cell.acceptsAll ss row.cells

/-- The clause of a row, with the names still in its cells. -/
def clause (columns : List Column) (row : MatchRow) : Clause :=
  ⟨row.arm, row.guarded, row.bindings ++ Cell.placesAll columns row.cells⟩

/-- Whether the cells of a row are well-formed for the columns. -/
def Fits (r : Registries) (columns : List Column) (row : MatchRow) : Prop :=
  List.Forall₂ (fun c column => Cell.Fits r c (Column.ty column)) row.cells columns

theorem Fits.length_eq {r : Registries} {columns : List Column} {row : MatchRow}
    (h : row.Fits r columns) : row.cells.length = columns.length :=
  List.Forall₂.length_eq h

end MatchRow

namespace Matrix

/-- The clauses of the rows that accept the subjects, in order. -/
def accepting (m : Matrix) (ss : List Subject) : List Clause :=
  (m.rows.filter (MatchRow.accepts ss)).map (MatchRow.clause m.columns)

/-- Whether every row is well-formed for the columns. -/
def Fits (r : Registries) (m : Matrix) : Prop := ∀ row ∈ m.rows, row.Fits r m.columns

/-- Whether no name is left in the cells. -/
def Nameless (m : Matrix) : Prop := ∀ row ∈ m.rows, ∀ name, .wild (some name) ∉ row.cells

end Matrix

/-- Rows may be replaced by others that accept as they do and have their clauses, and those that do
not accept may be dropped. -/
theorem clauses_filterMap {ss ss' : List Subject} {columns columns' : List Column}
    {rows : List MatchRow} (f : MatchRow → Option MatchRow)
    (hnone : ∀ row ∈ rows, f row = none → row.accepts ss = false)
    (hsome : ∀ row ∈ rows, ∀ row', f row = some row' →
      row'.accepts ss' = row.accepts ss ∧ row'.clause columns' = row.clause columns) :
    ((rows.filterMap f).filter (MatchRow.accepts ss')).map (MatchRow.clause columns') =
      (rows.filter (MatchRow.accepts ss)).map (MatchRow.clause columns) := by
  induction rows with
  | nil => rfl
  | cons row rows ih =>
    have ih := ih (fun q hq => hnone q (List.mem_cons_of_mem _ hq))
      (fun q hq => hsome q (List.mem_cons_of_mem _ hq))
    cases hf : f row with
    | none =>
      have ha := hnone row List.mem_cons_self hf
      simpa [List.filterMap_cons, hf, ha] using ih
    | some row' =>
      obtain ⟨ha, hc⟩ := hsome row List.mem_cons_self row' hf
      rw [List.filterMap_cons, hf]
      simp only [List.filter_cons, ha]
      split
      · simp only [List.map_cons, hc, ih]
      · exact ih

theorem clauses_map {ss ss' : List Subject} {columns columns' : List Column}
    {rows : List MatchRow} (f : MatchRow → MatchRow)
    (h : ∀ row ∈ rows, (f row).accepts ss' = row.accepts ss ∧
      (f row).clause columns' = row.clause columns) :
    ((rows.map f).filter (MatchRow.accepts ss')).map (MatchRow.clause columns') =
      (rows.filter (MatchRow.accepts ss)).map (MatchRow.clause columns) := by
  have hmap : rows.map f = rows.filterMap (fun row => some (f row)) := by simp
  rw [hmap]
  refine clauses_filterMap (fun row => some (f row)) (fun _ _ e => by cases e)
    fun row hrow row' e => ?_
  cases e
  exact h row hrow

/-! ## Names -/

namespace MatchRow

/-- Names are bound or still in the cells. -/
theorem places_bindNames (columns : List Column) (cells : List Cell) :
    (namesIn cells columns ++ Cell.placesAll columns (forgetNames cells columns)).Perm
      (Cell.placesAll columns cells) := by
  induction cells generalizing columns with
  | nil => cases columns <;> simp [namesIn, forgetNames, Cell.placesAll]
  | cons c cells ih =>
    cases columns with
    | nil =>
      rcases c with ⟨_ | name⟩ | ⟨d, args⟩ | ⟨p, case, args⟩ <;> simp [namesIn, Cell.placesAll]
    | cons column columns =>
      have ih := ih columns
      rcases c with ⟨_ | name⟩ | ⟨d, args⟩ | ⟨p, case, args⟩
      · simpa [namesIn, forgetNames, Cell.placesAll, Cell.places] using ih
      · simpa [namesIn, forgetNames, Cell.placesAll, Cell.places] using ih
      · simp only [namesIn, forgetNames, Cell.placesAll]
        exact List.perm_append_comm_assoc _ _ _ |>.trans (ih.append_left _)
      · simp only [namesIn, forgetNames, Cell.placesAll]
        exact List.perm_append_comm_assoc _ _ _ |>.trans (ih.append_left _)

theorem accepts_forgetNames (ss : List Subject) (cells : List Cell) (columns : List Column) :
    Cell.acceptsAll ss (forgetNames cells columns) = Cell.acceptsAll ss cells := by
  induction cells generalizing columns ss with
  | nil => cases columns <;> rfl
  | cons c cells ih =>
    cases columns with
    | nil => rcases c with ⟨_ | name⟩ | ⟨d, args⟩ | ⟨p, case, args⟩ <;> rfl
    | cons column columns =>
      cases ss with
      | nil =>
        rcases c with ⟨_ | name⟩ | ⟨d, args⟩ | ⟨p, case, args⟩ <;>
          simp [forgetNames, Cell.acceptsAll]
      | cons s ss =>
        rcases c with ⟨_ | name⟩ | ⟨d, args⟩ | ⟨p, case, args⟩ <;>
          simp [forgetNames, Cell.acceptsAll, Cell.accepts, ih]

theorem exists_column_of_mem_namesIn {cells : List Cell} {columns : List Column}
    {b : String × Occurrence} (h : b ∈ namesIn cells columns) :
    ∃ k ∈ columns, k.occurrence = b.2 := by
  induction cells generalizing columns with
  | nil => cases columns <;> cases h
  | cons c cells ih =>
    cases columns with
    | nil => rcases c with ⟨_ | name⟩ | ⟨d, args⟩ | ⟨p, case, args⟩ <;> cases h
    | cons column columns =>
      have hrest : b ∈ namesIn cells columns → ∃ k ∈ column :: columns, k.occurrence = b.2 := by
        intro hb
        obtain ⟨k, hk, ho⟩ := ih hb
        exact ⟨k, List.mem_cons_of_mem _ hk, ho⟩
      rcases c with ⟨_ | name⟩ | ⟨d, args⟩ | ⟨p, case, args⟩
      · exact hrest h
      · rcases List.mem_cons.1 h with rfl | h
        · exact ⟨column, List.mem_cons_self, rfl⟩
        · exact hrest h
      · exact hrest h
      · exact hrest h

theorem nameless_forgetNames {cells : List Cell} {columns : List Column}
    (h : cells.length = columns.length) (name : String) :
    Cell.wild (some name) ∉ forgetNames cells columns := by
  induction cells generalizing columns with
  | nil => cases columns <;> simp [forgetNames]
  | cons c cells ih =>
    cases columns with
    | nil => simp at h
    | cons column columns =>
      have ih : Cell.wild (some name) ∉ forgetNames cells columns := ih (by simpa using h)
      rcases c with ⟨_ | name⟩ | ⟨d, args⟩ | ⟨p, case, args⟩ <;> simpa [forgetNames] using ih

end MatchRow

namespace Matrix

theorem accepting_bindNames (m : Matrix) (ss : List Subject) :
    m.bindNames.accepting ss = m.accepting ss := by
  refine clauses_map _ (fun row _ => ⟨?_, ?_⟩)
  · exact MatchRow.accepts_forgetNames ss row.cells m.columns
  · simp only [MatchRow.clause, MatchRow.bindNames, Matrix.bindNames, Clause.mk.injEq, true_and,
      Multiset.coe_eq_coe, List.append_assoc]
    exact (MatchRow.places_bindNames m.columns row.cells).append_left _

theorem Fits.each {r : Registries} {m : Matrix} (h : m.Fits r) :
    m.Each (fun c column => c.Fits r column.ty) := h

theorem Fits.bindNames {r : Registries} {m : Matrix} (h : m.Fits r) : m.bindNames.Fits r :=
  h.each.bindNames fun _ k _ => .wild none k.ty

theorem Fits.nameless_bindNames {r : Registries} {m : Matrix} (h : m.Fits r) :
    m.bindNames.Nameless := by
  intro row hrow name
  obtain ⟨q, hq, rfl⟩ := List.mem_map.1 hrow
  exact MatchRow.nameless_forgetNames (h q hq).length_eq name

/-! ## Applying an active pattern -/

section

variable {r : Registries} {m : Matrix} {ss : List Subject} {s : Subject} {i : Nat}
  {column : Column}

theorem Nameless.eq_none (hn : m.Nameless) {row : MatchRow} (hrow : row ∈ m.rows)
    {name : Option String} (hc : row.cells[i]? = some (.wild name)) : name = none := by
  cases name with
  | none => rfl
  | some name => exact absurd (List.mem_of_getElem? hc) (hn row hrow name)

/-- The first row may be left out. -/
theorem Fits.tail (hm : m.Fits r) {row : MatchRow} {rows : List MatchRow}
    (h : m.rows = row :: rows) : ({ m with rows } : Matrix).Fits r :=
  hm.each.tail h

/-- The column of a cell of a row. -/
theorem Fits.exists_column (hm : m.Fits r) {row : MatchRow} (hrow : row ∈ m.rows)
    (hi : i < row.cells.length) : ∃ column, m.columns[i]? = some column :=
  hm.each.exists_column hrow hi

/-- The cell of a row in a column. -/
theorem Fits.cell (hm : m.Fits r) (hk : m.columns[i]? = some column) {row : MatchRow}
    (hrow : row ∈ m.rows) : ∃ c, row.cells[i]? = some c ∧ c.Fits r column.ty :=
  hm.each.cell hk hrow

theorem Fits.expandActive (hm : m.Fits r) (hk : m.columns[i]? = some column) (pattern : String) :
    (m.expandActive i pattern).Fits r := by
  refine hm.each.expandActive hk (fun _ _ _ => id) fun c hfit => ?_
  cases c with
  | wild name => exact .cons (.wild _ _) (.cons (.wild _ _) .nil)
  | test d args => exact .cons hfit (.cons (.wild _ _) .nil)
  | active p case args =>
    by_cases h : p = pattern
    · subst h
      cases hfit with
      | active _ _ hb hs =>
        simpa [Cell.applied] using ⟨Cell.Fits.wild none column.ty, Cell.Fits.test hb hs⟩
    · simpa [Cell.applied, h] using ⟨hfit, Cell.Fits.wild none (.named pattern [])⟩

/-- Applying an active pattern beforehand leaves the names of a row where they are. -/
theorem placesAll_expandActive (hm : m.Fits r) (hn : m.Nameless)
    (hk : m.columns[i]? = some column) (pattern : String) {row : MatchRow} (hrow : row ∈ m.rows) :
    Cell.placesAll (m.expandActive i pattern).columns (row.expandActive i pattern).cells =
      Cell.placesAll m.columns row.cells := by
  obtain ⟨c, hc, -⟩ := hm.cell hk hrow
  have hname : ∀ name, c ≠ .wild (some name) := fun name e =>
    hn row hrow name (e ▸ List.mem_of_getElem? hc)
  simp only [MatchRow.expandActive, hc, Matrix.expandActive, columnAt_eq hk]
  rw [Cell.placesAll_splice hk hc (by simp [Cell.length_applied])
    (Cell.placesAll_applied column _ pattern hname)]

theorem accepting_expandActive (hm : m.Fits r) (hn : m.Nameless)
    (hk : m.columns[i]? = some column) (hs : ss[i]? = some s) {pattern : String} {u : Subject}
    (hu : s.SameBut pattern u) :
    (m.expandActive i pattern).accepting (splice ss i [u, s.applied pattern]) =
      m.accepting ss := by
  refine clauses_map _ (fun row hrow => ?_)
  have hplaces := placesAll_expandActive hm hn hk pattern hrow
  obtain ⟨c, hc, -⟩ := hm.cell hk hrow
  simp only [MatchRow.expandActive, hc] at hplaces
  constructor
  · simp only [MatchRow.accepts, MatchRow.expandActive, hc]
    exact Cell.acceptsAll_splice hs hc (by simp [Cell.length_applied]) (Cell.acceptsAll_applied hu c)
  · simp only [MatchRow.clause, MatchRow.expandActive, hc, hplaces]

/-! ## The fields of a constructor -/

theorem mem_foldl_heads {c : Constructor} (rows : List MatchRow) (seen : List Constructor) :
    c ∈ rows.foldl (fun seen (row : MatchRow) =>
      match row.cells[i]? with
      | some (.test c _) => if c ∈ seen then seen else seen ++ [c]
      | _ => seen) seen ↔
      c ∈ seen ∨ ∃ row ∈ rows, ∃ args, row.cells[i]? = some (.test c args) := by
  induction rows generalizing seen with
  | nil => simp
  | cons row rows ih =>
    rw [List.foldl_cons, ih]
    split
    · rename_i d args hd
      by_cases hs : d ∈ seen <;> simp [hs, hd] <;> grind
    · rename_i hd
      have hnone : ∀ args, row.cells[i]? ≠ some (.test c args) := fun args e => hd c args e
      simp [hnone]

theorem mem_heads {c : Constructor} :
    c ∈ m.heads i ↔ ∃ row ∈ m.rows, ∃ args, row.cells[i]? = some (.test c args) := by
  have h := mem_foldl_heads (c := c) (i := i) m.rows []
  rw [List.mem_nil_iff, false_or] at h
  exact h

/-- No row applies an active pattern in a column that has been searched for one in vain. -/
theorem not_active_of_activeIn? (h : m.activeIn? i = none) {row : MatchRow} (hrow : row ∈ m.rows)
    (p case : String) (args : List Cell) : row.cells[i]? ≠ some (.active p case args) := by
  intro e
  have := List.findSome?_eq_none_iff.1 h row hrow
  simp [e] at this

theorem exists_active {pattern : String} (h : m.activeIn? i = some pattern) :
    ∃ row ∈ m.rows, ∃ case args, row.cells[i]? = some (.active pattern case args) := by
  obtain ⟨row, hrow, hp⟩ := List.exists_of_findSome?_eq_some h
  split at hp
  · rename_i p case args hc
    cases hp
    exact ⟨row, hrow, case, args, hc⟩
  · cases hp

/-- An active pattern that is applied in a column is one of the module. -/
theorem Fits.isSome_of_activeIn? (hm : m.Fits r) (hk : m.columns[i]? = some column)
    {pattern : String} (h : m.activeIn? i = some pattern) : (r.active.get? pattern).isSome := by
  obtain ⟨row, hrow, case, args, hcell⟩ := exists_active h
  obtain ⟨c, hc, hfit⟩ := hm.cell hk hrow
  obtain rfl := Option.some.inj (hc.symm.trans hcell)
  cases hfit with
  | active _ ha _ _ => exact ha

/-- A test in a column is for a constructor of the column's type. -/
theorem Fits.builds (hm : m.Fits r) {row : MatchRow} (hrow : row ∈ m.rows) {c : Constructor}
    {args : List Cell} (hc : row.cells[i]? = some (.test c args)) :
    ∃ column, m.columns[i]? = some column ∧ ∃ types, r.Builds column.ty c types := by
  obtain ⟨column, hk⟩ := hm.exists_column hrow (List.getElem?_eq_some_iff.1 hc).1
  obtain ⟨c', hc', hfit⟩ := hm.cell hk hrow
  obtain rfl := Option.some.inj (hc'.symm.trans hc)
  cases hfit with
  | test hb _ => exact ⟨_, hk, _, hb⟩

theorem within_columns (hk : m.columns[i]? = some column) {c : Constructor} {types : List Ty}
    (hb : r.Builds column.ty c types) :
    (m.within r i c).columns = splice m.columns i (fieldColumns column.occurrence types) := by
  simp only [within, specialize, columnAt_eq hk, hb.fieldTypes_eq, fieldColumns]

theorem Fits.within (hm : m.Fits r) (hk : m.columns[i]? = some column) (c : Constructor) :
    (m.within r i c).Fits r := by
  refine hm.each.within hk (fun _ _ _ => id) (fun k _ => .wild none k.ty) fun args hfit => ?_
  cases hfit with
  | test hb hargs => exact hb.fieldTypes_eq ▸ forall₂_fieldColumns hargs _

/-- Looking into the fields of a constructor leaves the names of a row where they are. -/
theorem placesAll_within (hm : m.Fits r) (hn : m.Nameless) (hk : m.columns[i]? = some column)
    {c : Constructor} {row row' : MatchRow} (hrow : row ∈ m.rows)
    (h : row.specialize i c (r.fieldTypes column.ty c).length = some row') :
    Cell.placesAll (m.within r i c).columns row'.cells = Cell.placesAll m.columns row.cells := by
  obtain ⟨cell, hc, hfit⟩ := hm.cell hk hrow
  simp only [MatchRow.specialize, hc] at h
  simp only [Matrix.within, Matrix.specialize, columnAt_eq hk]
  cases cell with
  | wild name =>
    obtain rfl := hn.eq_none hrow hc
    simp only [Option.some.injEq] at h
    subst h
    rw [Cell.placesAll_splice hk hc (by simp)]
    simp [Cell.placesAll_replicate_wild, Cell.places]
  | test d args =>
    simp only [Option.ite_none_right_eq_some, Option.some.injEq] at h
    obtain ⟨rfl, rfl⟩ := h
    cases hfit with
    | test hb hargs =>
      have hargs := hargs.length_eq
      rw [hb.fieldTypes_eq, Cell.placesAll_splice hk hc (by simp [hargs])]
      rw [Cell.placesAll_fields _ _ _ _ hargs.symm, Cell.places]
  | active p case args => cases h

/-- Looking into the fields of the constructor that a value is built with. -/
theorem accepting_within (hm : m.Fits r) (hn : m.Nameless) (ha : m.activeIn? i = none)
    (hk : m.columns[i]? = some column) (hs : ss[i]? = some s) {c : Constructor}
    (hv : s.value.constructor? = some c)
    (hlen : s.fields.length = (r.fieldTypes column.ty c).length) :
    (m.within r i c).accepting (splice ss i s.fields) = m.accepting ss := by
  refine clauses_filterMap _ (fun row hrow h => ?_) (fun row hrow row' h => ?_)
  · obtain ⟨cell, hc, -⟩ := hm.cell hk hrow
    simp only [MatchRow.specialize, hc] at h
    cases cell with
    | wild name => cases h
    | test d args =>
      have hne : d ≠ c := fun e => by simp [e] at h
      refine Cell.acceptsAll_eq_false hs hc ?_
      simp [Cell.accepts, hv, Ne.symm hne]
    | active p case args => exact absurd hc (not_active_of_activeIn? ha hrow p case args)
  · rw [columnAt_eq hk] at h
    have hplaces := placesAll_within hm hn hk hrow h
    obtain ⟨cell, hc, hfit⟩ := hm.cell hk hrow
    simp only [MatchRow.specialize, hc] at h
    cases cell with
    | wild name =>
      simp only [Option.some.injEq] at h
      subst h
      constructor
      · refine Cell.acceptsAll_splice hs hc (by simp [hlen]) ?_
        rw [Cell.acceptsAll_replicate_wild hlen, Cell.accepts]
      · simp only [MatchRow.clause, hplaces]
    | test d args =>
      simp only [Option.ite_none_right_eq_some, Option.some.injEq] at h
      obtain ⟨rfl, rfl⟩ := h
      cases hfit with
      | test hb hargs =>
        constructor
        · rw [hb.fieldTypes_eq] at hlen
          refine Cell.acceptsAll_splice hs hc (hlen.trans hargs.length_eq.symm) ?_
          simp [Cell.accepts, hv]
        · simp only [MatchRow.clause, hplaces]
    | active p case args => cases h

/-! ## Other constructors -/

theorem Fits.fallback (hm : m.Fits r) : (m.fallback i).Fits r :=
  hm.each.fallback fun _ _ _ => id

/-- Dropping a column leaves the names of a row where they are. -/
theorem placesAll_fallback (hm : m.Fits r) (hn : m.Nameless) (hk : m.columns[i]? = some column)
    {row row' : MatchRow} (hrow : row ∈ m.rows) (h : row.fallback i = some row') :
    Cell.placesAll (m.fallback i).columns row'.cells = Cell.placesAll m.columns row.cells := by
  obtain ⟨cell, hc, -⟩ := hm.cell hk hrow
  simp only [MatchRow.fallback, hc] at h
  cases cell with
  | wild name =>
    obtain rfl := hn.eq_none hrow hc
    simp only [Option.some.injEq] at h
    subst h
    exact Cell.placesAll_splice hk hc rfl (by simp [Cell.placesAll, Cell.places])
  | test d args => cases h
  | active p case args => cases h

/-- Dropping a column whose value is built with none of the constructors tested there. -/
theorem accepting_fallback (hm : m.Fits r) (hn : m.Nameless) (ha : m.activeIn? i = none)
    (hk : m.columns[i]? = some column) (hs : ss[i]? = some s)
    (hv : ∀ c ∈ m.heads i, s.value.constructor? ≠ some c) :
    (m.fallback i).accepting (splice ss i []) = m.accepting ss := by
  refine clauses_filterMap _ (fun row hrow h => ?_) (fun row hrow row' h => ?_)
  · obtain ⟨cell, hc, -⟩ := hm.cell hk hrow
    simp only [MatchRow.fallback, hc] at h
    cases cell with
    | wild name => cases h
    | test d args =>
      refine Cell.acceptsAll_eq_false hs hc ?_
      simp [Cell.accepts, hv d (mem_heads.2 ⟨row, hrow, args, hc⟩)]
    | active p case args => exact absurd hc (not_active_of_activeIn? ha hrow p case args)
  · have hplaces := placesAll_fallback hm hn hk hrow h
    obtain ⟨cell, hc, -⟩ := hm.cell hk hrow
    simp only [MatchRow.fallback, hc] at h
    cases cell with
    | wild name =>
      simp only [Option.some.injEq] at h
      subst h
      constructor
      · exact Cell.acceptsAll_splice hs hc rfl rfl
      · simp only [MatchRow.clause, hplaces]
    | test d args => cases h
    | active p case args => cases h

end

end Matrix

end RowCheck
