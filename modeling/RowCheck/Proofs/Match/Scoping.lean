import RowCheck.Proofs.Match.Genuine

/-!
What a name stands for when an arm is selected. A decision tree lists the names of the arm with the
occurrences of their values, and a name that is listed twice stands for the last one. The names come in the
order in which their values are looked into, which need not be that of the source: a name that is bound
deep within one part of a pattern is found after one that another part consists of. Only where nothing
to the right of a part binds a name that is bound deeper in it does the last binding in the source also
come last in the tree.
-/
namespace RowCheck

/-- The occurrence that a name stands for among bindings: the last that it is bound to. -/
def occurrenceOf (x : String) (bindings : Bindings) : Option Occurrence :=
  bindings.reverse.lookup x

section

variable {x : String}

@[simp] theorem occurrenceOf_nil : occurrenceOf x [] = none := rfl

theorem occurrenceOf_append (a b : Bindings) :
    occurrenceOf x (a ++ b) = (occurrenceOf x b).or (occurrenceOf x a) := by
  simp [occurrenceOf, List.lookup_append]

theorem occurrenceOf_cons (e : String × Occurrence) (b : Bindings) :
    occurrenceOf x (e :: b) = (occurrenceOf x b).or (occurrenceOf x [e]) :=
  occurrenceOf_append [e] b

theorem occurrenceOf_eq_none {b : Bindings} : occurrenceOf x b = none ↔ ∀ e ∈ b, e.1 ≠ x := by
  simp only [occurrenceOf, List.lookup_eq_none_iff, List.mem_reverse, bne_iff_ne, ne_comm (a := x)]

end

/-! ## The arms that a tree selects or tries, with what they bind -/

namespace DecisionTree

mutual

/-- The arms that a tree selects or tries, each with what it binds there. -/
def selections : DecisionTree → List (Nat × Bindings)
  | leaf arm bindings => [(arm, bindings)]
  | guard arm bindings otherwise => (arm, bindings) :: otherwise.selections
  | switch _ cases (some fallback) => selectionsOfCases cases ++ fallback.selections
  | switch _ cases none => selectionsOfCases cases
  | fail => []

def selectionsOfCases : List (Constructor × DecisionTree) → List (Nat × Bindings)
  | [] => []
  | (_, t) :: rest => t.selections ++ selectionsOfCases rest

end

theorem mem_selectionsOfCases {e : Nat × Bindings} {cases : List (Constructor × DecisionTree)} :
    e ∈ selectionsOfCases cases ↔ ∃ c ∈ cases, e ∈ c.2.selections := by
  induction cases with
  | nil => simp [selectionsOfCases]
  | cons c cases ih => simp [selectionsOfCases, ih]

end DecisionTree

/-! ## Names in cells -/

namespace Cell

mutual

/-- Whether a cell binds a name. -/
def binds (x : String) : Cell → Bool
  | wild name => decide (name = some x)
  | test _ args => bindsAny x args
  | active _ _ args => bindsAny x args

def bindsAny (x : String) : List Cell → Bool
  | [] => false
  | c :: cs => c.binds x || bindsAny x cs

end

mutual

/-- Whether no part of a cell that binds a name deeper down has another part that binds it to its
right. -/
def ordered (x : String) : Cell → Bool
  | wild _ => true
  | test _ args => orderedAll x args
  | active _ _ args => orderedAll x args

def orderedAll (x : String) : List Cell → Bool
  | [] => true
  | c :: cs => c.ordered x && orderedAll x cs && (c.isWild || !c.binds x || !bindsAny x cs)

end

variable {x : String}

theorem bindsAny_iff {cs : List Cell} : bindsAny x cs = true ↔ ∃ c ∈ cs, c.binds x = true := by
  induction cs with
  | nil => simp [bindsAny]
  | cons c cs ih => simp [bindsAny, ih]

theorem orderedAll_iff {cs : List Cell} : orderedAll x cs = true ↔
    (∀ c ∈ cs, c.ordered x = true) ∧
      cs.Pairwise (fun c d => c.isWild = true ∨ c.binds x = false ∨ d.binds x = false) := by
  induction cs with
  | nil => simp [orderedAll]
  | cons c cs ih =>
    have hany : bindsAny x cs = false ↔ ∀ d ∈ cs, d.binds x = false := by
      simpa using not_congr (@bindsAny_iff x cs)
    simp only [orderedAll, Bool.and_eq_true, ih, Bool.or_eq_true, Bool.not_eq_true', hany,
      List.mem_cons, forall_eq_or_imp, List.pairwise_cons, or_assoc]
    grind

mutual

/-- A cell binds the names that are found in it. -/
theorem binds_iff : (c : Cell) → (o : Occurrence) →
    (c.binds x = true ↔ ∃ e ∈ c.places o, e.1 = x)
  | wild none, o => by simp [binds, places]
  | wild (some name), o => by simp [binds, places]
  | test _ args, o => by simpa [binds, places] using bindsAny_iff_places args o 0
  | active pattern _ args, o => by
    simpa [binds, places] using bindsAny_iff_places args (.active o pattern) 0

theorem bindsAny_iff_places : (cs : List Cell) → (o : Occurrence) → (index : Nat) →
    (bindsAny x cs = true ↔ ∃ e ∈ placesFrom o index cs, e.1 = x)
  | [], _, _ => by simp [bindsAny, placesFrom]
  | c :: cs, o, index => by
    simp only [bindsAny, Bool.or_eq_true, binds_iff c (.field o index),
      bindsAny_iff_places cs o (index + 1), placesFrom, List.mem_append, or_and_right, exists_or]

end

theorem bindsAny_of_placesAll {columns : List Column} {cs : List Cell} {e : String × Occurrence}
    (h : e ∈ placesAll columns cs) : bindsAny e.1 cs = true := by
  induction cs generalizing columns with
  | nil => cases columns <;> cases h
  | cons c cs ih =>
    cases columns with
    | nil => cases h
    | cons column columns =>
      simp only [placesAll, List.mem_append] at h
      simp only [bindsAny, Bool.or_eq_true]
      exact h.imp (fun h => (binds_iff c column.occurrence).2 ⟨e, h, rfl⟩) ih

theorem occurrenceOf_places {c : Cell} {o : Occurrence} (h : c.binds x = false) :
    occurrenceOf x (c.places o) = none :=
  occurrenceOf_eq_none.2 fun e he hx => Bool.eq_false_iff.1 h ((binds_iff c o).2 ⟨e, he, hx⟩)

theorem occurrenceOf_placesAll {columns : List Column} {cs : List Cell}
    (h : bindsAny x cs = false) : occurrenceOf x (placesAll columns cs) = none :=
  occurrenceOf_eq_none.2 fun e he hx => by
    simp [← hx, bindsAny_of_placesAll he] at h

/-- A cell may be replaced by cells that bind no more than it does. -/
theorem orderedAll_splice {cs ys : List Cell} {i : Nat} {c : Cell} (hc : cs[i]? = some c)
    (hy : orderedAll x ys = true) (hb : ∀ a ∈ ys, c.binds x = false → a.binds x = false)
    (hw : c.isWild = true → ∀ a ∈ ys, a.isWild = true) (h : orderedAll x cs = true) :
    orderedAll x (splice cs i ys) = true := by
  obtain ⟨l, l', rfl, hsplice⟩ := exists_split hc
  rw [hsplice]
  simp only [orderedAll_iff, List.mem_append, List.mem_cons, List.pairwise_append,
    List.pairwise_cons] at h hy ⊢
  obtain ⟨hall, hl, ⟨hcl', hl'⟩, hcross⟩ := h
  refine ⟨?_, ⟨hl, hy.2, fun e he a ha => ?_⟩, hl', ?_⟩
  · rintro d ((hd | hd) | hd)
    · exact hall d (.inl hd)
    · exact hy.1 d hd
    · exact hall d (.inr (.inr hd))
  · exact (hcross e he c (.inl rfl)).imp_right (Or.imp_right (hb a ha))
  · rintro e (he | he) f hf
    · exact hcross e he f (.inr hf)
    · exact (hcl' f hf).imp (fun h => hw h e he) (Or.imp_left (hb e he))

theorem orderedAll_replicate_wild (n : Nat) : orderedAll x (List.replicate n (wild none)) = true := by
  refine orderedAll_iff.2 ⟨fun c hc => ?_, List.pairwise_replicate.2 (.inr (.inl rfl))⟩
  rw [List.eq_of_mem_replicate hc]
  rfl

mutual

/-- What binds a name at most once has it in order. -/
theorem ordered_of_count : (c : Cell) → (o : Occurrence) →
    ((c.places o).map Prod.fst).count x ≤ 1 → c.ordered x = true
  | wild _, _, _ => rfl
  | test _ args, o, h => orderedAll_of_count args o 0 (by simpa [places] using h)
  | active pattern _ args, o, h =>
    orderedAll_of_count args (.active o pattern) 0 (by simpa [places] using h)

theorem orderedAll_of_count : (cs : List Cell) → (o : Occurrence) → (index : Nat) →
    ((placesFrom o index cs).map Prod.fst).count x ≤ 1 → orderedAll x cs = true
  | [], _, _, _ => rfl
  | c :: cs, o, index, h => by
    simp only [placesFrom, List.map_append, List.count_append] at h
    have hc : c.binds x = true → 0 < ((c.places (.field o index)).map Prod.fst).count x := fun hb =>
      List.count_pos_iff.2 (List.mem_map.2 ((binds_iff c _).1 hb))
    have hcs : bindsAny x cs = true → 0 < ((placesFrom o (index + 1) cs).map Prod.fst).count x :=
      fun hb => List.count_pos_iff.2 (List.mem_map.2 ((bindsAny_iff_places cs o (index + 1)).1 hb))
    simp only [orderedAll, ordered_of_count c (.field o index) (by omega),
      orderedAll_of_count cs o (index + 1) (by omega), Bool.and_self, Bool.true_and, Bool.or_eq_true,
      Bool.not_eq_true']
    by_cases hb : c.binds x = true
    · exact .inr (Bool.eq_false_iff.2 fun h' => by have := hc hb; have := hcs h'; omega)
    · exact .inl (.inr (Bool.eq_false_iff.2 hb))

end

end Cell

/-! ## Names in rows -/

namespace MatchRow

variable {x : String}

theorem bindsAny_forgetNames {cells : List Cell} {columns : List Column}
    (h : Cell.bindsAny x cells = false) : Cell.bindsAny x (forgetNames cells columns) = false := by
  refine Bool.eq_false_iff.2 fun hb => ?_
  obtain ⟨c, hc, hx⟩ := Cell.bindsAny_iff.1 hb
  rcases mem_forgetNames hc with rfl | hc
  · cases hx
  · exact Bool.eq_false_iff.1 h (Cell.bindsAny_iff.2 ⟨c, hc, hx⟩)

theorem orderedAll_forgetNames {cells : List Cell} {columns : List Column}
    (h : Cell.orderedAll x cells = true) : Cell.orderedAll x (forgetNames cells columns) = true := by
  induction cells generalizing columns with
  | nil => cases columns <;> rfl
  | cons c cells ih =>
    cases columns with
    | nil => rcases c with ⟨_ | name⟩ | ⟨d, args⟩ | ⟨p, case, args⟩ <;> exact h
    | cons column columns =>
      simp only [Cell.orderedAll, Bool.and_eq_true, Bool.or_eq_true, Bool.not_eq_true'] at h
      obtain ⟨⟨hc, hcells⟩, hcross⟩ := h
      have hcross := hcross.imp_right (@bindsAny_forgetNames x cells columns)
      cases c with
      | wild name => simp [forgetNames, Cell.orderedAll, Cell.ordered, Cell.isWild, ih hcells]
      | test d args | active p case args =>
        simp only [forgetNames, Cell.orderedAll, hc, ih hcells, Bool.and_self, Bool.true_and,
          Bool.or_eq_true, Bool.not_eq_true']
        exact hcross

/-- Where the cells have a name in order, turning names into bindings does not change what it stands
for. -/
theorem occurrenceOf_bindNames {cells : List Cell} {columns : List Column}
    (h : Cell.orderedAll x cells = true) :
    occurrenceOf x (namesIn cells columns ++ Cell.placesAll columns (forgetNames cells columns)) =
      occurrenceOf x (Cell.placesAll columns cells) := by
  induction cells generalizing columns with
  | nil => cases columns <;> rfl
  | cons c cells ih =>
    cases columns with
    | nil => rcases c with ⟨_ | name⟩ | ⟨d, args⟩ | ⟨p, case, args⟩ <;> rfl
    | cons column columns =>
      simp only [Cell.orderedAll, Bool.and_eq_true, Bool.or_eq_true, Bool.not_eq_true'] at h
      obtain ⟨⟨hc, hcells⟩, hcross⟩ := h
      have ih := @ih columns hcells
      rcases c with ⟨_ | name⟩ | ⟨d, args⟩ | ⟨p, case, args⟩
      · simpa [namesIn, forgetNames, Cell.placesAll, Cell.places] using ih
      · simp only [namesIn, forgetNames, Cell.placesAll, Cell.places, List.nil_append,
          List.cons_append]
        rw [occurrenceOf_cons, ih, ← occurrenceOf_cons]
      all_goals
        -- either the cell does not bind the name, or nothing behind it does
        simp only [Cell.isWild, Bool.false_eq_true, false_or] at hcross
        rw [occurrenceOf_append] at ih
        simp only [namesIn, forgetNames, Cell.placesAll, occurrenceOf_append]
        rcases hcross with hb | hb
        · rw [Cell.occurrenceOf_places hb, Option.or_none, Option.or_none, ih]
        · rw [Cell.occurrenceOf_placesAll hb] at ih ⊢
          obtain ⟨hdeep, hnames⟩ := Option.or_eq_none_iff.1 ih
          rw [hdeep, hnames, Option.or_none]

/-- Whether what is selected is a row: its arm, with the names that it has bound and those still in its
cells. Names that the cells have in order stand for what they stand for in the row. -/
structure Yields (columns : List Column) (row : MatchRow) (e : Nat × Bindings) : Prop where
  arm : e.1 = row.arm
  perm : e.2.Perm (row.bindings ++ Cell.placesAll columns row.cells)
  last : ∀ x, Cell.orderedAll x row.cells = true →
    occurrenceOf x e.2 = occurrenceOf x (row.bindings ++ Cell.placesAll columns row.cells)

variable {columns columns' : List Column} {row row' : MatchRow} {e : Nat × Bindings}

theorem Yields.of_bindNames (h : (row.bindNames columns).Yields columns e) : row.Yields columns e where
  arm := h.arm
  perm := h.perm.trans (by
    simpa [bindNames] using (places_bindNames columns row.cells).append_left row.bindings)
  last x hx := (h.last x (orderedAll_forgetNames hx)).trans (by
    simp only [bindNames, List.append_assoc]
    rw [occurrenceOf_append row.bindings, occurrenceOf_bindNames hx, occurrenceOf_append])

/-- A row may be taken apart, as long as its names stay where they are and in order. -/
theorem Yields.of_row (h : row'.Yields columns' e) (harm : row'.arm = row.arm)
    (hbindings : row'.bindings = row.bindings)
    (hplaces : Cell.placesAll columns' row'.cells = Cell.placesAll columns row.cells)
    (hordered : ∀ x, Cell.orderedAll x row.cells = true → Cell.orderedAll x row'.cells = true) :
    row.Yields columns e where
  arm := h.arm.trans harm
  perm := hplaces ▸ hbindings ▸ h.perm
  last x hx := hplaces ▸ hbindings ▸ h.last x (hordered x hx)

theorem orderedAll_specialize {i n : Nat} {c : Constructor} (h : row.specialize i c n = some row')
    (ho : Cell.orderedAll x row.cells = true) : Cell.orderedAll x row'.cells = true := by
  unfold specialize at h
  split at h
  · rename_i d args hc
    have hargs := (Cell.orderedAll_iff.1 ho).1 _ (List.mem_of_getElem? hc)
    split at h <;> cases h
    refine Cell.orderedAll_splice hc (by simpa [Cell.ordered] using hargs) (fun a ha hb => ?_) nofun ho
    simp only [Cell.binds] at hb
    exact Bool.eq_false_iff.2 fun h => Bool.eq_false_iff.1 hb (Cell.bindsAny_iff.2 ⟨a, ha, h⟩)
  · rename_i name hc
    cases h
    refine Cell.orderedAll_splice hc (Cell.orderedAll_replicate_wild n) ?_ ?_ ho <;>
      simp [Cell.binds, Cell.isWild]
  · cases h

theorem orderedAll_fallback {i : Nat} (h : row.fallback i = some row')
    (ho : Cell.orderedAll x row.cells = true) : Cell.orderedAll x row'.cells = true := by
  unfold fallback at h
  split at h <;> cases h
  exact Cell.orderedAll_splice ‹_› rfl nofun nofun ho

theorem orderedAll_expandActive {i : Nat} {pattern : String}
    (ho : Cell.orderedAll x row.cells = true) :
    Cell.orderedAll x (row.expandActive i pattern).cells = true := by
  unfold expandActive
  split
  · exact ho
  · rename_i c hc
    have hordered := (Cell.orderedAll_iff.1 ho).1 c (List.mem_of_getElem? hc)
    refine Cell.orderedAll_splice hc ?_ ?_ ?_ ho
    all_goals
      cases c with
      | wild name => simp [Cell.applied, Cell.orderedAll, Cell.ordered, Cell.binds, Cell.isWild]
      | test d args =>
        simp_all [Cell.applied, Cell.orderedAll, Cell.ordered, Cell.binds, Cell.isWild, Cell.bindsAny]
      | active p case args =>
        by_cases hp : p = pattern <;>
          simp_all [Cell.applied, Cell.orderedAll, Cell.ordered, Cell.binds, Cell.isWild, Cell.bindsAny]

end MatchRow

/-! ## What a compiled match binds -/

namespace Matrix

/-- Whether what is selected is one of the rows. -/
def Yields (m : Matrix) (e : Nat × Bindings) : Prop := ∃ row ∈ m.rows, row.Yields m.columns e

section

variable {r : Registries} {m : Matrix} {i : Nat} {column : Column} {e : Nat × Bindings}

theorem Yields.of_bindNames (h : m.bindNames.Yields e) : m.Yields e := by
  obtain ⟨q, hq, h⟩ := h
  obtain ⟨row, hrow, rfl⟩ := List.mem_map.1 hq
  exact ⟨row, hrow, h.of_bindNames⟩

theorem Yields.of_expandActive (hm : m.Fits r) (hn : m.Nameless) (hk : m.columns[i]? = some column)
    {pattern : String} (h : (m.expandActive i pattern).Yields e) : m.Yields e := by
  obtain ⟨q, hq, h⟩ := h
  obtain ⟨row, hrow, rfl⟩ := List.mem_map.1 hq
  exact ⟨row, hrow, h.of_row (row.arm_expandActive i pattern) (row.bindings_expandActive i pattern)
    (placesAll_expandActive hm hn hk pattern hrow) fun _ => MatchRow.orderedAll_expandActive⟩

theorem Yields.of_within (hm : m.Fits r) (hn : m.Nameless) (hk : m.columns[i]? = some column)
    {c : Constructor} (h : (m.within r i c).Yields e) : m.Yields e := by
  obtain ⟨q, hq, h⟩ := h
  obtain ⟨row, hrow, hs⟩ := List.mem_filterMap.1 hq
  rw [columnAt_eq hk] at hs
  exact ⟨row, hrow, h.of_row (MatchRow.arm_specialize hs) (MatchRow.bindings_specialize hs)
    (placesAll_within hm hn hk hrow hs) fun _ => MatchRow.orderedAll_specialize hs⟩

theorem Yields.of_fallback (hm : m.Fits r) (hn : m.Nameless) (hk : m.columns[i]? = some column)
    (h : (m.fallback i).Yields e) : m.Yields e := by
  obtain ⟨q, hq, h⟩ := h
  obtain ⟨row, hrow, hs⟩ := List.mem_filterMap.1 hq
  exact ⟨row, hrow, h.of_row (MatchRow.arm_fallback hs) (MatchRow.bindings_fallback hs)
    (placesAll_fallback hm hn hk hrow hs) fun _ => MatchRow.orderedAll_fallback hs⟩

/-- A row that is selected has all its names bound. -/
theorem Yields.of_wild (hn : m.Nameless) {row : MatchRow} (hrow : row ∈ m.rows)
    (hw : ∀ c ∈ row.cells, c.isWild = true) : m.Yields (row.arm, row.bindings) := by
  have hplaces : Cell.placesAll m.columns row.cells = [] := Cell.placesAll_of_wild hw (hn row hrow)
  exact ⟨row, hrow, rfl, by simp [hplaces], fun x _ => by simp [hplaces]⟩

/-- What a compiled tree selects or tries are rows of its matrix. -/
theorem yields_of_mem_selections (hm : m.Fits r) (he : e ∈ (m.compile r).selections) : m.Yields e := by
  induction m using compile_induction r with
  | _ m ih =>
    rw [compile_eq] at he
    refine Yields.of_bindNames ?_
    have hn := hm.nameless_bindNames
    replace hm := hm.bindNames
    have hst := m.bindNames.steps r
    generalize m.bindNames.step r = st at ih hst he
    generalize m.bindNames = n at hm hn hst ⊢
    cases hst with
    | fail => cases he
    | leaf hrows hw _ =>
      obtain rfl := List.mem_singleton.1 he
      exact .of_wild hn (hrows ▸ List.mem_cons_self) hw
    | @guard row rows hrows hw _ =>
      rcases List.mem_cons.1 he with rfl | he
      · exact .of_wild hn (hrows ▸ List.mem_cons_self) hw
      · obtain ⟨q, hq, h⟩ := ih _ (List.mem_singleton_self _) (hm.tail hrows) he
        exact ⟨q, hrows ▸ List.mem_cons_of_mem _ hq, h⟩
    | @active row i pattern hrow hi _ =>
      obtain ⟨column, hk⟩ := hm.exists_column hrow hi
      exact .of_expandActive hm hn hk
        (ih _ (List.mem_singleton_self _) (hm.expandActive hk pattern) he)
    | tuple hrow hc _ _ =>
      obtain ⟨column, hk, -⟩ := hm.builds hrow hc
      exact .of_within hm hn hk (ih _ (List.mem_singleton_self _) (hm.within hk _) he)
    | @switch row i d args listed complete hrow hc _ _ =>
      obtain ⟨column, hk, -⟩ := hm.builds hrow hc
      have hcases : e ∈ DecisionTree.selectionsOfCases ((listed.map fun c => (c, n.within r i c)).map
          fun c => (c.1, c.2.compile r)) → n.Yields e := by
        intro he
        obtain ⟨c, hc, he⟩ := DecisionTree.mem_selectionsOfCases.1 he
        obtain ⟨p, hp, rfl⟩ := List.mem_map.1 hc
        have hmem := List.mem_map_of_mem (f := Prod.snd) hp
        obtain ⟨c, -, rfl⟩ := List.mem_map.1 hp
        exact .of_within hm hn hk (ih _ (List.mem_append_left _ hmem) (hm.within hk c) he)
      cases complete with
      | true => exact hcases he
      | false =>
        rcases List.mem_append.1 he with he | he
        · exact hcases he
        · exact .of_fallback hm hn hk
            (ih _ (List.mem_append_right _ (List.mem_singleton_self _)) (hm.fallback) he)

end

end Matrix

namespace TPattern

mutual

/-- The places of the names of a pattern are listed in the order of the source. -/
theorem map_fst_places : (p : TPattern) → (o : Occurrence) →
    (p.places o).map Prod.fst = p.bindings.map Prod.fst
  | wild .., _ | lit .., _ | bind .., _ => rfl
  | tuple _ _ items, o => by simpa [places, bindings] using map_fst_placesFrom items o 0
  | variant _ _ _ _ args, o => by simpa [places, bindings] using map_fst_placesFrom args o 0
  | active _ _ pattern _ args, o => by
    simpa [places, bindings] using map_fst_placesFrom args (.active o pattern) 0

theorem map_fst_placesFrom : (ps : List TPattern) → (o : Occurrence) → (index : Nat) →
    (placesFrom o index ps).map Prod.fst = (bindingsList ps).map Prod.fst
  | [], _, _ => rfl
  | p :: ps, o, index => by
    simp [placesFrom, bindingsList, map_fst_places p, map_fst_placesFrom ps]

end

theorem ordered_of_bound_once {p : TPattern} {x : String}
    (h : (p.bindings.map Prod.fst).count x ≤ 1) : (Cell.ofPattern p).ordered x = true := by
  refine Cell.ordered_of_count _ .root ?_
  rwa [Cell.places_ofPattern, map_fst_places]

end TPattern

/-- Where a tree selects or tries an arm, it binds the names of its pattern to their places. A name stands
for its last place in the source if the pattern has the name in order, as when it binds it once. -/
theorem selections_in_order {r : Registries} {t : Ty} {arms : List (TPattern × Bool)}
    (harms : ∀ a ∈ arms, a.1.Fits r t) {i : Nat} {bindings : Bindings}
    (h : (i, bindings) ∈ (r.compileMatch t arms).tree.selections) :
    ∃ p guarded, arms[i]? = some (p, guarded) ∧ bindings.Perm (p.places .root) ∧
      ∀ x, (p.bindings.map Prod.fst).count x ≤ 1 ∨ (Cell.ofPattern p).ordered x = true →
        occurrenceOf x bindings = occurrenceOf x (p.places .root) := by
  obtain ⟨row, hrow, hi, hperm, hlast⟩ := Matrix.yields_of_mem_selections (Matrix.fits_ofArms harms) h
  obtain ⟨⟨⟨p, guarded⟩, k⟩, ha, rfl⟩ := List.mem_map.1 hrow
  obtain rfl : i = k := hi
  have hplaces : Cell.placesAll (Matrix.ofArms t arms).columns [Cell.ofPattern p] = p.places .root := by
    simp [Matrix.ofArms, Cell.placesAll, Cell.places_ofPattern]
  simp only [hplaces, List.nil_append] at hperm hlast
  refine ⟨p, guarded, List.mk_mem_zipIdx_iff_getElem?.1 ha, hperm, fun x hx => hlast x ?_⟩
  have hx := hx.elim TPattern.ordered_of_bound_once id
  simp [Cell.orderedAll, Cell.bindsAny, hx]

/-- `| (x, (x, _))` -/
def outerFirst : TPattern :=
  .tuple .synthetic (.tuple [.bool, .tuple [.s32, .s32]]) [.bind .synthetic .bool "x" none,
    .tuple .synthetic (.tuple [.s32, .s32]) [.bind .synthetic .s32 "x" none, .wild .synthetic .s32]]

/-- Where the arm is selected, `x` is the number within the inner pair. -/
theorem outer_first_in_order : ∃ bindings,
    (0, bindings) ∈ (Registries.empty.compileMatch (.tuple [.bool, .tuple [.s32, .s32]])
      [(outerFirst, false)]).tree.selections ∧
    occurrenceOf "x" bindings = some (.field (.field .root 1) 0) := by
  have hfits : ∀ a ∈ [(outerFirst, false)],
      a.1.Fits .empty (.tuple [.bool, .tuple [.s32, .s32]]) := by
    simp only [List.mem_singleton, forall_eq]
    exact .tuple _ _ (.tuple _) (.cons (.bind ..)
      (.cons (.tuple _ _ (.tuple _) (.cons (.bind ..) (.cons (.wild ..) .nil))) .nil))
  have h : (0, [("x", .field .root 0), ("x", .field (.field .root 1) 0)]) ∈
      (Registries.empty.compileMatch (.tuple [.bool, .tuple [.s32, .s32]])
        [(outerFirst, false)]).tree.selections := by decide +kernel
  obtain ⟨p, guarded, hp, -, hlast⟩ := selections_in_order hfits h
  obtain ⟨rfl, rfl⟩ : outerFirst = p ∧ false = guarded := by simpa using hp
  exact ⟨_, h, (hlast "x" (.inr (by decide))).trans (by decide)⟩

/-- `| ((x, _), x)` -/
def innerFirst : TPattern :=
  .tuple .synthetic (.tuple [.tuple [.s32, .s32], .bool])
    [.tuple .synthetic (.tuple [.s32, .s32]) [.bind .synthetic .s32 "x" none, .wild .synthetic .s32],
      .bind .synthetic .bool "x" none]

/-- The last `x` in the source is the truth value, but in the tree it is the number within the inner
pair. -/
theorem inner_first_out_of_order :
    innerFirst.Fits .empty (.tuple [.tuple [.s32, .s32], .bool]) ∧
    (innerFirst.bindings.map (fun b => (b.1, b.2.1))).getLast? = some ("x", .bool) ∧
    occurrenceOf "x" (innerFirst.places .root) = some (.field .root 1) ∧
    ∃ bindings, (0, bindings) ∈ (Registries.empty.compileMatch (.tuple [.tuple [.s32, .s32], .bool])
        [(innerFirst, false)]).tree.selections ∧
      occurrenceOf "x" bindings = some (.field (.field .root 0) 0) := by
  refine ⟨.tuple _ _ (.tuple _) (.cons (.tuple _ _ (.tuple _) (.cons (.bind ..) (.cons (.wild ..) .nil)))
    (.cons (.bind ..) .nil)), by decide, by decide,
    [("x", .field .root 1), ("x", .field (.field .root 0) 0)], by decide +kernel, by decide⟩

end RowCheck
