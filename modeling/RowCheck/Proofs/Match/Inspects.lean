import RowCheck.Proofs.Match.Described
import RowCheck.Proofs.Match.Exhaustive

/-!
Compiled trees look only at what is there. Behind every way from the root of a tree to one of its nodes, no
occurrence is switched on that was switched on before, no guard is tried again, and what is switched on or
bound is the scrutinee, a field that is known to exist, or the result of an active pattern on such a value.
What carries this from matrix to matrix is what the columns have to do with the way: an occurrence becomes a
column only once, since a field becomes one when its value stops to be one for good, and the result of an
active pattern when the pattern stops to be applied there.
-/
namespace RowCheck

/-! ## Ways to a node -/

/-- What a way through a tree passes: a guard that is false, a case of a switch, or its fallback. -/
inductive TreeStep where
  | tried (arm : Nat)
  | case (o : Occurrence) (c : Constructor)
  | fallback (o : Occurrence)

namespace TreeStep

def switched? : TreeStep → Option Occurrence
  | tried _ => none
  | case o _ | fallback o => some o

def tried? : TreeStep → Option Nat
  | tried arm => some arm
  | case .. | fallback _ => none

def fixed? : TreeStep → Option (Occurrence × Constructor)
  | case o c => some (o, c)
  | tried _ | fallback _ => none

end TreeStep

abbrev TreeWay := List TreeStep

namespace TreeWay

/-- The occurrences that a way switches on. -/
def switched (way : TreeWay) : List Occurrence := way.filterMap TreeStep.switched?

/-- The arms whose guards a way tries. -/
def tried (way : TreeWay) : List Nat := way.filterMap TreeStep.tried?

/-- The constructors that a way fixes. -/
def fixed (way : TreeWay) : TreePath := way.filterMap TreeStep.fixed?

variable (way : TreeWay) (o : Occurrence) (c : Constructor) (arm : Nat)

@[simp] theorem switched_tried : switched (way ++ [.tried arm]) = way.switched := by
  simp [switched, TreeStep.switched?]

@[simp] theorem switched_case : switched (way ++ [.case o c]) = way.switched ++ [o] := by
  simp [switched, TreeStep.switched?]

@[simp] theorem switched_fallback : switched (way ++ [.fallback o]) = way.switched ++ [o] := by
  simp [switched, TreeStep.switched?]

@[simp] theorem tried_tried : tried (way ++ [.tried arm]) = way.tried ++ [arm] := by
  simp [tried, TreeStep.tried?]

@[simp] theorem tried_case : tried (way ++ [.case o c]) = way.tried := by
  simp [tried, TreeStep.tried?]

@[simp] theorem tried_fallback : tried (way ++ [.fallback o]) = way.tried := by
  simp [tried, TreeStep.tried?]

@[simp] theorem fixed_tried : fixed (way ++ [.tried arm]) = way.fixed := by
  simp [fixed, TreeStep.fixed?]

@[simp] theorem fixed_case : fixed (way ++ [.case o c]) = way.fixed ++ [(o, c)] := by
  simp [fixed, TreeStep.fixed?]

@[simp] theorem fixed_fallback : fixed (way ++ [.fallback o]) = way.fixed := by
  simp [fixed, TreeStep.fixed?]

/-- What is fixed was switched on. -/
theorem map_fst_fixed_sublist : (way.fixed.map (·.1)).Sublist way.switched := by
  induction way with
  | nil => exact .slnil
  | cons step way ih =>
    cases step with
    | tried arm => exact ih
    | case o c => exact ih.cons_cons o
    | fallback o => exact ih.cons o

end TreeWay

/-- The ways from the root of a tree to its nodes. -/
inductive DecisionTree.Way : DecisionTree → TreeWay → DecisionTree → Prop
  | here (tree : DecisionTree) : Way tree [] tree
  | guard {arm : Nat} {bindings : Bindings} {otherwise node : DecisionTree} {way : TreeWay} :
      Way otherwise way node → Way (.guard arm bindings otherwise) (.tried arm :: way) node
  | case {o : Occurrence} {cases : List (Constructor × DecisionTree)}
      {fallback : Option DecisionTree} {c : Constructor} {tree node : DecisionTree} {way : TreeWay} :
      (c, tree) ∈ cases → Way tree way node → Way (.switch o cases fallback) (.case o c :: way) node
  | fallback {o : Occurrence} {cases : List (Constructor × DecisionTree)}
      {tree node : DecisionTree} {way : TreeWay} :
      Way tree way node → Way (.switch o cases (some tree)) (.fallback o :: way) node

/-! ## What is there to look at -/

/-- The occurrences that have a value where a way has fixed some constructors: the scrutinee, the fields of
a constructor that was fixed, the items of a tuple, and the results of active patterns. -/
inductive Available (r : Registries) (scrutinee : Ty) (fixed : TreePath) : Occurrence → Prop
  | root : Available r scrutinee fixed .root
  | field {o : Occurrence} {c : Constructor} {k : Nat} :
      Available r scrutinee fixed o → (o, c) ∈ fixed → k < c.arity →
      Available r scrutinee fixed (.field o k)
  | item {o : Occurrence} {items : List Ty} {k : Nat} :
      Available r scrutinee fixed o → r.typeAt scrutinee fixed o = .tuple items → k < items.length →
      Available r scrutinee fixed (.field o k)
  | result {o : Occurrence} (pattern : String) :
      Available r scrutinee fixed o → Available r scrutinee fixed (.active o pattern)

/-- Whether a node looks only at what is there, and switches on nothing and tries no guard that the way to
it has been at. A switch lists each constructor once, and all of its type where it has no fallback. -/
def DecisionTree.Sound (r : Registries) (scrutinee : Ty) (way : TreeWay) : DecisionTree → Prop
  | .leaf _ bindings => ∀ b ∈ bindings, Available r scrutinee way.fixed b.2
  | .guard arm bindings _ =>
    arm ∉ way.tried ∧ ∀ b ∈ bindings, Available r scrutinee way.fixed b.2
  | .switch o cases fallback =>
    o ∉ way.switched ∧ Available r scrutinee way.fixed o ∧ (cases.map (·.1)).Nodup ∧
    (fallback = none →
      r.signature? (r.typeAt scrutinee way.fixed o) = some (cases.map (·.1)))
  | .fail => True

/-- The types of the values that a way can look at. -/
inductive Found (r : Registries) (scrutinee : Ty) (fixed : TreePath) : Occurrence → Ty → Prop
  | root : Found r scrutinee fixed .root scrutinee
  | item {o : Occurrence} {items : List Ty} {k : Nat} {t : Ty} :
      Found r scrutinee fixed o (.tuple items) → items[k]? = some t →
      Found r scrutinee fixed (.field o k) t
  | part {o : Occurrence} {u t : Ty} {c : Constructor} {types : List Ty} {k : Nat} :
      Found r scrutinee fixed o u → (o, c) ∈ fixed → r.Builds u c types → types[k]? = some t →
      Found r scrutinee fixed (.field o k) t
  | result {o : Occurrence} {t : Ty} (pattern : String) :
      Found r scrutinee fixed o t → Found r scrutinee fixed (.active o pattern) (.named pattern [])

namespace Found

variable {r : Registries} {scrutinee t : Ty} {fixed fixed' : TreePath} {o : Occurrence}

theorem mono (h : Found r scrutinee fixed o t) (hsub : fixed ⊆ fixed') :
    Found r scrutinee fixed' o t := by
  induction h with
  | root => exact .root
  | item _ hk ih => exact .item ih hk
  | part _ hc hb hk ih => exact .part ih (hsub hc) hb hk
  | result pattern _ ih => exact .result pattern ih

/-- The type at an occurrence is found again from the way, if the way fixes nothing twice. -/
theorem typeAt_eq (h : Found r scrutinee fixed o t) (hn : (fixed.map (·.1)).Nodup) :
    r.typeAt scrutinee fixed o = t := by
  induction h with
  | root => rfl
  | item _ hk ih => simp [Registries.typeAt, ih, hk]
  | @part o u t c types k _ hc hb hk ih =>
    rw [Registries.typeAt, ih]
    split
    · rw [← hb.tuple_inv.2, hk, Option.getD_some]
    · rw [TreePath.at?_eq_some hn hc]
      simp [hb.fieldTypes_eq, hk]
  | result pattern _ _ => rfl

theorem available (h : Found r scrutinee fixed o t) (hn : (fixed.map (·.1)).Nodup) :
    Available r scrutinee fixed o := by
  induction h with
  | root => exact .root
  | item hparent hk ih =>
    exact .item ih (hparent.typeAt_eq hn) (List.getElem?_eq_some_iff.1 hk).1
  | part _ hc hb hk ih =>
    exact .field ih hc (hb.arity_eq ▸ (List.getElem?_eq_some_iff.1 hk).1)
  | result pattern _ ih => exact .result pattern ih

end Found

/-! ## Occurrences that compiling comes by -/

namespace Occurrence

def fields (o : Occurrence) (n : Nat) : List Occurrence := (List.range n).map (field o)

theorem mem_fields {o x : Occurrence} {n : Nat} (h : x ∈ o.fields n) : ∃ k, x = field o k := by
  obtain ⟨k, -, rfl⟩ := List.mem_map.1 h
  exact ⟨k, rfl⟩

theorem nodup_fields (o : Occurrence) (n : Nat) : (o.fields n).Nodup :=
  List.nodup_range.map fun _ _ h => (field.inj h).2

end Occurrence

/-- How the occurrences of the columns have come about, where `spent` are those of earlier columns. None was
a column before. A field is one of a value that no longer is a column, and the result of an active pattern is
that on a value which is or was one. -/
structure Frontier (spent columns : List Occurrence) : Prop where
  nodup : (spent ++ columns).Nodup
  parent : ∀ p k, .field p k ∈ spent ++ columns → p ∈ spent
  subject : ∀ p q, .active p q ∈ spent ++ columns → p ∈ spent ++ columns

namespace Frontier

variable {spent columns columns' : List Occurrence} {o : Occurrence}

theorem perm (h : Frontier spent columns) (hp : columns.Perm columns') : Frontier spent columns' := by
  have hall : (spent ++ columns).Perm (spent ++ columns') := hp.append_left spent
  refine ⟨hall.nodup_iff.1 h.nodup, fun p k hm => h.parent p k (hall.mem_iff.2 hm), fun p q hm => ?_⟩
  exact hall.mem_iff.1 (h.subject p q (hall.mem_iff.2 hm))

theorem not_spent (h : Frontier spent columns) (ho : o ∈ columns) : o ∉ spent :=
  fun hs => (List.nodup_append'.1 h.nodup).2.2 hs ho

/-- A column has none of its fields beside it. -/
theorem field_fresh (h : Frontier spent columns) (ho : o ∈ columns) (k : Nat) :
    .field o k ∉ spent ++ columns :=
  fun hm => h.not_spent ho (h.parent o k hm)

/-- What has been come by when an active pattern is applied to a column. -/
theorem perm_apply (spent columns : List Occurrence) (o : Occurrence) (pattern : String) :
    (spent ++ o :: .active o pattern :: columns).Perm
      (.active o pattern :: (spent ++ o :: columns)) :=
  (List.Perm.append_left spent (.swap _ _ _)).trans List.perm_middle

/-- What has been come by when a column is looked into. -/
theorem perm_look (spent columns : List Occurrence) (o : Occurrence) (n : Nat) :
    (spent ++ [o] ++ (o.fields n ++ columns)).Perm (o.fields n ++ (spent ++ o :: columns)) := by
  simpa using List.perm_append_comm_assoc (spent ++ [o]) (o.fields n) columns

/-- An active pattern that was not applied before leads to a new column. -/
theorem apply (h : Frontier spent (o :: columns)) {pattern : String}
    (hnew : .active o pattern ∉ spent ++ o :: columns) :
    Frontier spent (o :: .active o pattern :: columns) := by
  have hp := perm_apply spent columns o pattern
  refine ⟨hp.nodup_iff.2 (List.nodup_cons.2 ⟨hnew, h.nodup⟩), fun p k hm => ?_, fun p q hm => ?_⟩
  · rcases List.mem_cons.1 (hp.mem_iff.1 hm) with hm | hm
    · cases hm
    · exact h.parent p k hm
  · rw [hp.mem_iff]
    rcases List.mem_cons.1 (hp.mem_iff.1 hm) with hm | hm
    · cases hm
      exact List.mem_cons_of_mem _ (by simp)
    · exact List.mem_cons_of_mem _ (h.subject p q hm)

/-- Looking into a column leads to its fields. -/
theorem look (h : Frontier spent (o :: columns)) (n : Nat) :
    Frontier (spent ++ [o]) (o.fields n ++ columns) := by
  have hp := perm_look spent columns o n
  have hnew : List.Disjoint (o.fields n) (spent ++ o :: columns) := by
    intro x hx
    obtain ⟨k, rfl⟩ := Occurrence.mem_fields hx
    exact h.field_fresh List.mem_cons_self k
  refine ⟨hp.nodup_iff.2 (List.nodup_append'.2 ⟨o.nodup_fields n, h.nodup, hnew⟩),
    fun p k hm => ?_, fun p q hm => ?_⟩
  · rcases List.mem_append.1 (hp.mem_iff.1 hm) with hm | hm
    · obtain ⟨j, hj⟩ := Occurrence.mem_fields hm
      cases hj
      simp
    · exact List.mem_append_left _ (h.parent p k hm)
  · rw [hp.mem_iff]
    rcases List.mem_append.1 (hp.mem_iff.1 hm) with hm | hm
    · obtain ⟨j, hj⟩ := Occurrence.mem_fields hm
      cases hj
    · exact List.mem_append_right _ (h.subject p q hm)

end Frontier

/-! ## Constructors of a switch -/

theorem Matrix.nodup_heads (m : Matrix) (i : Nat) : (m.heads i).Nodup := by
  refine List.foldlRecOn m.rows _ List.nodup_nil fun seen h row _ => ?_
  split
  · split
    · exact h
    · rename_i hn
      exact List.nodup_append'.2 ⟨h, List.nodup_singleton _, by simpa using hn⟩
  · exact h

theorem Registries.nodup_signature {r : Registries} (hr : r.types.WellFormed) {t : Ty}
    {all : List Constructor} (ha : r.signature? t = some all) : all.Nodup := by
  unfold signature? at ha
  split at ha
  · cases ha
    decide
  · cases ha
    exact List.nodup_singleton _
  · cases ha
    exact List.nodup_singleton _
  · obtain ⟨d, hd, rfl⟩ := Option.map_eq_some_iff.1 ha
    have hnames := hr.distinct _ d hd
    refine List.Nodup.of_map Constructor.text ?_
    rwa [List.map_map]
  · cases ha

section

variable {r : Registries} {t : Ty} {heads listed : List Constructor} {complete : Bool}

theorem Matrix.nodup_listed (hr : r.types.WellFormed) (hheads : heads.Nodup)
    (h : switchCases r t heads = (listed, complete)) : listed.Nodup := by
  unfold switchCases at h
  split at h <;> simp only [Prod.mk.injEq] at h <;> obtain ⟨rfl, -⟩ := h
  · exact (r.nodup_signature hr ‹_›).filter _
  · exact hheads

/-- A switch without a fallback lists the constructors of its type as they were declared. -/
theorem Matrix.signature_of_complete (h : switchCases r t heads = (listed, true)) :
    r.signature? t = some listed := by
  unfold switchCases at h
  split at h <;> simp only [Prod.mk.injEq] at h
  · rename_i all ha
    obtain ⟨rfl, hall⟩ := h
    rw [ha, List.filter_eq_self.2 (List.all_eq_true.1 hall)]
  · cases h.2

end

/-! ## Matrices behind a way -/

/-- Whether a cell applies no active pattern whose result has been come by. -/
def Cell.Unapplied (met : List Occurrence) (c : Cell) (k : Column) : Prop :=
  ∀ p case args, c = .active p case args → .active k.occurrence p ∉ met

theorem Cell.unapplied_wild (met : List Occurrence) (name : Option String) (k : Column) :
    (Cell.wild name).Unapplied met k := fun _ _ _ h => by cases h

theorem Cell.unapplied_test (met : List Occurrence) (c : Constructor) (args : List Cell)
    (k : Column) : (Cell.test c args).Unapplied met k := fun _ _ _ h => by cases h

namespace Matrix

def occurrences (m : Matrix) : List Occurrence := m.columns.map Column.occurrence

/-- What a matrix has to do with the way behind which it is compiled. -/
structure Behind (r : Registries) (scrutinee : Ty) (way : TreeWay) (spent : List Occurrence)
    (m : Matrix) : Prop where
  frontier : Frontier spent m.occurrences
  known : ∀ k ∈ m.columns, Found r scrutinee way.fixed k.occurrence k.ty
  unapplied : m.Each (Cell.Unapplied (spent ++ m.occurrences))
  bound : ∀ row ∈ m.rows, ∀ b ∈ row.bindings, ∃ t, Found r scrutinee way.fixed b.2 t
  switched : way.switched.Sublist spent
  arms : (way.tried ++ m.arms).Nodup

section

variable {r : Registries} {scrutinee : Ty} {way way' : TreeWay} {spent : List Occurrence}
  {m n : Matrix} {i : Nat} {column : Column} {types : List Ty}

theorem occurrences_fieldColumns (o : Occurrence) (types : List Ty) :
    (fieldColumns o types).map Column.occurrence = o.fields types.length := by
  rw [fieldColumns, Occurrence.fields, List.range_eq_range', ← List.zipIdx_map_snd 0 types,
    List.map_map, List.map_map]
  rfl

theorem perm_occurrences (hk : m.columns[i]? = some column) :
    m.occurrences.Perm (column.occurrence :: (splice m.columns i []).map Column.occurrence) :=
  (perm_cons_splice hk).map _

namespace Behind

theorem nodup_switched (h : m.Behind r scrutinee way spent) : way.switched.Nodup :=
  (List.nodup_append'.1 h.frontier.nodup).1.sublist h.switched

theorem nodup_fixed (h : m.Behind r scrutinee way spent) : (way.fixed.map (·.1)).Nodup :=
  h.nodup_switched.sublist way.map_fst_fixed_sublist

theorem available (h : m.Behind r scrutinee way spent) {k : Column} (hk : k ∈ m.columns) :
    Available r scrutinee way.fixed k.occurrence :=
  (h.known k hk).available h.nodup_fixed

theorem bindings_available (h : m.Behind r scrutinee way spent) {row : MatchRow}
    (hrow : row ∈ m.rows) : ∀ b ∈ row.bindings, Available r scrutinee way.fixed b.2 := by
  intro b hb
  obtain ⟨t, ht⟩ := h.bound row hrow b hb
  exact ht.available h.nodup_fixed

theorem bindNames (h : m.Behind r scrutinee way spent) : m.bindNames.Behind r scrutinee way spent where
  frontier := h.frontier
  known := h.known
  unapplied := h.unapplied.bindNames fun _ k _ => Cell.unapplied_wild _ none k
  bound := by
    intro row hrow b hb
    obtain ⟨q, hq, rfl⟩ := List.mem_map.1 hrow
    rcases List.mem_append.1 hb with hb | hb
    · exact h.bound q hq b hb
    · obtain ⟨k, hk, hocc⟩ := MatchRow.exists_column_of_mem_namesIn hb
      exact ⟨k.ty, hocc ▸ h.known k hk⟩
  switched := h.switched
  arms := m.arms_bindNames ▸ h.arms

/-- Behind a guard that is false, the rows after its own are left. -/
theorem tail (h : m.Behind r scrutinee way spent) {row : MatchRow} {rows : List MatchRow}
    (hrows : m.rows = row :: rows) :
    ({ m with rows } : Matrix).Behind r scrutinee (way ++ [.tried row.arm]) spent where
  frontier := h.frontier
  known := by simpa using h.known
  unapplied := h.unapplied.tail hrows
  bound := by
    intro q hq
    simpa using h.bound q (hrows ▸ List.mem_cons_of_mem _ hq)
  switched := by simpa using h.switched
  arms := by simpa [Matrix.arms, hrows] using h.arms

/-! ### Applying an active pattern -/

theorem active_fresh (h : m.Behind r scrutinee way spent) (hk : m.columns[i]? = some column)
    {pattern : String} (ha : m.activeIn? i = some pattern) :
    .active column.occurrence pattern ∉ spent ++ m.occurrences := by
  obtain ⟨row, hrow, case, args, hcell⟩ := exists_active ha
  obtain ⟨c, hc, hun⟩ := h.unapplied.cell hk hrow
  exact hun pattern case args (Option.some.inj (hc.symm.trans hcell))

/-- The pattern is not applied to the column again, nor are others whose results have been come by. -/
theorem unapplied_expandActive (h : m.Behind r scrutinee way spent)
    (hk : m.columns[i]? = some column) {pattern : String} : (m.expandActive i pattern).Each
      (Cell.Unapplied (.active column.occurrence pattern :: (spent ++ m.occurrences))) := by
  refine h.unapplied.expandActive hk (fun k hmem c hun p case args hc hx => ?_) fun c hun => ?_
  · rcases List.mem_cons.1 hx with hx | hx
    · -- another column is at another occurrence
      have hcolumns := (perm_occurrences hk).nodup_iff.1 (List.nodup_append'.1 h.frontier.nodup).2.1
      exact (List.nodup_cons.1 hcolumns).1 ((Occurrence.active.inj hx).1 ▸ List.mem_map_of_mem hmem)
    · exact hun p case args hc hx
  · have hwild : ∀ k, Cell.Unapplied (.active column.occurrence pattern :: (spent ++ m.occurrences))
        (.wild none) k := Cell.unapplied_wild _ none
    cases c with
    | wild name => exact .cons (Cell.unapplied_wild _ name _) (.cons (hwild _) .nil)
    | test d args => exact .cons (Cell.unapplied_test _ d args _) (.cons (hwild _) .nil)
    | active p case args =>
      simp only [Cell.applied]
      split
      · exact .cons (hwild _) (.cons (Cell.unapplied_test _ _ args _) .nil)
      · rename_i hp
        refine .cons (fun q case' args' hc hx => ?_) (.cons (hwild _) .nil)
        cases hc
        rcases List.mem_cons.1 hx with hx | hx
        · exact hp (Occurrence.active.inj hx).2
        · exact hun p case args rfl hx

/-- Applying an active pattern beforehand leads to a column that was not there before. -/
theorem expandActive (h : m.Behind r scrutinee way spent) (hk : m.columns[i]? = some column)
    {pattern : String} (ha : m.activeIn? i = some pattern) :
    (m.expandActive i pattern).Behind r scrutinee way spent := by
  have hold := perm_occurrences hk
  have hcolumn := h.known column (List.mem_of_getElem? hk)
  have hnew : (m.expandActive i pattern).occurrences.Perm
      (column.occurrence :: .active column.occurrence pattern ::
        (splice m.columns i []).map Column.occurrence) := by
    rw [occurrences, expandActive_columns hk]
    exact (perm_splice _ _ i).map _
  have hmet : (spent ++ (m.expandActive i pattern).occurrences).Perm
      (.active column.occurrence pattern :: (spent ++ m.occurrences)) :=
    (hnew.append_left spent).trans
      ((Frontier.perm_apply ..).trans ((hold.append_left spent).symm.cons _))
  have hfresh := h.active_fresh hk ha
  rw [(hold.append_left spent).mem_iff] at hfresh
  refine ⟨((h.frontier.perm hold).apply hfresh).perm hnew.symm, fun k hmem => ?_, ?_,
    fun row hrow => ?_, h.switched, ?_⟩
  · rw [expandActive_columns hk] at hmem
    rcases mem_splice hmem with hmem | hmem
    · exact h.known k hmem
    · rcases List.mem_pair.1 hmem with rfl | rfl
      · exact hcolumn
      · exact .result pattern hcolumn
  · exact fun row hrow => (h.unapplied_expandActive hk row hrow).imp fun c k hun p case args hc hx =>
      hun p case args hc (hmet.mem_iff.1 hx)
  · obtain ⟨q, hq, rfl⟩ := List.mem_map.1 hrow
    rw [MatchRow.bindings_expandActive]
    exact h.bound q hq
  · rw [arms_expandActive]
    exact h.arms

/-! ### Looking into a column -/

theorem unapplied_mono {met : List Occurrence} {c : Cell} {k : Column} (h : c.Unapplied met k)
    (o : Occurrence) (n : Nat) : c.Unapplied (o.fields n ++ met) k := by
  intro p case args hc hx
  rcases List.mem_append.1 hx with hx | hx
  · obtain ⟨j, hj⟩ := Occurrence.mem_fields hx
    cases hj
  · exact h p case args hc hx

/-- To a field no active pattern was applied before. -/
theorem unapplied_field (h : m.Behind r scrutinee way spent) (hk : m.columns[i]? = some column)
    (n : Nat) {k : Column} {ts : List Ty} (hmem : k ∈ fieldColumns column.occurrence ts) (c : Cell) :
    c.Unapplied (column.occurrence.fields n ++ (spent ++ m.occurrences)) k := by
  obtain ⟨j, -, hj⟩ := mem_fieldColumns.1 hmem
  have hcolumn : column.occurrence ∈ m.occurrences := List.mem_map_of_mem (List.mem_of_getElem? hk)
  refine unapplied_mono (fun p case args _ hx => ?_) _ _
  exact h.frontier.field_fresh hcolumn j (hj ▸ h.frontier.subject _ p hx)

theorem unapplied_within (h : m.Behind r scrutinee way spent) (hm : m.Fits r)
    (hk : m.columns[i]? = some column) (c : Constructor) (n : Nat) : (m.within r i c).Each
      (Cell.Unapplied (column.occurrence.fields n ++ (spent ++ m.occurrences))) := by
  refine (hm.each.and h.unapplied).within hk (fun _ _ _ hc => unapplied_mono hc.2 _ _)
    (fun k hmem => h.unapplied_field hk n hmem _) fun args hc => ?_
  refine forall₂_of_length_eq ?_ fun a _ k hmem => h.unapplied_field hk n hmem a
  cases hc.1 with
  | test hb hargs => rw [length_fieldColumns, hb.fieldTypes_eq, hargs.length_eq]

theorem unapplied_fallback (h : m.Behind r scrutinee way spent) (o : Occurrence) (n : Nat) :
    (m.fallback i).Each (Cell.Unapplied (o.fields n ++ (spent ++ m.occurrences))) :=
  h.unapplied.fallback fun _ _ _ hc => unapplied_mono hc _ _

/-- What is found behind a column that is looked into, or dropped if there are no fields. -/
theorem look (h : m.Behind r scrutinee way spent) (hk : m.columns[i]? = some column)
    (hcolumns : n.columns = splice m.columns i (fieldColumns column.occurrence types))
    (hcells : n.Each (Cell.Unapplied
      (column.occurrence.fields types.length ++ (spent ++ m.occurrences))))
    (hrows : ∀ row ∈ n.rows, ∃ q ∈ m.rows, row.bindings = q.bindings)
    (harms : n.arms.Sublist m.arms) (hfixed : way.fixed ⊆ way'.fixed)
    (htried : way'.tried = way.tried) (hswitched : way'.switched.Sublist (spent ++ [column.occurrence]))
    (hfields : ∀ (j : Nat) u, types[j]? = some u →
      Found r scrutinee way'.fixed (.field column.occurrence j) u) :
    n.Behind r scrutinee way' (spent ++ [column.occurrence]) := by
  have hold := perm_occurrences hk
  have hnew : n.occurrences.Perm (column.occurrence.fields types.length ++
      (splice m.columns i []).map Column.occurrence) := by
    rw [occurrences, hcolumns, ← occurrences_fieldColumns, ← List.map_append]
    exact (perm_splice _ _ i).map _
  have hmet : (spent ++ [column.occurrence] ++ n.occurrences).Perm
      (column.occurrence.fields types.length ++ (spent ++ m.occurrences)) :=
    (hnew.append_left _).trans
      ((Frontier.perm_look ..).trans ((hold.append_left spent).symm.append_left _))
  refine ⟨((h.frontier.perm hold).look _).perm hnew.symm, fun k hmem => ?_, fun row hrow => ?_,
    fun row hrow => ?_, hswitched, ?_⟩
  · rw [hcolumns] at hmem
    rcases mem_splice hmem with hmem | hmem
    · exact (h.known k hmem).mono hfixed
    · obtain ⟨j, hj, ho⟩ := mem_fieldColumns.1 hmem
      exact ho ▸ hfields j _ hj
  · exact (hcells row hrow).imp fun c k hun p case args hc hx => hun p case args hc (hmet.mem_iff.1 hx)
  · obtain ⟨q, hq, hb⟩ := hrows row hrow
    rw [hb]
    intro b hb
    obtain ⟨t, ht⟩ := h.bound q hq b hb
    exact ⟨t, ht.mono hfixed⟩
  · rw [htried]
    exact h.arms.sublist (harms.append_left _)

/-- The fields of a constructor are looked at behind the case that fixes it, or behind no step where they
are the items of a tuple. -/
theorem within (h : m.Behind r scrutinee way spent) (hm : m.Fits r)
    (hk : m.columns[i]? = some column) {c : Constructor} (hb : r.Builds column.ty c types)
    (hfixed : way.fixed ⊆ way'.fixed) (htried : way'.tried = way.tried)
    (hswitched : way'.switched.Sublist (spent ++ [column.occurrence]))
    (hfields : ∀ (j : Nat) u, types[j]? = some u →
      Found r scrutinee way'.fixed (.field column.occurrence j) u) :
    (m.within r i c).Behind r scrutinee way' (spent ++ [column.occurrence]) := by
  refine h.look hk (within_columns hk hb) (h.unapplied_within hm hk c _) (fun row hrow => ?_)
    arms_within hfixed htried hswitched hfields
  obtain ⟨q, hq, hs⟩ := List.mem_filterMap.1 hrow
  exact ⟨q, hq, MatchRow.bindings_specialize hs⟩

/-- A tuple is opened without a switch. -/
theorem openTuple (h : m.Behind r scrutinee way spent) (hm : m.Fits r) {o : Occurrence}
    {items : List Ty} (hk : m.columns[i]? = some ⟨o, .tuple items⟩) :
    (m.within r i (.tuple items.length)).Behind r scrutinee way (spent ++ [o]) :=
  h.within hm hk (.tuple items) (List.Subset.refl _) rfl (h.switched.trans (List.sublist_append_left _ _))
    fun _ _ hj => .item (h.known _ (List.mem_of_getElem? hk)) hj

theorem case (h : m.Behind r scrutinee way spent) (hm : m.Fits r)
    (hk : m.columns[i]? = some column) {c : Constructor} (hb : r.Builds column.ty c types) :
    (m.within r i c).Behind r scrutinee (way ++ [.case column.occurrence c])
      (spent ++ [column.occurrence]) := by
  have hsub : way.fixed ⊆ TreeWay.fixed (way ++ [.case column.occurrence c]) := by simp
  refine h.within hm hk hb hsub (by simp) (by simpa using h.switched) fun j u hj => ?_
  exact .part ((h.known column (List.mem_of_getElem? hk)).mono hsub) (by simp) hb hj

theorem fallback (h : m.Behind r scrutinee way spent) (hk : m.columns[i]? = some column) :
    (m.fallback i).Behind r scrutinee (way ++ [.fallback column.occurrence])
      (spent ++ [column.occurrence]) := by
  have hcolumns : (m.fallback i).columns =
      splice m.columns i (fieldColumns column.occurrence []) := rfl
  refine h.look hk hcolumns (h.unapplied_fallback _ _) (fun row hrow => ?_) arms_fallback
    (by simp) (by simp) (by simpa using h.switched) fun j u hj => by simp at hj
  obtain ⟨q, hq, hs⟩ := List.mem_filterMap.1 hrow
  exact ⟨q, hq, MatchRow.bindings_fallback hs⟩

/-- What there is to show of the node that a matrix is compiled to. -/
theorem here (h : m.Behind r scrutinee way spent) {node : DecisionTree}
    (hn : node.Sound r scrutinee way) : (way ++ []).switched.Nodup ∧ (way ++ []).tried.Nodup ∧
      node.Sound r scrutinee (way ++ []) := by
  rw [List.append_nil]
  exact ⟨h.nodup_switched, (List.nodup_append'.1 h.arms).1, hn⟩

/-- The switch on a column is one on a value that is there, with the constructors of its type. -/
theorem sound_switch (h : m.Behind r scrutinee way spent) (hr : r.types.WellFormed)
    (hk : m.columns[i]? = some column) {listed : List Constructor} {complete : Bool}
    (hsw : switchCases r column.ty (m.heads i) = (listed, complete))
    {trees : List (Constructor × DecisionTree)} (htrees : trees.map (·.1) = listed)
    {fallback : Option DecisionTree} (hfallback : fallback = none → complete = true) :
    (DecisionTree.switch column.occurrence trees fallback).Sound r scrutinee way := by
  have hcolumn : column ∈ m.columns := List.mem_of_getElem? hk
  have hspent : column.occurrence ∉ spent := h.frontier.not_spent (List.mem_map_of_mem hcolumn)
  refine ⟨fun ho => hspent (h.switched.subset ho), h.available hcolumn, ?_, fun hnone => ?_⟩
  · rw [htrees]
    exact nodup_listed hr (m.nodup_heads i) hsw
  · rw [htrees, (h.known column hcolumn).typeAt_eq h.nodup_fixed]
    exact signature_of_complete (hfallback hnone ▸ hsw)

end Behind

/-- What a matrix is compiled to looks only at what is there, behind every way through it. -/
theorem Behind.compile_sound (hr : r.types.WellFormed) {way more : TreeWay} {node : DecisionTree}
    (hm : m.Fits r) (h : m.Behind r scrutinee way spent) (hw : (m.compile r).Way more node) :
    (way ++ more).switched.Nodup ∧ (way ++ more).tried.Nodup ∧
      node.Sound r scrutinee (way ++ more) := by
  induction m using compile_induction r generalizing way spent more with
  | _ m ih =>
    replace hm := hm.bindNames
    replace h := h.bindNames
    rw [compile_eq] at hw
    have hst := m.bindNames.steps r
    generalize m.bindNames.step r = st at ih hst hw
    generalize m.bindNames = n at hm h hst
    cases hst with
    | fail =>
      cases hw
      exact h.here trivial
    | @leaf row rows hrows _ _ =>
      cases hw
      exact h.here (h.bindings_available (hrows ▸ List.mem_cons_self))
    | @guard row rows hrows _ _ =>
      cases hw with
      | here =>
        have harms : (way.tried ++ row.arm :: rows.map MatchRow.arm).Nodup := by
          simpa [Matrix.arms, hrows] using h.arms
        have hnew : row.arm ∉ way.tried := fun hmem =>
          (List.nodup_append'.1 harms).2.2 hmem List.mem_cons_self
        exact h.here ⟨hnew, h.bindings_available (hrows ▸ List.mem_cons_self)⟩
      | guard hw =>
        have hrest := ih _ (List.mem_singleton_self _) (hm.tail hrows) (h.tail hrows) hw
        simpa using hrest
    | @active row i pattern hrow hi ha =>
      obtain ⟨column, hk⟩ := hm.exists_column hrow hi
      exact ih _ (List.mem_singleton_self _) (hm.expandActive hk pattern) (h.expandActive hk ha) hw
    | @tuple row i k args hrow hc _ _ =>
      obtain ⟨⟨o, t⟩, hk, types, hb⟩ := hm.builds hrow hc
      cases hb with
      | tuple _ =>
        exact ih _ (List.mem_singleton_self _) (hm.within hk _) (h.openTuple hm hk) hw
    | @switch row i d args listed complete hrow hc _ hsw =>
      obtain ⟨column, hk, types, hb⟩ := hm.builds hrow hc
      rw [columnAt_eq hk] at hsw hw
      have htrees : ((listed.map (fun c => (c, n.within r i c))).map
          (fun c => (c.1, c.2.compile r))).map (·.1) = listed := by simp [Function.comp_def]
      -- behind one of the cases
      have hcases : ∀ {c tree rest}, (c, tree) ∈ (listed.map (fun c => (c, n.within r i c))).map
          (fun c => (c.1, c.2.compile r)) → tree.Way rest node →
          (way ++ .case column.occurrence c :: rest).switched.Nodup ∧
          (way ++ .case column.occurrence c :: rest).tried.Nodup ∧
          node.Sound r scrutinee (way ++ .case column.occurrence c :: rest) := by
        intro c tree rest hmem hw
        simp only [List.map_map, List.mem_map, Function.comp_apply, Prod.mk.injEq] at hmem
        obtain ⟨c, hlisted, rfl, rfl⟩ := hmem
        obtain ⟨us, hus⟩ := hm.builds_of_listed hk hsw hlisted
        have hrest := ih _ (within_mem_rest hlisted) (hm.within hk c) (h.case hm hk hus) hw
        simpa using hrest
      cases complete with
      | true =>
        cases hw with
        | here => exact h.here (h.sound_switch hr hk hsw htrees fun _ => rfl)
        | case hmem hw => exact hcases hmem hw
      | false =>
        cases hw with
        | here => exact h.here (h.sound_switch hr hk hsw htrees fun hnone => by cases hnone)
        | case hmem hw => exact hcases hmem hw
        | fallback hw =>
          have hmem : n.fallback i ∈ (MatchStep.switch (n.columnAt i).occurrence
              (listed.map (fun c => (c, n.within r i c))) (some (n.fallback i))).rest := by
            simp [MatchStep.rest]
          have hrest := ih _ hmem hm.fallback (h.fallback hk) hw
          simpa using hrest

theorem behind_ofArms (r : Registries) (t : Ty) (arms : List (TPattern × Bool)) :
    (ofArms t arms).Behind r t [] [] where
  frontier := by
    refine ⟨List.nodup_singleton _, fun p k hm => ?_, fun p q hm => ?_⟩
    · cases List.mem_singleton.1 hm
    · cases List.mem_singleton.1 hm
  known := by
    intro k hk
    obtain rfl := List.mem_singleton.1 hk
    exact .root
  unapplied := by
    intro row hrow
    obtain ⟨a, -, rfl⟩ := List.mem_map.1 hrow
    refine .cons (fun p case args _ hm => ?_) .nil
    cases List.mem_singleton.1 hm
  bound := by
    intro row hrow
    obtain ⟨a, -, rfl⟩ := List.mem_map.1 hrow
    intro b hb
    cases hb
  switched := .slnil
  arms := by
    have harms : (ofArms t arms).arms = List.range arms.length := by
      rw [Matrix.arms, ofArms, List.map_map, List.range_eq_range', ← List.zipIdx_map_snd 0 arms]
      rfl
    rw [harms]
    exact List.nodup_range

end

end Matrix

/-- Along every way from the root of the tree of a match to a node, no occurrence is switched on twice and no
guard is tried twice. A switch lists constructors that are all different, and where it has no fallback these
are all constructors of the type at its occurrence. What is switched on or bound is the scrutinee, a field of
such a value whose constructor was fixed on the way to it and has that many fields, or which is a tuple of
that many items, or the result of an active pattern on such a value. -/
theorem compile_inspects {r : Registries} (hr : r.types.WellFormed) {t : Ty}
    {arms : List (TPattern × Bool)} (harms : ∀ a ∈ arms, a.1.Fits r t) {way : TreeWay}
    {node : DecisionTree} (hw : ((Matrix.ofArms t arms).compile r).Way way node) :
    way.switched.Nodup ∧ way.tried.Nodup ∧ node.Sound r t way := by
  simpa using (Matrix.behind_ofArms r t arms).compile_sound hr (Matrix.fits_ofArms harms) hw

/-- The tree of the match on options. -/
def positiveTree : DecisionTree :=
  let sign := .active (.field .root 0) "Sign"
  let second := .leaf 1 [("n", .field .root 0)]
  .switch .root
    [(.variant "Option" "Some" 1, .switch sign
      [(.variant "Sign" "Positive" 1, .guard 0 [("k", .field sign 0)] second)] (some second)),
    (.variant "Option" "None" 0, .leaf 2 [])] none

theorem compile_positiveArms :
    (Matrix.ofArms (.named "Option" [.s32]) positiveArms).compile positives = positiveTree := by
  with_unfolding_all rfl

/-- The switch at its root lists all options, and the second arm binds the field of `Some` also behind a
guard that has looked at what the active pattern gives there. -/
theorem positiveTree_inspects :
    positives.signature? (.named "Option" [.s32]) =
      some [.variant "Option" "Some" 1, .variant "Option" "None" 0] ∧
    Available positives (.named "Option" [.s32]) [(.root, .variant "Option" "Some" 1),
      (.active (.field .root 0) "Sign", .variant "Sign" "Positive" 1)] (.field .root 0) := by
  have hroot : ((Matrix.ofArms (.named "Option" [.s32]) positiveArms).compile positives).Way []
      positiveTree := by
    rw [compile_positiveArms]
    exact .here positiveTree
  have hsecond : ((Matrix.ofArms (.named "Option" [.s32]) positiveArms).compile positives).Way
      [.case .root (.variant "Option" "Some" 1),
        .case (.active (.field .root 0) "Sign") (.variant "Sign" "Positive" 1), .tried 0]
      (.leaf 1 [("n", .field .root 0)]) := by
    rw [compile_positiveArms]
    exact .case List.mem_cons_self (.case List.mem_cons_self (.guard (.here _)))
  obtain ⟨-, -, -, -, -, hsignature⟩ :=
    compile_inspects positives_wellFormed fits_positiveArms hroot
  obtain ⟨-, -, hbound⟩ := compile_inspects positives_wellFormed fits_positiveArms hsecond
  exact ⟨hsignature rfl, hbound ("n", .field .root 0) List.mem_cons_self⟩

end RowCheck
