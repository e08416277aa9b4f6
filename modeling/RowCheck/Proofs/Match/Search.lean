import RowCheck.Proofs.Match.Described
import RowCheck.Proofs.Match.Exhaustive

/-!
The search for a value that no arm covers. While it follows a way through a compiled tree, the way
fixes at each occurrence a constructor of the type there, and no occurrence that is still a column of
the matrix. A switch that needs a fallback leaves a constructor out, which the search names, unless it
is a switch on integers that lists all of them; so a subject built as the way says comes to its end.
-/
namespace RowCheck

/-! ## Cells that test for some constructors only -/

namespace Cell

mutual

/-- Whether a cell tests for constructors of a kind only, and applies no active pattern. -/
def testsOnly (p : Constructor → Bool) : Cell → Bool
  | wild _ => true
  | test c args => p c && testsOnlyList p args
  | active .. => false

def testsOnlyList (p : Constructor → Bool) : List Cell → Bool
  | [] => true
  | c :: cs => c.testsOnly p && testsOnlyList p cs

end

theorem testsOnlyList_iff {p : Constructor → Bool} {cs : List Cell} :
    testsOnlyList p cs = true ↔ ∀ c ∈ cs, c.testsOnly p = true := by
  induction cs with
  | nil => simp [testsOnlyList]
  | cons c cs ih => simp [testsOnlyList, ih]

end Cell

theorem MatchRow.mem_forgetNames {c : Cell} {cells : List Cell} {columns : List Column}
    (h : c ∈ forgetNames cells columns) : c = .wild none ∨ c ∈ cells := by
  induction cells generalizing columns with
  | nil => cases columns <;> exact .inr h
  | cons d cells ih =>
    cases columns with
    | nil => rcases d with ⟨_ | name⟩ | ⟨e, args⟩ | ⟨p, case, args⟩ <;> exact .inr h
    | cons column columns =>
      rcases d with ⟨_ | name⟩ | ⟨e, args⟩ | ⟨p, case, args⟩ <;>
        rcases List.mem_cons.1 h with h | h <;> grind

namespace Matrix

def TestsOnly (p : Constructor → Bool) (m : Matrix) : Prop :=
  ∀ row ∈ m.rows, ∀ c ∈ row.cells, c.testsOnly p = true

section

variable {r : Registries} {m n : Matrix} {p : Constructor → Bool} {i : Nat}

theorem TestsOnly.bindNames (h : m.TestsOnly p) : m.bindNames.TestsOnly p := by
  intro row hrow c hc
  obtain ⟨q, hq, rfl⟩ := List.mem_map.1 hrow
  rcases MatchRow.mem_forgetNames hc with rfl | hc
  · rfl
  · exact h q hq c hc

theorem TestsOnly.tail (h : m.TestsOnly p) {row : MatchRow} {rows : List MatchRow}
    (hrows : m.rows = row :: rows) : ({ m with rows } : Matrix).TestsOnly p :=
  fun q hq => h q (hrows ▸ List.mem_cons_of_mem _ hq)

theorem TestsOnly.activeIn? (h : m.TestsOnly p) (i : Nat) : m.activeIn? i = none := by
  refine List.findSome?_eq_none_iff.2 fun row hrow => ?_
  split
  · rename_i hc
    exact absurd (h row hrow _ (List.mem_of_getElem? hc)) nofun
  · rfl

theorem TestsOnly.test (h : m.TestsOnly p) {row : MatchRow} (hrow : row ∈ m.rows) {c : Constructor}
    {args : List Cell} (hc : row.cells[i]? = some (.test c args)) :
    p c = true ∧ ∀ a ∈ args, a.testsOnly p = true := by
  have := h row hrow _ (List.mem_of_getElem? hc)
  simpa [Cell.testsOnly, Cell.testsOnlyList_iff] using this

theorem TestsOnly.within (h : m.TestsOnly p) (c : Constructor) : (m.within r i c).TestsOnly p := by
  intro row hrow a ha
  obtain ⟨q, hq, hs⟩ := List.mem_filterMap.1 hrow
  unfold MatchRow.specialize at hs
  split at hs
  · rename_i d args hc
    simp only [Option.ite_none_right_eq_some, Option.some.injEq] at hs
    obtain ⟨-, rfl⟩ := hs
    exact (mem_splice ha).elim (h q hq a) ((h.test hq hc).2 a)
  · cases hs
    rcases mem_splice ha with ha | ha
    · exact h q hq a ha
    · rw [List.eq_of_mem_replicate ha]
      rfl
  · cases hs

theorem TestsOnly.fallback (h : m.TestsOnly p) : (m.fallback i).TestsOnly p := by
  intro row hrow a ha
  obtain ⟨q, hq, hs⟩ := List.mem_filterMap.1 hrow
  unfold MatchRow.fallback at hs
  split at hs
  · cases hs
    exact (mem_splice ha).elim (h q hq a) (fun ha => by cases ha)
  · cases hs

end

end Matrix

/-! ## Columns that a way has not looked into -/

/-- Whether a way and the columns of a matrix go together: the types of the columns are found from the
way, nothing is fixed in a column, and no column lies in another one. -/
structure TreePath.Reads (r : Registries) (scrutinee : Ty) (path : TreePath)
    (columns : List Column) : Prop extends path.Fits r scrutinee where
  known : ∀ k ∈ columns, Opened r scrutinee path k.occurrence k.ty
  untouched : ∀ k ∈ columns, ∀ e ∈ path, k.occurrence.holds e.1 = false
  apart : columns.Pairwise (fun a b =>
    a.occurrence.holds b.occurrence = false ∧ b.occurrence.holds a.occurrence = false)

theorem pairwise_fieldColumns (o : Occurrence) (types : List Ty) :
    (fieldColumns o types).Pairwise (fun a b =>
      a.occurrence.holds b.occurrence = false ∧ b.occurrence.holds a.occurrence = false) := by
  refine List.pairwise_iff_getElem.2 fun i j hi hj hij => ?_
  simp only [fieldColumns, List.getElem_map, List.getElem_zipIdx]
  have hne : ∀ {a b : Nat}, a ≠ b → (Occurrence.field o a).holds (.field o b) = false :=
    fun hab => Bool.eq_false_iff.2 fun h => hab (Occurrence.holds_sibling h)
  exact ⟨hne (by omega), hne (by omega)⟩

theorem splice_nil_sublist {α : Type} (l m : List α) (i : Nat) :
    (splice l i []).Sublist (splice l i m) := by
  simpa only [splice, List.append_nil] using
    (List.sublist_append_left (l.take i) m).append_right (l.drop (i + 1))

theorem splice_nil_sublist_self {α : Type} (l : List α) (i : Nat) : (splice l i []).Sublist l := by
  have h := (List.drop_sublist_drop_left l (Nat.le_succ i)).append_left (l.take i)
  simpa only [splice, List.append_nil, List.take_append_drop] using h

namespace TreePath.Reads

variable {r : Registries} {scrutinee : Ty} {path path' : TreePath} {columns columns' : List Column}
  {column : Column} {i : Nat} {c : Constructor} {types : List Ty}

theorem root (r : Registries) (t : Ty) : TreePath.Reads r t [] [⟨.root, t⟩] where
  built := nofun
  nodup := List.nodup_nil
  known := by
    intro k hk
    obtain rfl := List.mem_singleton.1 hk
    exact .root
  untouched := fun _ _ => nofun
  apart := List.pairwise_singleton _ _

theorem sublist (h : path.Reads r scrutinee columns) (hs : columns'.Sublist columns) :
    path.Reads r scrutinee columns' :=
  ⟨h.toFits, fun k hk => h.known k (hs.subset hk), fun k hk => h.untouched k (hs.subset hk),
    h.apart.sublist hs⟩

/-- A column may be replaced by those for the fields, while nothing but it may have been fixed. -/
theorem replace (h : path.Reads r scrutinee columns) (hk : columns[i]? = some column)
    (hfits : path'.Fits r scrutinee) (hpath : ∀ e ∈ path', e ∈ path ∨ e.1 = column.occurrence)
    (hknown : ∀ k ∈ columns, Opened r scrutinee path' k.occurrence k.ty)
    (hfields : ∀ (j : Nat) u, types[j]? = some u →
      Opened r scrutinee path' (.field column.occurrence j) u) :
    path'.Reads r scrutinee (splice columns i (fieldColumns column.occurrence types)) := by
  obtain ⟨l, l', hl, hsplice⟩ := exists_split hk
  have hchild : ∀ {j : Nat} {x}, column.occurrence.holds x = false →
      (Occurrence.field column.occurrence j).holds x = false := fun hx =>
    Bool.eq_false_iff.2 fun hj => by simp [Occurrence.holds_of_field hj] at hx
  have hapart := hl ▸ h.apart
  rw [List.pairwise_append, List.pairwise_cons] at hapart
  obtain ⟨hl₁, ⟨hright, hl₂⟩, hacross⟩ := hapart
  -- the other columns do not meet the one that is replaced
  have hother : ∀ k ∈ l ++ l', k.occurrence.holds column.occurrence = false ∧
      column.occurrence.holds k.occurrence = false := by
    intro k hmem
    rcases List.mem_append.1 hmem with hmem | hmem
    · exact hacross k hmem column List.mem_cons_self
    · exact (hright k hmem).symm
  have hold : ∀ k ∈ l ++ l', k ∈ columns := by
    intro k hmem
    rw [hl]
    rcases List.mem_append.1 hmem with hmem | hmem
    · exact List.mem_append_left _ hmem
    · exact List.mem_append_right _ (List.mem_cons_of_mem _ hmem)
  have hmeet : ∀ k ∈ l ++ l', ∀ f ∈ fieldColumns column.occurrence types,
      k.occurrence.holds f.occurrence = false ∧ f.occurrence.holds k.occurrence = false := by
    intro k hmem f hf
    obtain ⟨j, -, hj⟩ := mem_fieldColumns.1 hf
    rw [hj]
    refine ⟨Bool.eq_false_iff.2 fun hh => ?_, hchild (hother k hmem).2⟩
    rcases Occurrence.holds_field.1 hh with he | hh
    · have hself : column.occurrence.holds (.field column.occurrence j) = true :=
        Occurrence.holds_field.2 (.inr (Occurrence.holds_self _))
      rw [← he, (hother k hmem).2] at hself
      cases hself
    · simp [(hother k hmem).1] at hh
  have hcases : ∀ k ∈ splice columns i (fieldColumns column.occurrence types),
      k ∈ l ++ l' ∨ k ∈ fieldColumns column.occurrence types := by
    intro k hmem
    rw [hsplice] at hmem
    simp only [List.mem_append] at hmem ⊢
    grind
  refine ⟨hfits, fun k hmem => ?_, fun k hmem e he => ?_, ?_⟩
  · rcases hcases k hmem with hmem | hmem
    · exact hknown k (hold k hmem)
    · obtain ⟨j, hj, ho⟩ := mem_fieldColumns.1 hmem
      exact ho ▸ hfields j _ hj
  · rcases hcases k hmem with hmem | hmem
    · rcases hpath e he with he | he
      · exact h.untouched k (hold k hmem) e he
      · exact he ▸ (hother k hmem).1
    · obtain ⟨j, -, ho⟩ := mem_fieldColumns.1 hmem
      rw [ho]
      rcases hpath e he with he | he
      · exact hchild (h.untouched column (List.mem_of_getElem? hk) e he)
      · exact he ▸ Occurrence.not_holds_parent _ _
  · rw [hsplice, List.append_assoc, List.pairwise_append, List.pairwise_append]
    refine ⟨hl₁, ⟨pairwise_fieldColumns _ _, hl₂, fun f hf k hmem => ?_⟩, fun k hmem f hf => ?_⟩
    · exact (hmeet k (List.mem_append_right _ hmem) f hf).symm
    · rcases List.mem_append.1 hf with hf | hf
      · exact hmeet k (List.mem_append_left _ hmem) f hf
      · exact hacross k hmem f (List.mem_cons_of_mem _ hf)

theorem at?_eq_none (h : path.Reads r scrutinee columns) (hk : columns[i]? = some column) :
    path.at? column.occurrence = none := by
  refine TreePath.at?_eq_none fun e he heq => ?_
  have := h.untouched column (List.mem_of_getElem? hk) e he
  simp [heq] at this

/-- Opening a tuple fixes nothing. -/
theorem openTuple (h : path.Reads r scrutinee columns) {items : List Ty} {o : Occurrence}
    (hk : columns[i]? = some ⟨o, .tuple items⟩) :
    path.Reads r scrutinee (splice columns i (fieldColumns o items)) :=
  h.replace hk h.toFits (fun _ he => .inl he) h.known fun _ _ hj =>
    .item (h.known _ (List.mem_of_getElem? hk)) (h.at?_eq_none hk) hj

/-- Fixing the constructor of a column leads to its fields. -/
theorem fix (h : path.Reads r scrutinee columns) (hk : columns[i]? = some column)
    (hb : r.Builds column.ty c types) : (path ++ [(column.occurrence, c)]).Reads r scrutinee
      (splice columns i (fieldColumns column.occurrence types)) := by
  have hnone := h.at?_eq_none hk
  have hcolumn := h.known column (List.mem_of_getElem? hk)
  have hkeep : ∀ {o u}, Opened r scrutinee path o u →
      Opened r scrutinee (path ++ [(column.occurrence, c)]) o u :=
    fun ho => ho.concat hcolumn hnone hb
  refine h.replace hk ⟨fun e he => ?_, ?_⟩ (fun e he => ?_) (fun k hmem => hkeep (h.known k hmem))
    fun j u hj => ?_
  · rcases List.mem_append.1 he with he | he
    · obtain ⟨u, us, hu, hus⟩ := h.built e he
      exact ⟨u, us, hkeep hu, hus⟩
    · obtain rfl := List.mem_singleton.1 he
      exact ⟨column.ty, types, hkeep hcolumn, hb⟩
  · rw [List.map_append, List.nodup_append']
    refine ⟨h.nodup, List.nodup_singleton _, fun o ho ho' => ?_⟩
    obtain ⟨e, he, rfl⟩ := List.mem_map.1 ho
    have := h.untouched column (List.mem_of_getElem? hk) e he
    rw [List.mem_singleton.1 ho'] at this
    simp at this
  · rcases List.mem_append.1 he with he | he
    · exact .inl he
    · exact .inr (congrArg Prod.fst (List.mem_singleton.1 he))
  · exact .part (hkeep hcolumn) (by simp [TreePath.at?_concat]) hb hj

end TreePath.Reads

/-! ## Constructors that are missing -/

/-- Whether a constructor is no text and no fraction. Of those no other one is found. -/
def Constructor.isCounted : Constructor → Bool
  | .literal (.float _) | .literal (.string _) => false
  | _ => true

theorem Primitive.zero_in_range {p : Primitive} {low high : Int} (h : p.range? = some (low, high)) :
    low ≤ 0 ∧ 0 ≤ high := by
  cases p <;> simp only [Primitive.range?, Option.some.injEq, Prod.mk.injEq, reduceCtorEq] at h <;>
    omega

namespace Registries

variable {r : Registries} {t : Ty} {c d : Constructor} {types : List Ty}
  {heads listed : List Constructor}

/-- An integer that is not listed is found if there is one. -/
theorem isSome_missingInt? {low high : Int}
    (h : ∃ n, low ≤ n ∧ n ≤ high ∧ Constructor.literal (.int n) ∉ listed) :
    (missingInt? (low, high) listed).isSome = true := by
  -- the integers that are tried: as many as there are listed and one more, to either side
  obtain ⟨n, hn, hnot⟩ : ∃ n : Int, ((0 ≤ n ∧ n ≤ listed.length ∧ n ≤ high) ∨
      (n < 0 ∧ -n - 1 ≤ listed.length ∧ low ≤ n)) ∧ Constructor.literal (.int n) ∉ listed := by
    by_cases hup : (listed.length : Int) ≤ high
    · obtain ⟨n, h0, hl, hn⟩ := @exists_unlisted_int 0 listed.length listed (by omega)
      exact ⟨n, .inl ⟨h0, hl, by omega⟩, hn⟩
    · by_cases hdown : low ≤ -listed.length - 1
      · obtain ⟨n, h0, hl, hn⟩ := @exists_unlisted_int (-listed.length - 1) (-1) listed
          (by omega)
        exact ⟨n, .inr ⟨by omega, by omega, by omega⟩, hn⟩
      · obtain ⟨n, h0, hl, hn⟩ := h
        exact ⟨n, by omega, hn⟩
  have hmem : Constructor.literal (.int n) ∈
      ((((List.range (listed.length + 1)).map (fun (k : Nat) => (k : Int))).filter
          (fun k => decide (k ≤ high)) ++
        ((List.range (listed.length + 1)).map (fun (k : Nat) => -(k : Int) - 1)).filter
          (fun k => decide (low ≤ k))).map (fun k => Constructor.literal (.int k))) := by
    refine List.mem_map.2 ⟨n, List.mem_append.2 ?_, rfl⟩
    simp only [List.mem_filter, List.mem_map, List.mem_range, decide_eq_true_eq]
    rcases hn with ⟨h0, hl, hh⟩ | ⟨h0, hl, hh⟩
    · exact .inl ⟨⟨n.toNat, by omega, by omega⟩, hh⟩
    · exact .inr ⟨⟨(-n - 1).toNat, by omega, by omega⟩, hh⟩
  rw [missingInt?, List.find?_isSome]
  exact ⟨_, hmem, by simpa using hnot⟩

theorem missingInt?_eq_some {low high : Int} (hlow : low ≤ 0) (hhigh : 0 ≤ high)
    (h : missingInt? (low, high) listed = some c) :
    ∃ n, c = .literal (.int n) ∧ low ≤ n ∧ n ≤ high ∧ c ∉ listed := by
  have hfresh : c ∉ listed := by simpa using List.find?_some h
  obtain ⟨k, hk, rfl⟩ := List.mem_map.1 (List.mem_of_find?_eq_some h)
  refine ⟨k, rfl, ?_, ?_, hfresh⟩ <;> grind

theorem missingInt?_eq_none {low high : Int} (hlow : low ≤ 0) (hhigh : 0 ≤ high)
    (h : ∀ n, low ≤ n → n ≤ high → Constructor.literal (.int n) ∈ listed) :
    missingInt? (low, high) listed = none := by
  refine List.find?_eq_none.2 fun c hc => ?_
  simp only [List.mem_map, List.mem_append, List.mem_filter, decide_eq_true_eq] at hc
  obtain ⟨n, ⟨⟨k, -, rfl⟩, hn⟩ | ⟨⟨k, -, rfl⟩, hn⟩, rfl⟩ := hc
  · simpa using h k (by omega) hn
  · simpa using h _ hn (by omega)

theorem missing?_of_signature {all : List Constructor} (ha : r.signature? t = some all) :
    r.missing? t listed = all.find? (fun c => !decide (c ∈ listed)) := by
  unfold missing?
  rw [ha]

/-- What is found builds values of the type and is not listed. -/
theorem builds_of_missing? (hr : r.types.WellFormed) (h : r.missing? t listed = some c) :
    ∃ us, r.Builds t c us ∧ c ∉ listed := by
  cases ha : r.signature? t with
  | some all =>
    rw [missing?_of_signature ha] at h
    obtain ⟨us, hus⟩ := r.exists_builds_of_mem_signature hr ha (List.mem_of_find?_eq_some h)
    exact ⟨us, hus, by simpa using List.find?_some h⟩
  | none =>
    unfold missing? at h
    rw [ha] at h
    cases t with
    | prim p =>
      obtain ⟨⟨low, high⟩, hrange, hfound⟩ := Option.bind_eq_some_iff.1 h
      obtain ⟨hlow, hhigh⟩ := Primitive.zero_in_range hrange
      obtain ⟨n, rfl, hl, hh, hfresh⟩ := missingInt?_eq_some hlow hhigh hfound
      exact ⟨[], .literal (.int hrange hl hh), hfresh⟩
    | _ => cases h

/-- A switch that needs a fallback leaves a constructor of the type out, which is found. -/
theorem isSome_missing? (hb : r.Builds t d types) (hd : d.isCounted = true)
    (hsw : Matrix.switchCases r t heads = (listed, false))
    (hint : ∀ p low high, t = .prim p → p.range? = some (low, high) →
      ∃ n, low ≤ n ∧ n ≤ high ∧ Constructor.literal (.int n) ∉ heads) :
    (r.missing? t listed).isSome = true := by
  cases ha : r.signature? t with
  | some all =>
    have hcomplete := not_congr (Matrix.complete_iff hsw)
    simp only [Bool.false_eq_true, not_false_eq_true, true_iff, not_exists, not_and,
      not_forall] at hcomplete
    obtain ⟨c, hc, hn⟩ := hcomplete all ha
    rw [missing?_of_signature ha, List.find?_isSome]
    exact ⟨c, hc, by simpa using hn⟩
  | none =>
    have hlisted : listed = heads := by
      simp only [Matrix.switchCases, ha, Prod.mk.injEq] at hsw
      exact hsw.1.symm
    cases hb with
    | literal hk =>
      cases hk with
      | unit | bool _ => cases ha
      | @int _ low high p hrange _ _ =>
        simp only [missing?, ha, hrange, Option.bind_some]
        exact isSome_missingInt? (hlisted ▸ hint p low high rfl hrange)
      | f32 _ | f64 _ | string _ => cases hd
    | tuple items => cases ha
    | variant args hreg _ => simp [signature?, hreg] at ha

end Registries

/-! ## The search for a value that no arm covers -/

namespace Registries

variable {r : Registries} {scrutinee : Ty} {path found : TreePath} {o : Occurrence}
  {cases : List (Constructor × DecisionTree)} {fallback : Option DecisionTree}

theorem exists_of_failPathInCases (h : r.failPathInCases scrutinee path o cases = some found) :
    ∃ c ∈ cases, r.failPath scrutinee (path ++ [(o, c.1)]) c.2 = some found := by
  induction cases with
  | nil => cases h
  | cons c cases ih =>
    obtain ⟨c, tree⟩ := c
    simp only [failPathInCases] at h
    split at h
    · rename_i first hfirst
      exact ⟨(c, tree), List.mem_cons_self, hfirst.trans h⟩
    · obtain ⟨d, hd, hfound⟩ := ih h
      exact ⟨d, List.mem_cons_of_mem _ hd, hfound⟩

/-- Where a search can go at a switch. -/
theorem failPath_switch (h : r.failPath scrutinee path (.switch o cases fallback) = some found) :
    (∃ c ∈ cases, r.failPath scrutinee (path ++ [(o, c.1)]) c.2 = some found) ∨
    (∃ tree c, fallback = some tree ∧
      r.missing? (r.typeAt scrutinee path o) (cases.map (·.1)) = some c ∧
      r.failPath scrutinee (path ++ [(o, c)]) tree = some found) ∨
    (∃ tree, fallback = some tree ∧
      r.missing? (r.typeAt scrutinee path o) (cases.map (·.1)) = none ∧
      r.failPath scrutinee path tree = some found) := by
  cases fallback with
  | none => exact .inl (exists_of_failPathInCases h)
  | some tree =>
    rw [failPath] at h
    split at h
    · rename_i first hfirst
      exact .inl (exists_of_failPathInCases (hfirst.trans h))
    · split at h
      · rename_i c hc
        exact .inr (.inl ⟨tree, c, rfl, hc, h⟩)
      · rename_i hc
        exact .inr (.inr ⟨tree, rfl, hc, h⟩)

end Registries

/-- The subjects found at columns, with values of the types of the columns. -/
def Sited (r : Registries) (root : Subject) (columns : List Column) (ss : List Subject) : Prop :=
  List.Forall₂ (fun column s => root.at? column.occurrence = some s ∧
    r.HasType s.value column.ty) columns ss

theorem Sited.subject {r : Registries} {root : Subject} {columns : List Column} {ss : List Subject}
    {i : Nat} {column : Column} (h : Sited r root columns ss) (hk : columns[i]? = some column) :
    ∃ s, ss[i]? = some s ∧ root.at? column.occurrence = some s ∧ r.HasType s.value column.ty := by
  obtain ⟨hi, he⟩ := List.getElem?_eq_some_iff.1 hk
  have hi' : i < ss.length := h.length_eq ▸ hi
  have hs := List.Forall₂.get h hi hi'
  exact ⟨ss[i], List.getElem?_eq_getElem hi', by simpa [he] using hs⟩

/-- The fields of a value that is built with a constructor stand at the columns for them. -/
theorem sited_fields {r : Registries} {root s : Subject} {o : Occurrence} {t : Ty}
    {c : Constructor} {types : List Ty} (ho : root.at? o = some s) (ht : r.HasType s.value t)
    (hb : r.Builds t c types) (hv : s.value.constructor? = some c) :
    Sited r root (fieldColumns o types) s.fields := by
  obtain ⟨us, hus, hparts⟩ := ht.exists_built hb hv
  obtain rfl : us = types := hus.fieldTypes_eq.symm.trans hb.fieldTypes_eq
  have hlen : s.fields.length = s.value.parts.length := by simp [Subject.fields]
  refine List.forall₂_iff_get.2 ⟨by simp [fieldColumns, hlen, hparts.length_eq], fun j _ hj => ?_⟩
  have hpart : j < s.value.parts.length := hlen ▸ hj
  have hget : s.fields[j]? = some s.fields[j] := List.getElem?_eq_getElem hj
  constructor
  · simp [fieldColumns, Subject.at?, ho, hget]
  · have := List.Forall₂.get hparts hpart (hparts.length_eq ▸ hpart)
    simpa [fieldColumns, Subject.fields] using this

namespace Matrix

variable {r : Registries} {scrutinee : Ty} {m : Matrix} {path found : TreePath}

/-- Rows accept what is built with a constructor as those for its fields do. -/
theorem guarded_of_within {root : Subject} {ss : List Subject} {i : Nat} {column : Column}
    {c : Constructor} {types : List Ty} (hm : m.Fits r) (hn : m.Nameless)
    (ha : m.activeIn? i = none) (hs : Sited r root m.columns ss)
    (hk : m.columns[i]? = some column) (hb : r.Builds column.ty c types) {s : Subject}
    (hi : ss[i]? = some s) (ho : root.at? column.occurrence = some s)
    (ht : r.HasType s.value column.ty) (hv : s.value.constructor? = some c)
    (h : ∀ ss', Sited r root (m.within r i c).columns ss' →
      ∀ k ∈ (m.within r i c).accepting ss', k.guarded = true) :
    ∀ k ∈ m.accepting ss, k.guarded = true := by
  have hfields := sited_fields ho ht hb hv
  have hlen : s.fields.length = (r.fieldTypes column.ty c).length := by
    rw [hb.fieldTypes_eq, ← hfields.length_eq]
    simp [fieldColumns]
  rw [← accepting_within hm hn ha hk hi hv hlen]
  refine h _ ?_
  rw [within_columns hk hb]
  exact forall₂_splice i hs hfields

/-- Whether a search that has found a way from a matrix on goes on from where it was, to a way that fits
the type of the scrutinee; and whether subjects that are built as it says are accepted by rows with guards
only, if some condition holds. -/
structure Evades (r : Registries) (scrutinee : Ty) (path found : TreePath) (m : Matrix) (ok : Prop) :
    Prop where
  keeps : path ⊆ found
  fits : found.Fits r scrutinee
  guarded : ok → ∀ root ss, Sited r root m.columns ss → found.FollowedBy root →
    ∀ c ∈ m.accepting ss, c.guarded = true

section

variable {path' : TreePath} {ok ok' : Prop} {i : Nat} {column : Column} {c : Constructor}
  {types : List Ty}

theorem Evades.of_bindNames (h : Evades r scrutinee path found m.bindNames ok) :
    Evades r scrutinee path found m ok :=
  ⟨h.keeps, h.fits, fun hok root ss hs => m.accepting_bindNames ss ▸ h.guarded hok root ss hs⟩

/-- The search may go on within what a constructor builds, if that is what the subject is built with. -/
theorem Evades.of_within (hm : m.Fits r) (hn : m.Nameless) (ha : m.activeIn? i = none)
    (hk : m.columns[i]? = some column) (hb : r.Builds column.ty c types) (hpath : path ⊆ path')
    (hok : ok → ok') (h : Evades r scrutinee path' found (m.within r i c) ok')
    (hv : ∀ root s, found.FollowedBy root → root.at? column.occurrence = some s →
      r.HasType s.value column.ty → s.value.constructor? = some c) :
    Evades r scrutinee path found m ok := by
  refine ⟨fun e he => h.keeps (hpath he), h.fits, fun hopen root ss hs hf => ?_⟩
  obtain ⟨s, hi, hat, htype⟩ := hs.subject hk
  exact guarded_of_within hm hn ha hs hk hb hi hat htype (hv root s hf hat htype)
    fun ss' hs' => h.guarded (hok hopen) root ss' hs' hf

/-- The search may go on without a column, if the subject there is built with none of the constructors
that are tested. -/
theorem Evades.of_fallback (hm : m.Fits r) (hn : m.Nameless) (ha : m.activeIn? i = none)
    (hk : m.columns[i]? = some column) (hpath : path ⊆ path') (hok : ok → ok')
    (h : Evades r scrutinee path' found (m.fallback i) ok')
    (hv : ok → ∀ root s, found.FollowedBy root → root.at? column.occurrence = some s →
      ∀ e ∈ m.heads i, s.value.constructor? ≠ some e) : Evades r scrutinee path found m ok := by
  refine ⟨fun e he => h.keeps (hpath he), h.fits, fun hopen root ss hs hf => ?_⟩
  obtain ⟨s, hi, hat, -⟩ := hs.subject hk
  rw [← accepting_fallback hm hn ha hk hi (hv hopen root s hf hat)]
  exact h.guarded (hok hopen) root _ (forall₂_splice i hs .nil) hf

theorem Evades.of_guard {row : MatchRow} {rows : List MatchRow} (hm : m.Fits r) (hn : m.Nameless)
    (hrows : m.rows = row :: rows) (hw : ∀ c ∈ row.cells, c.isWild = true) (hg : row.guarded = true)
    (hok : ok → ok') (h : Evades r scrutinee path found { m with rows } ok') :
    Evades r scrutinee path found m ok := by
  refine ⟨h.keeps, h.fits, fun hopen root ss hs hf => ?_⟩
  rw [accepting_of_wild hm hn hs.length_eq hrows hw]
  exact List.forall_mem_cons.2 ⟨hg, h.guarded (hok hopen) root ss hs hf⟩

end

/-- A search through the tree of a matrix goes on from where it was, to a way that fits the type of the
scrutinee. If no column of integers lists all of them, subjects that are built as it says are accepted by
rows with guards only. -/
theorem failPath_compile (hr : r.types.WellFormed) (hm : m.Fits r)
    (ht : m.TestsOnly Constructor.isCounted) (hp : path.Reads r scrutinee m.columns)
    (h : r.failPath scrutinee path (m.compile r) = some found) :
    Evades r scrutinee path found m (∀ n, Arises r m n → n.IntegersOpen) := by
  induction m using compile_induction r generalizing path with
  | _ m ih =>
    have hn := hm.nameless_bindNames
    refine .of_bindNames ?_
    replace hm := hm.bindNames
    replace ht := ht.bindNames
    replace hp : path.Reads r scrutinee m.bindNames.columns := hp
    have hopen : (∀ n, Arises r m n → n.IntegersOpen) → m.bindNames.IntegersOpen :=
      fun ho => ho _ (.self m)
    have hrest : ∀ n ∈ (m.bindNames.step r).rest, (∀ k, Arises r m k → k.IntegersOpen) →
        ∀ k, Arises r n k → k.IntegersOpen := fun n hn ho k hk => ho k (.step hn hk)
    rw [compile_eq] at h
    have hst := m.bindNames.steps r
    generalize m.bindNames.step r = st at ih hst h hrest
    generalize m.bindNames = n at hm hn ht hp hopen hst ⊢
    generalize (∀ k, Arises r m k → k.IntegersOpen) = ok at hopen hrest ⊢
    cases hst with
    | fail hrows =>
      cases h
      exact ⟨List.Subset.refl _, hp.toFits, fun _ _ _ _ _ c hc => by simp [accepting, hrows] at hc⟩
    | leaf => cases h
    | @guard row rows hrows hw hg =>
      have hmem : ({ n with rows } : Matrix) ∈
          (MatchStep.guard row.arm row.bindings { n with rows }).rest := by simp [MatchStep.rest]
      exact .of_guard hm hn hrows hw hg (hrest _ hmem)
        (ih _ hmem (hm.tail hrows) (ht.tail hrows) hp h)
    | active _ _ ha => cases (ht.activeIn? _).symm.trans ha
    | @tuple row i k args hrow hc ha hh =>
      obtain ⟨⟨o, t⟩, hk, types, hb⟩ := hm.builds hrow hc
      have hmem : n.within r i (.tuple k) ∈ (MatchStep.goOn (n.within r i (.tuple k))).rest := by
        simp [MatchStep.rest]
      have hcolumns := within_columns hk hb
      cases hb with
      | tuple _ =>
        refine .of_within hm hn ha hk (.tuple types) (List.Subset.refl _) (hrest _ hmem)
          (ih _ hmem (hm.within hk _) (ht.within _) (hcolumns ▸ hp.openTuple hk) h)
          fun _ s _ _ htype => ?_
        obtain ⟨c, hc, hv⟩ := htype.exists_constructor hr.named
          (show r.signature? (.tuple types) = some [.tuple types.length] from rfl)
        rw [hv, List.mem_singleton.1 hc]
    | @switch row i d args listed complete hrow hc ha hsw =>
      obtain ⟨column, hk, types, hb⟩ := hm.builds hrow hc
      have hd : d.isCounted = true := (ht.test hrow hc).1
      rw [columnAt_eq hk] at hsw
      have htype : r.typeAt scrutinee path column.occurrence = column.ty :=
        (hp.known column (List.mem_of_getElem? hk)).typeAt_eq
      have hmap : ((listed.map (fun c => (c, n.within r i c))).map
          (fun c => (c.1, c.2.compile r))).map (·.1) = listed := by simp [Function.comp_def]
      simp only [columnAt_eq hk] at h
      rcases Registries.failPath_switch h with ⟨_, hcase, h⟩ | ⟨tree, c, htree, hmissing, h⟩ |
          ⟨tree, htree, hmissing, h⟩
      · -- the case of a constructor that is listed
        simp only [List.map_map, List.mem_map, Function.comp_apply] at hcase
        obtain ⟨c, hc, rfl⟩ := hcase
        obtain ⟨us, hus⟩ := hm.builds_of_listed hk hsw hc
        have hin := ih _ (within_mem_rest hc) (hm.within hk c) (ht.within c)
          (within_columns hk hus ▸ hp.fix hk hus) h
        exact .of_within hm hn ha hk hus (List.subset_append_left _ _)
          (hrest _ (within_mem_rest hc)) hin
          fun root s hf ho _ => hf (column.occurrence, c) (hin.keeps (by simp)) s ho
      all_goals
        obtain ⟨rfl, rfl⟩ : complete = false ∧ tree = (n.fallback i).compile r := by
          cases complete <;> simp_all
        have hmem : n.fallback i ∈ (MatchStep.switch (n.columnAt i).occurrence
            (listed.map (fun c => (c, n.within r i c))) (some (n.fallback i))).rest := by
          simp [MatchStep.rest]
        rw [hmap, htype] at hmissing
      · -- a constructor that is not listed
        obtain ⟨us, hus, hfresh⟩ := Registries.builds_of_missing? hr hmissing
        have hin := ih _ hmem (hm.fallback) ht.fallback
          ((hp.fix hk hus).sublist (splice_nil_sublist ..)) h
        refine .of_fallback hm hn ha hk (List.subset_append_left _ _) (hrest _ hmem) hin
          fun _ root s hf ho e he hv => ?_
        have hv' := hf (column.occurrence, c) (hin.keeps (by simp)) s ho
        obtain rfl := Option.some.inj (hv.symm.trans hv')
        exact hfresh (mem_listed hr.named hsw hus he)
      · -- nothing to name, as all integers are listed
        have hin := ih _ hmem (hm.fallback) ht.fallback (hp.sublist (splice_nil_sublist_self ..)) h
        refine .of_fallback hm hn ha hk (List.Subset.refl _) (hrest _ hmem) hin fun hok => ?_
        have := Registries.isSome_missing? hb hd hsw fun p low high =>
          hopen hok i column p low high hk
        simp [hmissing] at this

end Matrix

end RowCheck
