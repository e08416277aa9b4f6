import Mathlib.Data.Set.Function
import RowCheck.Proofs.Principal.Canonical
import RowCheck.Proofs.Types.Renaming

/-!
Canonical schemes as normal forms. Closed schemes have the same canonical scheme if and only if they are
the same but for the names of the quantified variables that they use. What is quantified and not used
is dropped.
-/
namespace RowCheck

/-! ## Numbering by first occurrence -/

section

variable {l : List Nat} {h : Nat → Nat} {v i : Nat}

theorem nodup_firstOccurrences (l : List Nat) : (firstOccurrences l).Nodup := by
  suffices hfold : ∀ l seen : List Nat, seen.Nodup →
      (l.foldl (fun seen x => if x ∈ seen then seen else seen ++ [x]) seen).Nodup from
    hfold l [] List.nodup_nil
  intro l
  induction l with
  | nil => exact fun _ => id
  | cons y l ih =>
    intro seen hseen
    refine ih _ ?_
    dsimp only
    split
    · exact hseen
    · rename_i hy
      exact List.nodup_append.2 ⟨hseen, List.nodup_singleton y, fun x hx z hz => by
        obtain rfl := List.mem_singleton.1 hz
        exact fun e => hy (e ▸ hx)⟩

/-- The numbers of the elements of a list, by their first occurrence. -/
def numbering (l : List Nat) : SortedMap Nat Nat := .ofList (firstOccurrences l).zipIdx

theorem get?_numbering : (numbering l).get? v = some i ↔ (firstOccurrences l)[i]? = some v := by
  have hkeys : (firstOccurrences l).zipIdx.map (·.1) = firstOccurrences l := List.zipIdx_map_fst ..
  have hiff := SortedMap.get?_foldl_insert_iff (m := ∅) (k := v) (v := i)
    (hkeys.symm ▸ nodup_firstOccurrences l)
  rw [SortedMap.get?_empty] at hiff
  exact hiff.trans (by simp [List.mem_zipIdx_iff_getElem?])

/-- The number of an element of a list. -/
def numberOf (l : List Nat) (v : Nat) : Nat := ((numbering l).get? v).getD v

theorem numberOf_eq (hi : (firstOccurrences l)[i]? = some v) : numberOf l v = i := by
  rw [numberOf, get?_numbering.2 hi, Option.getD_some]

theorem getElem?_numberOf (hv : v ∈ l) : (firstOccurrences l)[numberOf l v]? = some v := by
  obtain ⟨i, hi⟩ := List.getElem?_of_mem (mem_firstOccurrences hv)
  rwa [numberOf_eq hi]

theorem numberOf_lt (hv : v ∈ l) : numberOf l v < (firstOccurrences l).length :=
  (List.getElem?_eq_some_iff.1 (getElem?_numberOf hv)).1

theorem numberOf_injOn (l : List Nat) : Set.InjOn (numberOf l) {v | v ∈ l} := by
  intro v hv w hw he
  have hv := getElem?_numberOf hv
  rw [he, getElem?_numberOf hw] at hv
  exact (Option.some.inj hv).symm

theorem exists_numberOf_eq (hi : i < (firstOccurrences l).length) : ∃ v ∈ l, numberOf l v = i :=
  ⟨(firstOccurrences l)[i], mem_of_mem_firstOccurrences (List.getElem_mem hi),
    numberOf_eq (List.getElem?_eq_getElem hi)⟩

/-- Renaming the elements leaves their numbers. -/
theorem numberOf_map (hinj : Set.InjOn h {v | v ∈ l}) (hv : v ∈ l) :
    numberOf (l.map h) (h v) = numberOf l v := by
  refine numberOf_eq ?_
  rw [firstOccurrences_map fun x hx y hy => hinj hx hy, List.getElem?_map, getElem?_numberOf hv]
  rfl

theorem length_firstOccurrences_map (hinj : Set.InjOn h {v | v ∈ l}) :
    (firstOccurrences (l.map h)).length = (firstOccurrences l).length := by
  rw [firstOccurrences_map fun x hx y hy => hinj hx hy, List.length_map]

end

namespace Ty

variable {f : TyVar → TyVar} {g : RowVar → RowVar}

theorem rowsInOrderList_eq (ts : List Ty) : rowsInOrderList ts = ts.flatMap rowsInOrder := by
  induction ts with
  | nil => rfl
  | cons t ts ih => simp [rowsInOrderList, ih]

/-- The rows of an arrow are listed in another place, but they are the same rows. -/
theorem mem_rowsInOrder {t : Ty} {v : RowVar} : v ∈ t.rowsInOrder ↔ v ∈ t.rows := by
  rw [mem_rows]
  induction t using Ty.induction with
  | fn p r e hp hr =>
    simp only [rowsInOrder, effects, List.mem_append, hp, hr, Option.mem_toList, List.mem_cons,
      or_and_right, exists_or, exists_eq_left]
    exact Iff.of_eq (by ac_rfl)
  | tuple items ih | named _ items ih =>
    simp only [rowsInOrder, rowsInOrderList_eq, effects, effectsList_eq, List.mem_flatMap]
    constructor
    · rintro ⟨t, ht, hv⟩
      obtain ⟨e, he, hv⟩ := (ih t ht).1 hv
      exact ⟨e, ⟨t, ht, he⟩, hv⟩
    · rintro ⟨e, ⟨t, ht, he⟩, hv⟩
      exact ⟨t, ht, (ih t ht).2 ⟨e, he, hv⟩⟩
  | ref _ inner ih => exact ih
  | _ => simp [rowsInOrder, effects]

theorem rowsInOrder_renamed (t : Ty) : (t.renamed f g).rowsInOrder = t.rowsInOrder.map g := by
  induction t using Ty.induction with
  | fn p r e hp hr =>
    have htail : (e.renamed g).tail.toList = e.tail.toList.map g := by
      cases h : e.tail <;> simp [Row.renamed, h]
    rw [rowsInOrder, List.map_append, List.map_append, ← hp, ← hr, ← htail]
    rfl
  | tuple items ih | named _ items ih =>
    simp only [renamed, mapVars, mapVarsList_eq_map, rowsInOrder, rowsInOrderList_eq,
      List.flatMap_map, List.map_flatMap]
    exact List.flatMap_congr ih
  | ref _ inner ih => exact ih
  | _ => rfl

end Ty

/-! ## Schemes that are the same but for names -/

namespace Scheme

variable {s s' s'' : Scheme} {f f' : TyVar → TyVar} {g g' : RowVar → RowVar}

/-- Whether all variables of a scheme are quantified. -/
structure Closed (s : Scheme) : Prop where
  typeVars : s.ClosesTypes
  rowVars : ∀ v ∈ s.ty.rows, v ∈ s.rowVars

/-- Whether the type of a scheme is that of another one with its variables renamed. The bounds are
compared on the variables that occur. -/
structure RenamedBy (f : TyVar → TyVar) (g : RowVar → RowVar) (s s' : Scheme) : Prop where
  ty : s'.ty = s.ty.renamed f g
  numeric : ∀ v ∈ s.ty.vars, v ∈ s.numeric ↔ f v ∈ s'.numeric

/-- Whether two schemes are equal up to a bijective renaming of their quantified variables. -/
def EqualUpToNames (s s' : Scheme) : Prop :=
  ∃ f g, Set.BijOn f {v | v ∈ s.typeVars} {v | v ∈ s'.typeVars} ∧
    Set.BijOn g {v | v ∈ s.rowVars} {v | v ∈ s'.rowVars} ∧ RenamedBy f g s s'

/-- The quantified type variables that occur in a scheme. -/
def usedTypeVars (s : Scheme) : Set TyVar := {v | v ∈ s.typeVars ∧ v ∈ s.ty.vars}

/-- The quantified row variables that occur in a scheme. -/
def usedRowVars (s : Scheme) : Set RowVar := {v | v ∈ s.rowVars ∧ v ∈ s.ty.rows}

/-- Whether two schemes are equal up to a bijective renaming of those of their quantified variables that
occur. -/
def SameUses (s s' : Scheme) : Prop :=
  ∃ f g, Set.BijOn f s.usedTypeVars s'.usedTypeVars ∧ Set.BijOn g s.usedRowVars s'.usedRowVars ∧
    RenamedBy f g s s'

theorem Closed.usedTypeVars_eq (h : s.Closed) : s.usedTypeVars = {v | v ∈ s.ty.vars} :=
  Set.ext fun v => ⟨And.right, fun hv => ⟨h.typeVars v hv, hv⟩⟩

theorem Closed.usedRowVars_eq (h : s.Closed) : s.usedRowVars = {v | v ∈ s.ty.rows} :=
  Set.ext fun v => ⟨And.right, fun hv => ⟨h.rowVars v hv, hv⟩⟩

/-- Between closed schemes, a renaming that keeps variables apart is a bijection of those that occur. -/
theorem RenamedBy.sameUses (h : RenamedBy f g s s') (hs : s.Closed) (hs' : s'.Closed)
    (hf : Set.InjOn f {v | v ∈ s.ty.vars}) (hg : Set.InjOn g {v | v ∈ s.ty.rows}) :
    s.SameUses s' := by
  rw [SameUses, hs.usedTypeVars_eq, hs'.usedTypeVars_eq, hs.usedRowVars_eq, hs'.usedRowVars_eq, h.ty]
  refine ⟨f, g, ⟨fun v hv => ?_, hf, fun w hw => ?_⟩, ⟨fun v hv => ?_, hg, fun w hw => ?_⟩, h⟩
  · simpa using ⟨v, hv, rfl⟩
  · simpa using hw
  · exact Ty.mem_rows_renamed.2 ⟨v, hv, rfl⟩
  · obtain ⟨v, hv, rfl⟩ := Ty.mem_rows_renamed.1 hw
    exact ⟨v, hv, rfl⟩

theorem SameUses.symm (h : s.SameUses s') (hs : s.Closed) (hs' : s'.Closed) : s'.SameUses s := by
  obtain ⟨f, g, hf, hg, hren⟩ := h
  have hf' := hf.invOn_invFunOn
  have hg' := hg.invOn_invFunOn
  rw [hs.usedTypeVars_eq, hs'.usedTypeVars_eq] at hf hf'
  rw [hs.usedRowVars_eq, hs'.usedRowVars_eq] at hg hg'
  refine RenamedBy.sameUses (f := Function.invFunOn f {v | v ∈ s.ty.vars})
    (g := Function.invFunOn g {v | v ∈ s.ty.rows}) ⟨?_, fun w hw => ?_⟩ hs' hs hf'.2.injOn
    hg'.2.injOn
  · rw [hren.ty, Ty.renamed_renamed]
    exact (Ty.renamed_eq_self (fun v hv => hf'.1 hv) fun v hv => hg'.1 hv).symm
  · obtain ⟨v, hv, rfl⟩ := hf.surjOn hw
    rw [hf'.1 hv]
    exact (hren.numeric v hv).symm

theorem SameUses.trans (h : s.SameUses s') (h' : s'.SameUses s'') (hs : s.Closed)
    (hs' : s'.Closed) (hs'' : s''.Closed) : s.SameUses s'' := by
  obtain ⟨f, g, hf, hg, hren⟩ := h
  obtain ⟨f', g', hf', hg', hren'⟩ := h'
  rw [hs.usedTypeVars_eq, hs'.usedTypeVars_eq] at hf
  rw [hs.usedRowVars_eq, hs'.usedRowVars_eq] at hg
  rw [hs'.usedTypeVars_eq] at hf'
  rw [hs'.usedRowVars_eq] at hg'
  refine RenamedBy.sameUses (f := f' ∘ f) (g := g' ∘ g) ⟨?_, fun v hv => ?_⟩ hs hs''
    (hf'.injOn.comp hf.injOn hf.mapsTo) (hg'.injOn.comp hg.injOn hg.mapsTo)
  · rw [hren'.ty, hren.ty, Ty.renamed_renamed]
  · exact (hren.numeric v hv).trans (hren'.numeric (f v) (hf.mapsTo hv))

/-! ## Canonical schemes -/

theorem ty_canonical (s : Scheme) :
    s.canonical.ty = s.ty.renamed (numberOf s.ty.vars) (numberOf s.ty.rowsInOrder) := by
  refine Ty.substitute_eq_renamed (fun v _ => ?_) fun v _ => rfl
  rw [SortedMap.get?_mapValues, numberOf, numbering]
  cases (SortedMap.ofList (firstOccurrences s.ty.vars).zipIdx).get? v <;> rfl

theorem mem_numeric_canonical {i : TyVar} :
    i ∈ s.canonical.numeric ↔ ∃ v ∈ s.ty.vars, v ∈ s.numeric ∧ numberOf s.ty.vars v = i := by
  show i ∈ SortedSet.ofList _ ↔ _
  rw [SortedSet.mem_ofList, List.mem_filterMap]
  constructor
  · rintro ⟨v, hv, hi⟩
    have hi := get?_numbering.1 hi
    exact ⟨v, mem_of_mem_firstOccurrences (List.mem_of_getElem? hi), hv, numberOf_eq hi⟩
  · rintro ⟨v, hv, hnum, rfl⟩
    exact ⟨v, hnum, get?_numbering.2 (getElem?_numberOf hv)⟩

/-- The canonical scheme of any scheme is closed. -/
theorem canonical_closed (s : Scheme) : s.canonical.Closed where
  typeVars v hv := by
    rw [ty_canonical, Ty.vars_renamed, List.mem_map] at hv
    obtain ⟨w, hw, rfl⟩ := hv
    exact List.mem_range.2 (numberOf_lt hw)
  rowVars v hv := by
    rw [ty_canonical, Ty.mem_rows_renamed] at hv
    obtain ⟨w, hw, rfl⟩ := hv
    exact List.mem_range.2 (numberOf_lt (Ty.mem_rowsInOrder.2 hw))

/-- A canonical scheme uses all variables that it quantifies. -/
theorem mem_typeVars_canonical {v : TyVar} :
    v ∈ s.canonical.typeVars ↔ v ∈ s.canonical.ty.vars := by
  refine ⟨fun hv => ?_, s.canonical_closed.typeVars v⟩
  obtain ⟨w, hw, rfl⟩ := exists_numberOf_eq (List.mem_range.1 hv)
  rw [ty_canonical, Ty.vars_renamed]
  exact List.mem_map_of_mem hw

theorem mem_rowVars_canonical {v : RowVar} :
    v ∈ s.canonical.rowVars ↔ v ∈ s.canonical.ty.rows := by
  refine ⟨fun hv => ?_, s.canonical_closed.rowVars v⟩
  obtain ⟨w, hw, rfl⟩ := exists_numberOf_eq (List.mem_range.1 hv)
  rw [ty_canonical, Ty.mem_rows_renamed]
  exact ⟨w, Ty.mem_rowsInOrder.1 hw, rfl⟩

/-- A closed scheme is its canonical scheme but for names. -/
theorem sameUses_canonical (hs : s.Closed) : s.SameUses s.canonical := by
  refine RenamedBy.sameUses ⟨s.ty_canonical, fun v hv => ?_⟩ hs s.canonical_closed
    (numberOf_injOn _) ((numberOf_injOn _).mono fun v hv => Ty.mem_rowsInOrder.2 hv)
  rw [mem_numeric_canonical]
  refine ⟨fun hnum => ⟨v, hv, hnum, rfl⟩, ?_⟩
  rintro ⟨w, hw, hnum, he⟩
  exact numberOf_injOn _ hw hv he ▸ hnum

/-- Schemes that are the same but for names are numbered alike. -/
theorem RenamedBy.canonical_eq (h : RenamedBy f g s s') (hf : Set.InjOn f {v | v ∈ s.ty.vars})
    (hg : Set.InjOn g {v | v ∈ s.ty.rows}) : s.canonical = s'.canonical := by
  have hg : Set.InjOn g {v | v ∈ s.ty.rowsInOrder} := hg.mono fun v hv => Ty.mem_rowsInOrder.1 hv
  have hvars : s'.ty.vars = s.ty.vars.map f := by rw [h.ty, Ty.vars_renamed]
  have hrows : s'.ty.rowsInOrder = s.ty.rowsInOrder.map g := by rw [h.ty, Ty.rowsInOrder_renamed]
  have hty : s.canonical.ty = s'.canonical.ty := by
    rw [ty_canonical, ty_canonical, hvars, hrows, h.ty, Ty.renamed_renamed]
    exact Ty.renamed_congr (fun v hv => (numberOf_map hf hv).symm) fun v hv =>
      (numberOf_map hg (Ty.mem_rowsInOrder.2 hv)).symm
  have hnumeric : s.canonical.numeric = s'.canonical.numeric := by
    refine SortedSet.ext_mem fun i => ?_
    rw [mem_numeric_canonical, mem_numeric_canonical, hvars]
    simp only [List.mem_map, exists_exists_and_eq_and]
    refine exists_congr fun v => and_congr_right fun hv => ?_
    rw [h.numeric v hv, numberOf_map hf hv]
  have htypeVars : s.canonical.typeVars = s'.canonical.typeVars :=
    congrArg List.range (hvars ▸ (length_firstOccurrences_map hf).symm)
  have hrowVars : s.canonical.rowVars = s'.canonical.rowVars :=
    congrArg List.range (hrows ▸ (length_firstOccurrences_map hg).symm)
  exact Scheme.mk.injEq .. ▸ ⟨htypeVars, hrowVars, hnumeric, hty⟩

theorem SameUses.canonical_eq (h : s.SameUses s') (hs : s.Closed) : s.canonical = s'.canonical := by
  obtain ⟨f, g, hf, hg, hren⟩ := h
  rw [hs.usedTypeVars_eq] at hf
  rw [hs.usedRowVars_eq] at hg
  exact hren.canonical_eq hf.injOn hg.injOn

/-- Where all quantified variables occur, the schemes are equal up to a bijective renaming of all that
they quantify. -/
theorem sameUses_iff_equalUpToNames (hs : ∀ v ∈ s.typeVars, v ∈ s.ty.vars)
    (hsr : ∀ v ∈ s.rowVars, v ∈ s.ty.rows) (hs' : ∀ v ∈ s'.typeVars, v ∈ s'.ty.vars)
    (hsr' : ∀ v ∈ s'.rowVars, v ∈ s'.ty.rows) : s.SameUses s' ↔ s.EqualUpToNames s' := by
  have hused {s : Scheme} (h : ∀ v ∈ s.typeVars, v ∈ s.ty.vars) :
      s.usedTypeVars = {v | v ∈ s.typeVars} := Set.ext fun v => ⟨And.left, fun hv => ⟨hv, h v hv⟩⟩
  have husedRows {s : Scheme} (h : ∀ v ∈ s.rowVars, v ∈ s.ty.rows) :
      s.usedRowVars = {v | v ∈ s.rowVars} := Set.ext fun v => ⟨And.left, fun hv => ⟨hv, h v hv⟩⟩
  rw [SameUses, EqualUpToNames, hused hs, hused hs', husedRows hsr, husedRows hsr']

/-- Two closed schemes have the same canonical scheme if and only if they are equal up to a bijective
renaming of the quantified variables that they use. The canonical scheme is the scheme itself but for
such a renaming, has no other quantified variables than those, and is its own canonical scheme. -/
theorem canonical_eq_iff {s s' : Scheme} (hs : s.Closed) (hs' : s'.Closed) :
    (s.canonical = s'.canonical ↔ s.SameUses s') ∧ s.SameUses s.canonical ∧
    s.canonical.canonical = s.canonical ∧
    (∀ v, v ∈ s.canonical.typeVars ↔ v ∈ s.canonical.ty.vars) ∧
    (∀ v, v ∈ s.canonical.rowVars ↔ v ∈ s.canonical.ty.rows) := by
  refine ⟨⟨fun h => ?_, fun h => h.canonical_eq hs⟩, sameUses_canonical hs,
    ((sameUses_canonical hs).canonical_eq hs).symm, fun _ => mem_typeVars_canonical,
    fun _ => mem_rowVars_canonical⟩
  have hback := (sameUses_canonical hs').symm hs' s'.canonical_closed
  exact (h ▸ sameUses_canonical hs).trans hback hs s'.canonical_closed hs'

/-- The scheme of a numeric operation under which two arrows share a row, where the numbers of the type
variables are against the order of their occurrence. -/
def crossed : Scheme :=
  ⟨[0, 1], [0, 1], .ofList [1],
    .fn (.fn (.var 1) (.var 0) (.ofVar 1)) (.fn (.var 0) (.var 1) (.ofVar 0)) (.ofVar 1)⟩

/-- The same scheme with other names. -/
def straight : Scheme :=
  ⟨[4, 7], [2, 5], .ofList [4],
    .fn (.fn (.var 4) (.var 7) (.ofVar 2)) (.fn (.var 7) (.var 4) (.ofVar 5)) (.ofVar 2)⟩

/-- Numbering them swaps the numbers of the one, and gives both the same scheme. -/
theorem crossed_sameUses_straight :
    crossed.SameUses straight ∧ crossed.canonical.canonical = crossed.canonical ∧
      crossed.canonical.ty =
        .fn (.fn (.var 0) (.var 1) (.ofVar 0)) (.fn (.var 1) (.var 0) (.ofVar 1)) (.ofVar 0) := by
  have hcrossed : crossed.Closed := ⟨show ∀ v ∈ _, v ∈ _ by decide, by decide⟩
  have hstraight : straight.Closed := ⟨show ∀ v ∈ _, v ∈ _ by decide, by decide⟩
  obtain ⟨hiff, -, hidem, -⟩ := canonical_eq_iff hcrossed hstraight
  exact ⟨hiff.1 (by decide), hidem, by decide⟩

/-- A scheme that quantifies a variable without using it. -/
def spare : Scheme := ⟨[0, 1], [], ∅, .var 0⟩

/-- The spare variable is dropped, so no bijection takes the quantified variables of the scheme to those
of its canonical scheme, which has the same canonical scheme. -/
theorem spare_not_equalUpToNames :
    spare.Closed ∧ spare.canonical.Closed ∧ spare.canonical = spare.canonical.canonical ∧
      ¬ spare.EqualUpToNames spare.canonical := by
  refine ⟨⟨show ∀ v ∈ _, v ∈ _ by decide, by decide⟩, spare.canonical_closed, by decide, ?_⟩
  rintro ⟨f, g, hf, -, -⟩
  have hone : spare.canonical.typeVars = [0] := by decide
  rw [hone] at hf
  have hzero : ∀ v ∈ spare.typeVars, f v = 0 := fun v hv => by simpa using hf.mapsTo hv
  have hsame : f 0 = f 1 := (hzero 0 (by decide)).trans (hzero 1 (by decide)).symm
  exact absurd (hf.injOn (by decide) (by decide) hsame) (by decide)

end Scheme
end RowCheck
