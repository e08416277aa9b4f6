import RowCheck.Types.Display
import RowCheck.Source.Identifier
import RowCheck.Proofs.SortedMap

/-!
Names of variables. Variables are written as valid names, and those that get letters in the order of
their numbers are told apart by them.
-/
namespace RowCheck

/-- Whether a word is a valid name. -/
abbrev ValidName (w : String) : Prop := identifierError? w = none

namespace VarNames

/-- A letter with digits behind it is a valid name. -/
theorem valid_of_toList {w : String} {c : Char} {cs : List Char} (hw : w.toList = c :: cs)
    (hc : c.isAlpha = true) (hd : c.isDigit = false) (hcs : ∀ d ∈ cs, d.isDigit = true) :
    ValidName w := by
  refine identifierError?_eq_none_iff.2
    ⟨c, cs, hw, hd, List.forall_mem_cons.2 ⟨?_, fun d h => ?_⟩⟩
  · simp [isIdentifierChar, Char.isAlphanum, hc]
  · simp [isIdentifierChar, Char.isAlphanum, hcs d h]

theorem digits (n : Nat) : ∀ d ∈ (toString n).toList, d.isDigit = true := by
  intro d hd
  rw [Nat.toString_eq_repr, Nat.toList_repr] at hd
  exact Nat.isDigit_of_mem_toDigits (by decide) (by decide) hd

theorem digits_injective {m n : Nat} (h : (toString m).toList = (toString n).toList) : m = n := by
  rw [Nat.toString_eq_repr, Nat.toString_eq_repr, Nat.toList_repr, Nat.toList_repr] at h
  have h := congrArg (Nat.ofDigitChars 10 · 0) h
  rwa [Nat.ofDigitChars_ten_toDigits, Nat.ofDigitChars_ten_toDigits] at h

theorem alphabet : ∀ k < 26, (Char.ofNat ('a'.toNat + k)).isAlpha = true ∧
    (Char.ofNat ('a'.toNat + k)).isDigit = false ∧ (Char.ofNat ('a'.toNat + k)).toNat = 97 + k := by
  decide

theorem toList_letter (i : Nat) : (letter i).toList = Char.ofNat ('a'.toNat + i % 26) ::
    if i < 26 then [] else (toString (i / 26)).toList := by
  unfold letter
  dsimp only
  split
  · simp
  · simp

theorem valid_letter (i : Nat) : ValidName (letter i) := by
  obtain ⟨halpha, hdigit, -⟩ := alphabet (i % 26) (Nat.mod_lt _ (by decide))
  refine valid_of_toList (toList_letter i) halpha hdigit ?_
  split
  · exact List.forall_mem_nil _
  · exact digits _

theorem letter_injective : Function.Injective letter := by
  intro i j h
  have h := congrArg String.toList h
  rw [toList_letter, toList_letter, List.cons.injEq] at h
  have hmod : i % 26 = j % 26 := by
    have hi := (alphabet (i % 26) (Nat.mod_lt _ (by decide))).2.2
    have hj := (alphabet (j % 26) (Nat.mod_lt _ (by decide))).2.2
    rw [h.1, hj] at hi
    omega
  have hne : ∀ n : Nat, (toString n).toList ≠ [] := by
    intro n
    simp
  have hdiv : i / 26 = j / 26 := by
    have h := h.2
    split at h
    · split at h
      · omega
      · exact absurd h.symm (hne _)
    · split at h
      · exact absurd h (hne _)
      · exact digits_injective h
  omega

theorem toList_rowLetter (i : Nat) : (rowLetter i).toList =
    'e' :: if i = 0 then [] else (toString i).toList := by
  unfold rowLetter
  split
  · rfl
  · simp

theorem valid_rowLetter (i : Nat) : ValidName (rowLetter i) := by
  refine valid_of_toList (toList_rowLetter i) (by decide) (by decide) ?_
  split
  · exact List.forall_mem_nil _
  · exact digits _

theorem rowLetter_injective : Function.Injective rowLetter := by
  intro i j h
  have h := congrArg String.toList h
  rw [toList_rowLetter, toList_rowLetter, List.cons.injEq] at h
  have h := h.2
  split at h
  · split at h
    · omega
    · simp at h
  · split at h
    · simp at h
    · exact digits_injective h

/-- The names of variables that are numbered in their order. -/
theorem get?_numbered (name : Nat → String) (vs : List Nat) {v : Nat} {w : String} :
    (SortedMap.ofList ((SortedSet.ofList vs).toList.zipIdx.map
      (fun p => (p.1, name p.2)))).get? v = some w ↔
      ∃ i, (SortedSet.ofList vs).toList[i]? = some v ∧ name i = w := by
  have hkeys : ((SortedSet.ofList vs).toList.zipIdx.map (fun p => (p.1, name p.2))).map (·.1) =
      (SortedSet.ofList vs).toList := by
    rw [List.map_map]
    exact List.zipIdx_map_fst 0 _
  have hnodup : (SortedSet.ofList vs).toList.Nodup :=
    (SortedSet.ofList vs).sorted.imp fun h => Nat.ne_of_lt h
  unfold SortedMap.ofList
  rw [SortedMap.get?_foldl_insert_iff (by rwa [hkeys])]
  simp [List.mem_map, List.mem_zipIdx_iff_getElem?]

/-- Whether variables are written as valid names. -/
structure Valid (names : VarNames) : Prop where
  type : ∀ v, ValidName (names.typeVar v)
  row : ∀ v, ValidName (names.rowVar v)

theorem valid_ofTypes (ts : List Ty) : (ofTypes ts).Valid where
  type v := by
    unfold typeVar
    cases h : (ofTypes ts).types.get? v with
    | none => exact valid_of_toList (c := 't') (by simp) (by decide) (by decide) (digits v)
    | some w =>
      obtain ⟨i, -, rfl⟩ := (get?_numbered letter _).1 h
      exact valid_letter i
  row v := by
    unfold rowVar
    cases h : (ofTypes ts).rows.get? v with
    | none => exact valid_of_toList (c := 'e') (by simp) (by decide) (by decide) (digits v)
    | some w =>
      obtain ⟨i, -, rfl⟩ := (get?_numbered rowLetter _).1 h
      exact valid_rowLetter i

/-- Variables that are numbered have names of their own. -/
theorem eq_of_numbered {name : Nat → String} (hname : Function.Injective name) {vs : List Nat}
    {m : SortedMap Nat String} (hm : m = .ofList ((SortedSet.ofList vs).toList.zipIdx.map
      (fun p => (p.1, name p.2)))) {v w : Nat} (hv : v ∈ vs) (hw : w ∈ vs) {d d' : String}
    (h : (m.get? v).getD d = (m.get? w).getD d') : v = w := by
  have numbered : ∀ {v}, v ∈ vs →
      ∃ i, (SortedSet.ofList vs).toList[i]? = some v ∧ m.get? v = some (name i) := by
    intro v hv
    obtain ⟨i, hi⟩ := List.mem_iff_getElem?.1 (SortedSet.mem_def.1 (SortedSet.mem_ofList.2 hv))
    exact ⟨i, hi, hm ▸ (get?_numbered name vs).2 ⟨i, hi, rfl⟩⟩
  obtain ⟨i, hi, hvi⟩ := numbered hv
  obtain ⟨j, hj, hwj⟩ := numbered hw
  rw [hvi, hwj] at h
  obtain rfl := hname h
  exact Option.some.inj (hi.symm.trans hj)

end VarNames

end RowCheck
