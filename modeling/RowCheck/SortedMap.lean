import RowCheck.SortedSet

/-!
Finite maps kept as lists of entries with strictly ascending keys, so equal maps are equal values
and listing a map is deterministic.
-/
namespace RowCheck

/-- A finite map, listed with strictly ascending keys. -/
structure SortedMap (κ ν : Type) [LT κ] where
  entries : List (κ × ν)
  sorted : entries.Pairwise (·.1 < ·.1) := by exact List.Pairwise.nil
  deriving DecidableEq, Repr

namespace SortedMap

variable {κ ν : Type} [LT κ] [DecidableLT κ]

/-- Put an entry at its place in an ascending list, replacing an entry with the same key. -/
def insertList (k : κ) (v : ν) : List (κ × ν) → List (κ × ν)
  | [] => [(k, v)]
  | e :: es =>
    if k < e.1 then (k, v) :: e :: es
    else if e.1 < k then e :: insertList k v es
    else (k, v) :: es

theorem key_of_mem_insertList {k : κ} {v : ν} {e : κ × ν} {l : List (κ × ν)}
    (h : e ∈ insertList k v l) : e = (k, v) ∨ e ∈ l := by
  induction l with
  | nil => simpa [insertList] using h
  | cons y ys ih =>
    simp only [insertList] at h
    split at h
    · simpa using h
    · split at h
      · rcases List.mem_cons.1 h with rfl | h
        · simp
        · rcases ih h with rfl | h <;> simp_all
      · rcases List.mem_cons.1 h with rfl | h
        · simp
        · simp [h]

section
variable [Trans (α := κ) (· < ·) (· < ·) (· < ·)] [Std.Trichotomous (α := κ) (· < ·)]

theorem insertList_sorted (k : κ) (v : ν) {l : List (κ × ν)} (h : l.Pairwise (·.1 < ·.1)) :
    (insertList k v l).Pairwise (·.1 < ·.1) := by
  induction l with
  | nil => simp [insertList]
  | cons y ys ih =>
    obtain ⟨hy, hys⟩ := List.pairwise_cons.1 h
    simp only [insertList]
    split
    · rename_i hky
      refine List.pairwise_cons.2 ⟨fun z hz => ?_, h⟩
      rcases List.mem_cons.1 hz with rfl | hz
      · exact hky
      · exact Trans.trans hky (hy z hz)
    · split
      · rename_i hyk
        refine List.pairwise_cons.2 ⟨fun z hz => ?_, ih hys⟩
        rcases key_of_mem_insertList hz with rfl | hz
        · exact hyk
        · exact hy z hz
      · rename_i hky hyk
        have hk : k = y.1 := Std.Trichotomous.trichotomous k y.1 hky hyk
        exact List.pairwise_cons.2 ⟨fun z hz => hk ▸ hy z hz, hys⟩

/-- Bind `k` to `v`, replacing what `k` was bound to. -/
def insert (m : SortedMap κ ν) (k : κ) (v : ν) : SortedMap κ ν :=
  ⟨insertList k v m.entries, insertList_sorted k v m.sorted⟩

end

instance : EmptyCollection (SortedMap κ ν) := ⟨{ entries := [] }⟩

instance : Inhabited (SortedMap κ ν) := ⟨∅⟩

/-- The value bound to `k`. -/
def get? [DecidableEq κ] (m : SortedMap κ ν) (k : κ) : Option ν :=
  (m.entries.find? (fun e => decide (e.1 = k))).map (·.2)

def contains [DecidableEq κ] (m : SortedMap κ ν) (k : κ) : Bool :=
  (m.get? k).isSome

def keys (m : SortedMap κ ν) : List κ :=
  m.entries.map (·.1)

def values (m : SortedMap κ ν) : List ν :=
  m.entries.map (·.2)

def isEmpty (m : SortedMap κ ν) : Bool :=
  m.entries.isEmpty

/-- The map without the entry of a key. -/
def erase [DecidableEq κ] (m : SortedMap κ ν) (k : κ) : SortedMap κ ν :=
  ⟨m.entries.filter (fun e => !decide (e.1 = k)), m.sorted.filter _⟩

/-- The same keys, with every value replaced. -/
def mapValues {μ : Type} (m : SortedMap κ ν) (f : ν → μ) : SortedMap κ μ :=
  ⟨m.entries.map (fun e => (e.1, f e.2)), List.pairwise_map.2 m.sorted⟩

section
variable [Trans (α := κ) (· < ·) (· < ·) (· < ·)] [Std.Trichotomous (α := κ) (· < ·)]
  [DecidableEq κ]

/-- Bind `k` to `v` only if `k` is not bound yet: the first owner of a key keeps it. -/
def insertNew (m : SortedMap κ ν) (k : κ) (v : ν) : SortedMap κ ν :=
  if m.contains k then m else m.insert k v

/-- The map of a list of bindings, where a later binding of a key wins. -/
def ofList (l : List (κ × ν)) : SortedMap κ ν :=
  l.foldl (fun m e => m.insert e.1 e.2) ∅

end

omit [DecidableLT κ] in
@[simp] theorem get?_empty [DecidableEq κ] (k : κ) : (∅ : SortedMap κ ν).get? k = none := rfl

section
variable [Std.Trichotomous (α := κ) (· < ·)] [Std.Irrefl (α := κ) (· < ·)] [DecidableEq κ]

theorem find?_insertList (k j : κ) (v : ν) (l : List (κ × ν)) :
    ((insertList k v l).find? (fun e => decide (e.1 = j))).map (·.2) =
      if k = j then some v else (l.find? (fun e => decide (e.1 = j))).map (·.2) := by
  induction l with
  | nil => by_cases h : k = j <;> simp [insertList, h]
  | cons y ys ih =>
    simp only [insertList]
    split
    · by_cases h : k = j <;> simp [h]
    · split
      · rename_i hyk
        have hne : y.1 ≠ k := fun e => Std.Irrefl.irrefl k (e ▸ hyk)
        by_cases hy : y.1 = j
        · have hk : k ≠ j := fun e => hne (hy.trans e.symm)
          simp [hy, hk]
        · simp [hy, ih]
      · rename_i hky hyk
        have hk : k = y.1 := Std.Trichotomous.trichotomous k y.1 hky hyk
        by_cases h : k = j
        · simp [h]
        · simp [h, ← hk]

variable [Trans (α := κ) (· < ·) (· < ·) (· < ·)]

theorem get?_insert (m : SortedMap κ ν) (k j : κ) (v : ν) :
    (m.insert k v).get? j = if k = j then some v else m.get? j :=
  find?_insertList k j v m.entries

@[simp] theorem get?_insert_self (m : SortedMap κ ν) (k : κ) (v : ν) :
    (m.insert k v).get? k = some v := by
  simp [get?_insert]

end

end SortedMap

end RowCheck
