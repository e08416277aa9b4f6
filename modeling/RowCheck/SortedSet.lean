/-!
Finite sets kept as strictly ascending lists. The order is part of the type, so two sets with the
same members are equal, and listing a set is deterministic. Strings ascend by code point, which is
also the order of their UTF-8 bytes.
-/
namespace RowCheck

instance transString : Trans (α := String) (· < ·) (· < ·) (· < ·) := ⟨String.lt_trans⟩

instance trichotomousString : Std.Trichotomous (α := String) (· < ·) where
  trichotomous _ _ h h' := String.le_antisymm (String.not_lt.1 h') (String.not_lt.1 h)

instance irreflString : Std.Irrefl (α := String) (· < ·) := ⟨String.lt_irrefl⟩

/-- A finite set, listed in strictly ascending order. -/
structure SortedSet (α : Type) [LT α] where
  toList : List α
  sorted : toList.Pairwise (· < ·) := by exact List.Pairwise.nil
  deriving DecidableEq, Repr

namespace SortedSet

variable {α : Type} [LT α]

instance : EmptyCollection (SortedSet α) := ⟨{ toList := [] }⟩

instance : Inhabited (SortedSet α) := ⟨∅⟩

instance : Membership α (SortedSet α) := ⟨fun s x => x ∈ s.toList⟩

instance [DecidableEq α] (x : α) (s : SortedSet α) : Decidable (x ∈ s) :=
  inferInstanceAs (Decidable (x ∈ s.toList))

def filter (s : SortedSet α) (keep : α → Bool) : SortedSet α :=
  ⟨s.toList.filter keep, s.sorted.filter _⟩

/-- The members of `s` that are not in `t`. -/
def diff [DecidableEq α] (s t : SortedSet α) : SortedSet α :=
  s.filter (fun x => !decide (x ∈ t))

def isEmpty (s : SortedSet α) : Bool :=
  s.toList.isEmpty

def size (s : SortedSet α) : Nat :=
  s.toList.length

theorem mem_def {x : α} {s : SortedSet α} : x ∈ s ↔ x ∈ s.toList := Iff.rfl

@[simp] theorem not_mem_empty (x : α) : ¬ x ∈ (∅ : SortedSet α) := List.not_mem_nil

@[simp] theorem mem_filter {x : α} {s : SortedSet α} {keep : α → Bool} :
    x ∈ s.filter keep ↔ x ∈ s ∧ keep x = true := List.mem_filter

@[simp] theorem mem_diff [DecidableEq α] {x : α} {s t : SortedSet α} :
    x ∈ s.diff t ↔ x ∈ s ∧ ¬ x ∈ t := by
  simp [diff]

/-- Ascending lists with the same members are the same list. -/
theorem ext_toList [Std.Asymm (α := α) (· < ·)] {l m : List α} (hl : l.Pairwise (· < ·))
    (hm : m.Pairwise (· < ·)) (h : ∀ x, x ∈ l ↔ x ∈ m) : l = m := by
  induction l generalizing m with
  | nil =>
    cases m with
    | nil => rfl
    | cons y ys => exact absurd ((h y).2 List.mem_cons_self) List.not_mem_nil
  | cons x xs ih =>
    cases m with
    | nil => exact absurd ((h x).1 List.mem_cons_self) List.not_mem_nil
    | cons y ys =>
      obtain ⟨hx, hxs⟩ := List.pairwise_cons.1 hl
      obtain ⟨hy, hys⟩ := List.pairwise_cons.1 hm
      have hxy : x = y := by
        rcases List.mem_cons.1 ((h x).1 List.mem_cons_self) with e | e
        · exact e
        · rcases List.mem_cons.1 ((h y).2 List.mem_cons_self) with e' | e'
          · exact e'.symm
          · exact absurd (hx y e') (Std.Asymm.asymm _ _ (hy x e))
      subst hxy
      congr 1
      refine ih hxs hys fun z => ⟨fun hz => ?_, fun hz => ?_⟩
      · rcases List.mem_cons.1 ((h z).1 (List.mem_cons_of_mem _ hz)) with e | e
        · exact absurd (hx z hz) (e ▸ fun c => Std.Asymm.asymm _ _ c c)
        · exact e
      · rcases List.mem_cons.1 ((h z).2 (List.mem_cons_of_mem _ hz)) with e | e
        · exact absurd (hy z hz) (e ▸ fun c => Std.Asymm.asymm _ _ c c)
        · exact e

/-- A set is determined by its members. -/
theorem ext_mem [Std.Asymm (α := α) (· < ·)] {s t : SortedSet α} (h : ∀ x, x ∈ s ↔ x ∈ t) :
    s = t := by
  cases s
  cases t
  simp only [mk.injEq]
  exact ext_toList ‹_› ‹_› h

variable [DecidableLT α]

/-- Put `x` at its place in an ascending list, unless it is there already. -/
def insertList (x : α) : List α → List α
  | [] => [x]
  | y :: ys => if x < y then x :: y :: ys else if y < x then y :: insertList x ys else y :: ys

theorem mem_of_mem_insertList {x z : α} {l : List α} (h : z ∈ insertList x l) :
    z = x ∨ z ∈ l := by
  induction l with
  | nil => simpa [insertList] using h
  | cons y ys ih =>
    simp only [insertList] at h
    split at h
    · simpa using h
    · split at h
      · rcases List.mem_cons.1 h with rfl | h
        · simp
        · rcases ih h with rfl | h <;> simp_all
      · exact .inr h

theorem mem_insertList [Std.Trichotomous (α := α) (· < ·)] {x z : α} {l : List α} :
    z ∈ insertList x l ↔ z = x ∨ z ∈ l := by
  refine ⟨mem_of_mem_insertList, fun h => ?_⟩
  induction l with
  | nil => simpa [insertList] using h
  | cons y ys ih =>
    simp only [insertList]
    split
    · simpa using h
    · split
      · rcases h with h | h
        · exact List.mem_cons_of_mem _ (ih (.inl h))
        · rcases List.mem_cons.1 h with h | h
          · exact h ▸ List.mem_cons_self
          · exact List.mem_cons_of_mem _ (ih (.inr h))
      · rename_i hxy hyx
        have hxy : x = y := Std.Trichotomous.trichotomous x y hxy hyx
        simpa [hxy] using h

section
variable [Trans (α := α) (· < ·) (· < ·) (· < ·)]

theorem insertList_sorted (x : α) {l : List α} (h : l.Pairwise (· < ·)) :
    (insertList x l).Pairwise (· < ·) := by
  induction l with
  | nil => simp [insertList]
  | cons y ys ih =>
    obtain ⟨hy, hys⟩ := List.pairwise_cons.1 h
    simp only [insertList]
    split
    · rename_i hxy
      refine List.pairwise_cons.2 ⟨fun z hz => ?_, h⟩
      rcases List.mem_cons.1 hz with rfl | hz
      · exact hxy
      · exact Trans.trans hxy (hy z hz)
    · split
      · rename_i hyx
        refine List.pairwise_cons.2 ⟨fun z hz => ?_, ih hys⟩
        rcases mem_of_mem_insertList hz with rfl | hz
        · exact hyx
        · exact hy z hz
      · exact h

def insert (s : SortedSet α) (x : α) : SortedSet α :=
  ⟨insertList x s.toList, insertList_sorted x s.sorted⟩

def ofList (l : List α) : SortedSet α :=
  l.foldl insert ∅

def union (s t : SortedSet α) : SortedSet α :=
  t.toList.foldl insert s

end

section
variable [Trans (α := α) (· < ·) (· < ·) (· < ·)] [Std.Trichotomous (α := α) (· < ·)]

@[simp] theorem mem_insert {x z : α} {s : SortedSet α} : z ∈ s.insert x ↔ z = x ∨ z ∈ s :=
  mem_insertList

theorem mem_foldl_insert {z : α} {l : List α} {s : SortedSet α} :
    z ∈ l.foldl insert s ↔ z ∈ s ∨ z ∈ l := by
  induction l generalizing s with
  | nil => simp
  | cons y ys ih =>
    rw [List.foldl_cons, ih, mem_insert, List.mem_cons]
    grind

@[simp] theorem mem_ofList {z : α} {l : List α} : z ∈ ofList l ↔ z ∈ l := by
  simp [ofList, mem_foldl_insert]

@[simp] theorem mem_union {z : α} {s t : SortedSet α} : z ∈ s.union t ↔ z ∈ s ∨ z ∈ t :=
  mem_foldl_insert

end

end SortedSet

end RowCheck
