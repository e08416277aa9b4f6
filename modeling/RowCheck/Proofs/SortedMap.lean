import Mathlib.Data.List.Nodup
import RowCheck.SortedMap

/-!
Looking up keys after removing one, and after binding some that may be bound already; how many keys
there are; and that a map is what its keys are bound to, so that keys can be bound in any order.
-/
namespace RowCheck.SortedMap

variable {κ ν : Type} [LT κ] [DecidableEq κ]

theorem get?_erase (m : SortedMap κ ν) (k j : κ) :
    (m.erase k).get? j = if k = j then none else m.get? j := by
  simp only [get?, erase, List.find?_filter]
  split
  · rename_i h
    subst h
    simp
  · rename_i h
    congr 2
    funext e
    by_cases he : e.1 = j
    · simp [he, Ne.symm h]
    · simp [he]

theorem isSome_get?_iff {m : SortedMap κ ν} {k : κ} :
    (m.get? k).isSome = true ↔ ∃ e ∈ m.entries, e.1 = k := by
  simp [get?]

variable [DecidableLT κ] [Std.Trichotomous (α := κ) (· < ·)] [Std.Irrefl (α := κ) (· < ·)]
  [Trans (α := κ) (· < ·) (· < ·) (· < ·)]

theorem get?_insertNew (m : SortedMap κ ν) (k j : κ) (v : ν) :
    (m.insertNew k v).get? j = if k = j then some ((m.get? k).getD v) else m.get? j := by
  rw [insertNew, contains]
  cases hk : m.get? k with
  | none => simp [get?_insert]
  | some w =>
    by_cases hj : k = j
    · simp [← hj, hk]
    · simp [hj]

/-- A key is bound after it has been bound, or if it was before. -/
theorem isSome_get?_insertNew (m : SortedMap κ ν) (k j : κ) (v : ν) :
    ((m.insertNew k v).get? j).isSome = true ↔ k = j ∨ (m.get? j).isSome = true := by
  rw [get?_insertNew]
  split
  · simp_all
  · simp_all

/-- After some keys have been bound, each of them once, they have their values, and the others those
they had before. -/
theorem get?_foldl_insert_iff {l : List (κ × ν)} {m : SortedMap κ ν} {k : κ} {v : ν}
    (h : (l.map (·.1)).Nodup) : (l.foldl (fun m e => m.insert e.1 e.2) m).get? k = some v ↔
      (k, v) ∈ l ∨ k ∉ l.map (·.1) ∧ m.get? k = some v := by
  induction l generalizing m with
  | nil => simp
  | cons e l ih =>
    rw [List.map_cons, List.nodup_cons] at h
    rw [List.foldl_cons, ih h.2, get?_insert, List.mem_cons, List.map_cons, List.mem_cons, not_or]
    by_cases he : e.1 = k
    · subst he
      have hnot : (e.1, v) ∉ l := fun hmem => h.1 (List.mem_map.2 ⟨_, hmem, rfl⟩)
      simp [h.1, hnot, Prod.ext_iff, eq_comm]
    · have hne : (k, v) ≠ e := fun hk => he (congrArg Prod.fst hk).symm
      simp [he, hne, Ne.symm he]

omit [DecidableEq κ] [Std.Irrefl (α := κ) (· < ·)] [Trans (α := κ) (· < ·) (· < ·) (· < ·)] in
theorem length_insertList {k : κ} {v : ν} {l : List (κ × ν)} (h : ∀ e ∈ l, e.1 ≠ k) :
    (insertList k v l).length = l.length + 1 := by
  induction l with
  | nil => rfl
  | cons e l ih =>
    simp only [List.mem_cons, forall_eq_or_imp] at h
    rw [insertList]
    split
    · rfl
    · split
      · simp [ih h.2]
      · exact absurd (Std.Trichotomous.trichotomous k e.1 ‹_› ‹_›).symm h.1

omit [Std.Irrefl (α := κ) (· < ·)] in
/-- A key that was not bound is one more. -/
theorem length_insert {m : SortedMap κ ν} {k : κ} (v : ν) (h : m.get? k = none) :
    (m.insert k v).entries.length = m.entries.length + 1 := by
  apply length_insertList
  intro e he hk
  have := isSome_get?_iff.2 ⟨e, he, hk⟩
  simp [h] at this

omit [DecidableLT κ] [Std.Trichotomous (α := κ) (· < ·)] [Std.Irrefl (α := κ) (· < ·)]
  [Trans (α := κ) (· < ·) (· < ·) (· < ·)] in
theorem isSome_get?_iff_mem_keys {m : SortedMap κ ν} {k : κ} :
    (m.get? k).isSome = true ↔ k ∈ m.keys := by
  simp [isSome_get?_iff, keys]

omit [DecidableEq κ] [DecidableLT κ] [Std.Trichotomous (α := κ) (· < ·)]
  [Trans (α := κ) (· < ·) (· < ·) (· < ·)] in
theorem nodup_keys (m : SortedMap κ ν) : m.keys.Nodup := by
  have h : m.keys.Pairwise (· < ·) := List.pairwise_map.2 m.sorted
  refine h.imp fun {a b} hab hne => ?_
  subst hne
  exact Std.Irrefl.irrefl a hab

omit [DecidableLT κ] [Std.Trichotomous (α := κ) (· < ·)] [Trans (α := κ) (· < ·) (· < ·) (· < ·)] in
theorem mem_entries_iff {m : SortedMap κ ν} {e : κ × ν} :
    e ∈ m.entries ↔ m.get? e.1 = some e.2 := by
  have hkey : ∀ {f}, m.entries.find? (fun f => decide (f.1 = e.1)) = some f → f.1 = e.1 := fun h => by
    simpa using List.find?_some h
  rw [get?, Option.map_eq_some_iff]
  constructor
  · intro he
    obtain ⟨f, hf⟩ : ∃ f, m.entries.find? (fun f => decide (f.1 = e.1)) = some f := by
      rw [← Option.isSome_iff_exists, List.find?_isSome]
      exact ⟨e, he, decide_eq_true rfl⟩
    obtain rfl : f = e :=
      List.inj_on_of_nodup_map m.nodup_keys (List.mem_of_find?_eq_some hf) he (hkey hf)
    exact ⟨f, hf, rfl⟩
  · rintro ⟨f, hf, hvalue⟩
    obtain rfl : f = e := Prod.ext (hkey hf) hvalue
    exact List.mem_of_find?_eq_some hf

omit [DecidableLT κ] [Std.Trichotomous (α := κ) (· < ·)] [Trans (α := κ) (· < ·) (· < ·) (· < ·)] in
theorem mem_values_iff {m : SortedMap κ ν} {v : ν} : v ∈ m.values ↔ ∃ k, m.get? k = some v := by
  unfold values
  rw [List.mem_map]
  constructor
  · rintro ⟨e, he, rfl⟩
    exact ⟨e.1, mem_entries_iff.1 he⟩
  · rintro ⟨k, hk⟩
    exact ⟨(k, v), mem_entries_iff.2 hk, rfl⟩

omit [DecidableLT κ] [Std.Trichotomous (α := κ) (· < ·)] in
/-- A map is determined by what its keys are bound to. -/
theorem ext_get? {m m' : SortedMap κ ν} (h : ∀ k, m.get? k = m'.get? k) : m = m' := by
  have hmem : ∀ e, e ∈ m.entries ↔ e ∈ m'.entries := fun e => by
    rw [mem_entries_iff, mem_entries_iff, h]
  have hperm := (List.perm_ext_iff_of_nodup (List.Nodup.of_map _ m.nodup_keys)
    (List.Nodup.of_map _ m'.nodup_keys)).2 hmem
  have hasymm : ∀ a b : κ × ν, a.1 < b.1 → b.1 < a.1 → a = b := fun a b hab hba =>
    absurd (Trans.trans hab hba) (Std.Irrefl.irrefl a.1)
  have hentries : m.entries = m'.entries :=
    hperm.eq_of_pairwise (fun a b _ _ => hasymm a b) m.sorted m'.sorted
  cases m
  cases m'
  simpa using hentries

theorem insert_comm (m : SortedMap κ ν) {k j : κ} (h : k ≠ j) (v w : ν) :
    (m.insert k v).insert j w = (m.insert j w).insert k v := by
  refine ext_get? fun i => ?_
  simp only [get?_insert]
  by_cases hk : k = i
  · subst hk
    simp [Ne.symm h]
  · simp [hk]

/-- Keys that are bound one after the other to one value, unless they were bound before. -/
theorem get?_foldl_insertNew (m : SortedMap κ ν) (ks : List κ) (v : ν) (j : κ) :
    (ks.foldl (fun m k => m.insertNew k v) m).get? j =
      if j ∈ ks then some ((m.get? j).getD v) else m.get? j := by
  induction ks generalizing m with
  | nil => simp
  | cons k ks ih =>
    rw [List.foldl_cons, ih, get?_insertNew]
    by_cases hk : k = j
    · simp [hk]
    · simp [hk, Ne.symm hk]

/-- After some keys have been bound unless they were bound before, each of them once, the others have
the values they had before. -/
theorem get?_foldl_insertNew_iff {l : List (κ × ν)} {m : SortedMap κ ν} {k : κ} {v : ν}
    (h : (l.map (·.1)).Nodup) : (l.foldl (fun m e => m.insertNew e.1 e.2) m).get? k = some v ↔
      m.get? k = some v ∨ m.get? k = none ∧ (k, v) ∈ l := by
  induction l generalizing m with
  | nil => simp
  | cons e l ih =>
    rw [List.map_cons, List.nodup_cons] at h
    rw [List.foldl_cons, ih h.2, get?_insertNew, List.mem_cons]
    by_cases he : e.1 = k
    · subst he
      have hnot : (e.1, v) ∉ l := fun hmem => h.1 (List.mem_map.2 ⟨_, hmem, rfl⟩)
      cases hm : m.get? e.1 <;> simp [hnot, Prod.ext_iff, eq_comm]
    · have hne : (k, v) ≠ e := fun hk => he (congrArg Prod.fst hk).symm
      simp [he, hne]

theorem foldl_insertNew_comm (m : SortedMap κ ν) {ks js : List κ} (h : ks.Disjoint js) (v w : ν) :
    js.foldl (fun m k => m.insertNew k w) (ks.foldl (fun m k => m.insertNew k v) m) =
      ks.foldl (fun m k => m.insertNew k v) (js.foldl (fun m k => m.insertNew k w) m) := by
  refine ext_get? fun i => ?_
  simp only [get?_foldl_insertNew]
  by_cases hk : i ∈ ks
  · have hj : i ∉ js := fun hj => h hk hj
    simp [hk, hj]
  · simp [hk]

end RowCheck.SortedMap
