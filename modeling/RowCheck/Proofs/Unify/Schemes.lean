import RowCheck.Infer.Generalize
import RowCheck.Proofs.Unify.Finish

/-!
Schemes in a pass: instantiating puts new variables in place of quantified ones, and generalizing
may close rows, which is one more way of binding unbound row variables.
-/
namespace RowCheck

/-- Whether the row variables of a scheme are quantified or among the first `n`. -/
def Scheme.Below (n : Nat) (s : Scheme) : Prop :=
  ∀ e ∈ s.ty.effects, ∀ v, e.tail = some v → v ∈ s.rowVars ∨ v < n

theorem Scheme.Below.mono {n m : Nat} {s : Scheme} (h : s.Below n) (hnm : n ≤ m) : s.Below m :=
  fun e he v hv => (h e he v hv).imp_right fun hlt => Nat.lt_of_lt_of_le hlt hnm

theorem Scheme.below_mono_iff {n : Nat} {t : Ty} : (Scheme.mono t).Below n ↔ t.Below n := by
  simp [Scheme.Below, Scheme.mono, Ty.Below, Row.Below]

namespace SortedMap

variable {κ ν : Type} [LT κ] [DecidableLT κ] [Std.Trichotomous (α := κ) (· < ·)]
  [Std.Irrefl (α := κ) (· < ·)] [DecidableEq κ] [Trans (α := κ) (· < ·) (· < ·) (· < ·)]

theorem get?_foldl_insert {l : List (κ × ν)} {m : SortedMap κ ν} {k : κ} {v : ν}
    (h : (l.foldl (fun m e => m.insert e.1 e.2) m).get? k = some v) :
    (k, v) ∈ l ∨ m.get? k = some v := by
  induction l generalizing m with
  | nil => exact .inr h
  | cons e l ih =>
    rcases ih h with h | h
    · exact .inl (List.mem_cons_of_mem _ h)
    · rw [get?_insert] at h
      split at h
      · rename_i hk
        cases h
        exact .inl (hk ▸ List.mem_cons_self)
      · exact .inr h

theorem mem_of_get?_ofList {l : List (κ × ν)} {k : κ} {v : ν}
    (h : (ofList l).get? k = some v) : (k, v) ∈ l :=
  (get?_foldl_insert h).resolve_right (by simp)

theorem isSome_get?_foldl_insert {l : List (κ × ν)} {m : SortedMap κ ν} {k : κ}
    (h : k ∈ l.map (·.1) ∨ (m.get? k).isSome) :
    ((l.foldl (fun m e => m.insert e.1 e.2) m).get? k).isSome := by
  induction l generalizing m with
  | nil => simpa using h
  | cons e l ih =>
    refine ih ?_
    rw [get?_insert]
    by_cases hk : e.1 = k
    · exact .inr (by simp [hk])
    · rcases h with h | h
      · exact .inl ((List.mem_cons.1 h).resolve_left fun h => hk h.symm)
      · exact .inr (by simpa [hk] using h)

theorem isSome_get?_ofList {l : List (κ × ν)} {k : κ} (h : k ∈ l.map (·.1)) :
    ((ofList l).get? k).isSome :=
  isSome_get?_foldl_insert (.inl h)

end SortedMap

namespace Unifier

variable {u : Unifier}

theorem freshCopies_does (hu : u.Valid) (numeric : SortedSet TyVar) (span : Span)
    (vs : List TyVar) :
    u.Does (freshCopies numeric span vs) (fun copies _ => ∀ c ∈ copies, ∃ w, c.2 = .var w) := by
  induction vs generalizing u with
  | nil => exact .pure hu (by simp)
  | cons v vs ih =>
    unfold freshCopies
    refine (freshTypeVar_does hu).bind fun w u₁ h₁ _ => ?_
    have rest : ∀ {u₂ : Unifier}, u₂.Valid →
        u₂.Does (freshCopies numeric span vs >>= fun copies => pure ((v, .var w) :: copies))
          (fun copies _ => ∀ c ∈ copies, ∃ w, c.2 = .var w) := fun h₂ =>
      (ih h₂).bind fun copies _ h₃ hcopies => .pure h₃.valid (by simpa using hcopies)
    dsimp only
    split
    · exact (addNumeric_does h₁.valid w span).bind fun _ _ h₂ _ => rest h₂.valid
    · exact rest h₁.valid

theorem freshRowCopies_does (hu : u.Valid) (vs : List RowVar) :
    u.Does (freshRowCopies vs) (fun copies u' => copies.map (·.1) = vs ∧
      ∀ c ∈ copies, c.2 < u'.rowCount) := by
  induction vs generalizing u with
  | nil => exact .pure hu ⟨rfl, by simp⟩
  | cons v vs ih =>
    unfold freshRowCopies
    refine (freshRowVar_does hu).bind fun w u₁ h₁ hw => ?_
    refine (ih h₁.valid).bind fun copies u₂ h₂ hcopies => .pure h₂.valid ⟨?_, ?_⟩
    · rw [List.map_cons, hcopies.1]
    · simp only [List.mem_cons, forall_eq_or_imp]
      exact ⟨hw.2.1.trans_le h₂.rows, hcopies.2⟩

theorem instantiate_does (hu : u.Valid) {s : Scheme} (hs : s.Below u.rowCount) (span : Span) :
    u.Does (s.instantiate span) (fun t u' => t.Below u'.rowCount) := by
  unfold Scheme.instantiate
  split
  · rename_i hmono
    refine .pure hu fun e he v hv => (hs e he v hv).resolve_left ?_
    simp only [Scheme.isMono, Bool.and_eq_true, List.isEmpty_iff] at hmono
    simp [hmono.2]
  · refine (freshCopies_does hu s.numeric span s.typeVars).bind fun types u₁ h₁ htypes => ?_
    refine (freshRowCopies_does h₁.valid s.rowVars).bind fun rows u₂ h₂ hrows => ?_
    refine .pure h₂.valid fun e he => ?_
    rcases Ty.mem_effects_mapVars.1 he with ⟨v, -, he⟩ | ⟨d, hd, rfl⟩
    · cases hv : (SortedMap.ofList types).get? v with
      | none => simp [hv, Ty.effects] at he
      | some t =>
        obtain ⟨w, hw⟩ := htypes _ (SortedMap.mem_of_get?_ofList hv)
        obtain rfl : t = .var w := hw
        simp [hv, Ty.effects] at he
    · intro w hw
      obtain ⟨v, hv, hget⟩ := Option.map_eq_some_iff.1 hw
      rcases hs d hd v hv with hmem | hlt
      · have hsome := SortedMap.isSome_get?_ofList (l := rows) (hrows.1 ▸ hmem)
        obtain ⟨x, hx⟩ := Option.isSome_iff_exists.1 hsome
        obtain rfl : x = w := by simpa [hx] using hget
        exact hrows.2 _ (SortedMap.mem_of_get?_ofList hx)
      · cases hx : (SortedMap.ofList rows).get? v with
        | none =>
          obtain rfl : v = w := by simpa [hx] using hget
          exact hlt.trans_le (h₁.trans h₂).rows
        | some x =>
          obtain rfl : x = w := by simpa [hx] using hget
          exact hrows.2 _ (SortedMap.mem_of_get?_ofList hx)

/-! ## Generalizing -/

theorem closeAll_valid {s : Substitution} (hs : s.Valid) {vs : List RowVar} (hnd : vs.Nodup)
    (hvs : ∀ v ∈ vs, s.row? v = none ∧ v < s.rows.size) :
    (vs.foldl (fun s v => s.bindRow v .pure) s).Valid ∧
      s.Refines (vs.foldl (fun s v => s.bindRow v .pure) s) ∧
      (vs.foldl (fun s v => s.bindRow v .pure) s).rows.size = s.rows.size := by
  induction vs generalizing s with
  | nil => exact ⟨hs, hs.toAcyclic.refines_self, rfl⟩
  | cons v vs ih =>
    obtain ⟨hv, hnd⟩ := List.nodup_cons.1 hnd
    simp only [List.mem_cons, forall_eq_or_imp] at hvs
    have hac := hs.toAcyclic.bindRow (v := v) (b := .pure) (by simp [Row.pure])
    have hsize := Substitution.size_rows_bindRow hvs.1.2 .pure
    have hval := hs.bindRow hvs.1.2 hac (Row.below_closed rfl)
    obtain ⟨hval', href, hsize'⟩ := ih hval hnd fun w hw => by
      rw [hsize, Substitution.row?_bindRow, if_neg (fun h : v = w => hv (h ▸ hw))]
      exact hvs.2 w hw
    refine ⟨hval', ?_, hsize'.trans hsize⟩
    exact (Substitution.refines_bindRow hvs.1.1 hac).trans hac href

/-- A state in which some row variables stand for the row without effects. -/
def closeAll (u : Unifier) (vs : SortedSet RowVar) : Unifier :=
  { u with substitution := vs.toList.foldl (fun s v => s.bindRow v .pure) u.substitution }

theorem type?_closeAll (u : Unifier) (vs : SortedSet RowVar) (w : TyVar) :
    (u.closeAll vs).substitution.type? w = u.substitution.type? w := by
  have hfold : ∀ (vs : List RowVar) (s : Substitution),
      (vs.foldl (fun s v => s.bindRow v .pure) s).type? w = s.type? w := by
    intro vs
    induction vs with
    | nil => exact fun _ => rfl
    | cons v vs ih => exact fun s => ih (s.bindRow v .pure)
  exact hfold vs.toList u.substitution

theorem row?_closeAll (u : Unifier) (vs : SortedSet RowVar) (w : RowVar) :
    (u.closeAll vs).substitution.row? w =
      if w ∈ vs then some .pure else u.substitution.row? w := by
  have hfold : ∀ (vs : List RowVar) (s : Substitution),
      (vs.foldl (fun s v => s.bindRow v .pure) s).row? w =
        if w ∈ vs then some .pure else s.row? w := by
    intro vs
    induction vs with
    | nil => simp
    | cons v vs ih =>
      intro s
      rw [List.foldl_cons, ih, Substitution.row?_bindRow]
      rcases eq_or_ne w v with rfl | hv
      · by_cases hw : w ∈ vs <;> simp [hw]
      · simp [hv, hv.symm]
  exact hfold vs.toList u.substitution

/-- Row variables of a type may be closed. -/
theorem closeAll_advances (hu : u.Valid) {t : Ty} (ht : t.Below u.rowCount) {vs : SortedSet RowVar}
    (hvs : ∀ v ∈ vs, v ∈ (u.apply t).freeRows) : u.Advances (u.closeAll vs) := by
  have hunbound : ∀ v ∈ vs.toList, u.substitution.row? v = none ∧ v < u.rowCount := by
    intro v hv
    have hv := hvs v hv
    rw [Ty.freeRows, SortedSet.mem_ofList, Ty.mem_rows] at hv
    obtain ⟨e, he, hv⟩ := hv
    exact ⟨hu.acyclic.row?_of_mem_effects_apply he hv, hu.substitution.apply_below ht e he v hv⟩
  have hnd : vs.toList.Nodup := (SortedSet.sorted _).imp Nat.ne_of_lt
  obtain ⟨hval, href, hsize⟩ := closeAll_valid hu.substitution hnd hunbound
  exact hu.advances_substitution hval href hsize.ge

theorem closeRows_does (hu : u.Valid) {t : Ty} (ht : t.Below u.rowCount)
    (fixed : SortedSet RowVar) : u.Does (closeRows t fixed) (fun _ _ => True) :=
  ⟨closeAll_advances hu ht fun _ hv => (SortedSet.mem_filter.1 hv).1, trivial⟩

/-- The row variables of a scheme are quantified or were made. -/
theorem generalize_does (hu : u.Valid) {t : Ty} (ht : t.Below u.rowCount) (env : TypeEnv)
    (topLevel : Bool) :
    u.Does (generalize t env topLevel) (fun s u' => s.Below u'.rowCount) := by
  have rest : ∀ {u' : Unifier} {vars : List TyVar} {rows : List RowVar} {numeric : SortedSet TyVar},
      u.Advances u' → Scheme.Below u'.rowCount ⟨vars, rows, numeric, u'.apply t⟩ :=
    fun h e he v hv => .inr (h.valid.substitution.apply_below (ht.mono h.rows) e he v hv)
  unfold generalize
  refine .get_bind ?_
  dsimp only
  split
  · exact (closeRows_does hu ht _).bind fun _ _ h₁ _ => .get_bind (.pure h₁.valid (rest h₁))
  · exact .get_bind (.pure hu (rest hu.advances))

end Unifier

end RowCheck
