import RowCheck.Proofs.Infer.Closing
import RowCheck.Proofs.Infer.Locals
import RowCheck.Proofs.Unify.Copies
import RowCheck.Proofs.Unify.Runs

/-!
Generalizing a type and using its scheme at once. The use is a copy of the type: what is free in a local
scope is shared, all else has a new variable with the same bound, and the copy can be made equal to the
type. This needs that the substitution leaves alone what the schemes of the local scopes quantify.
-/
namespace RowCheck

/-- The numbers from `n` on that the elements of a list have by their place. -/
def numberedFrom (n : Nat) (l : List Nat) (v : Nat) : Nat := if v ∈ l then n + l.idxOf v else v

section

variable {l : List Nat} {n v w : Nat}

theorem numberedFrom_of_mem (hv : v ∈ l) : numberedFrom n l v = n + l.idxOf v := if_pos hv

theorem numberedFrom_of_not_mem (hv : v ∉ l) : numberedFrom n l v = v := if_neg hv

theorem le_numberedFrom (hv : v ∈ l) : n ≤ numberedFrom n l v := by
  rw [numberedFrom_of_mem hv]
  exact Nat.le_add_right ..

theorem numberedFrom_lt (hv : v ∈ l) : numberedFrom n l v < n + l.length := by
  rw [numberedFrom_of_mem hv]
  exact Nat.add_lt_add_left (List.idxOf_lt_length_of_mem hv) n

theorem numberedFrom_injOn (n : Nat) (l : List Nat) : Set.InjOn (numberedFrom n l) {v | v ∈ l} := by
  intro v hv w hw he
  rw [numberedFrom_of_mem hv, numberedFrom_of_mem hw] at he
  exact (List.idxOf_inj hv).1 (Nat.add_left_cancel he)

/-- What is numbered below the new numbers is not mistaken for them. -/
theorem numberedFrom_injOn_below {p : Nat → Prop} (hp : ∀ v, p v → v < n) :
    Set.InjOn (numberedFrom n l) {v | p v} := by
  intro v hv w hw he
  by_cases hvl : v ∈ l
  · by_cases hwl : w ∈ l
    · exact numberedFrom_injOn n l hvl hwl he
    · have := le_numberedFrom (n := n) hvl
      rw [he, numberedFrom_of_not_mem hwl] at this
      exact absurd (hp w hw) (Nat.not_lt.2 this)
  · by_cases hwl : w ∈ l
    · have := le_numberedFrom (n := n) hwl
      rw [← he, numberedFrom_of_not_mem hvl] at this
      exact absurd (hp v hv) (Nat.not_lt.2 this)
    · rwa [numberedFrom_of_not_mem hvl, numberedFrom_of_not_mem hwl] at he

theorem numberedFrom_eq_self {p : Nat → Prop} (hp : ∀ v, p v → v < n)
    (hv : p (numberedFrom n l v)) : numberedFrom n l v = v := by
  by_cases hvl : v ∈ l
  · exact absurd (hp _ hv) (Nat.not_lt.2 (le_numberedFrom hvl))
  · exact numberedFrom_of_not_mem hvl

theorem mem_zipIdx_numberedFrom (hl : l.Nodup) :
    (v, w) ∈ l.zipIdx n ↔ v ∈ l ∧ w = numberedFrom n l v := by
  rw [List.mk_mem_zipIdx_iff_le_and_getElem?_sub]
  constructor
  · rintro ⟨hle, hget⟩
    obtain ⟨hlt, rfl⟩ := List.getElem?_eq_some_iff.1 hget
    refine ⟨List.getElem_mem hlt, ?_⟩
    rw [numberedFrom_of_mem (List.getElem_mem hlt), hl.idxOf_getElem _ hlt]
    omega
  · rintro ⟨hv, rfl⟩
    rw [numberedFrom_of_mem hv, Nat.add_sub_cancel_left]
    exact ⟨Nat.le_add_right .., List.getElem?_idxOf hv⟩

/-- A map from the elements of a list to what belongs to their numbers. -/
theorem get?_numbers {α : Type} (hl : l.Nodup) (g : Nat → α) (n v : Nat) :
    (SortedMap.ofList ((l.zipIdx n).map fun e => (e.1, g e.2))).get? v =
      if v ∈ l then some (g (numberedFrom n l v)) else none := by
  have hkeys : ((l.zipIdx n).map fun e => (e.1, g e.2)).map (·.1) = l := by
    rw [List.map_map]
    exact List.zipIdx_map_fst ..
  split
  · rename_i hv
    refine (SortedMap.get?_foldl_insert_iff (hkeys.symm ▸ hl)).2 (.inl (List.mem_map.2 ?_))
    refine ⟨(v, numberedFrom n l v), (mem_zipIdx_numberedFrom hl).2 ⟨hv, rfl⟩, rfl⟩
  · rename_i hv
    refine Option.eq_none_iff_forall_ne_some.2 fun t ht => hv ?_
    exact hkeys ▸ List.mem_map_of_mem (f := (·.1)) (SortedMap.mem_of_get?_ofList ht)

end

namespace Unifier

variable {u u' u'' : Unifier}

/-! ## Instantiating -/

/-- What a state looks like in which some more variables were made. -/
structure Extends (u u' : Unifier) (types rows : Nat) : Prop where
  type? : ∀ v, u'.substitution.type? v = u.substitution.type? v
  row? : ∀ v, u'.substitution.row? v = u.substitution.row? v
  typeCount : u'.typeCount = u.typeCount + types
  rowCount : u'.rowCount = u.rowCount + rows
  errors : u'.errors = u.errors

theorem Extends.refl (u : Unifier) : u.Extends u 0 0 := ⟨fun _ => rfl, fun _ => rfl, rfl, rfl, rfl⟩

theorem Extends.trans {n m n' m' : Nat} (h : u.Extends u' n m) (h' : u'.Extends u'' n' m') :
    u.Extends u'' (n + n') (m + m') where
  type? v := (h'.type? v).trans (h.type? v)
  row? v := (h'.row? v).trans (h.row? v)
  typeCount := by rw [h'.typeCount, h.typeCount, Nat.add_assoc]
  rowCount := by rw [h'.rowCount, h.rowCount, Nat.add_assoc]
  errors := h'.errors.trans h.errors

theorem freshTypeVar_extends (u : Unifier) : u.Extends (freshTypeVar u).2 1 0 where
  type? := Substitution.type?_freshType u.substitution
  row? _ := rfl
  typeCount := Array.size_push ..
  rowCount := rfl
  errors := rfl

theorem freshRowVar_extends (u : Unifier) : u.Extends (freshRowVar u).2 0 1 where
  type? _ := rfl
  row? := Substitution.row?_freshRow u.substitution
  typeCount := rfl
  rowCount := Array.size_push ..
  errors := rfl

/-- The copies of quantified variables are numbered from the first number that was not used. They have
the bounds of what they are copies of. -/
theorem freshCopies_run (numeric : SortedSet TyVar) (span : Span) (vs : List TyVar) (u : Unifier) :
    (freshCopies numeric span vs u).1 =
      (vs.zipIdx u.typeCount).map (fun e => (e.1, .var e.2)) ∧
    u.Extends (freshCopies numeric span vs u).2 vs.length 0 ∧
    ∀ w, ((freshCopies numeric span vs u).2.numeric.get? w).isSome = true ↔
      (u.numeric.get? w).isSome = true ∨ ∃ v ∈ numeric, (v, w) ∈ vs.zipIdx u.typeCount := by
  induction vs generalizing u with
  | nil => exact ⟨rfl, .refl u, fun w => (or_iff_left (by simp)).symm⟩
  | cons v vs ih =>
    let u₁ := if v ∈ numeric then (addNumeric u.typeCount span (freshTypeVar u).2).2
      else (freshTypeVar u).2
    have hrun : freshCopies numeric span (v :: vs) u =
        ((v, .var u.typeCount) :: (freshCopies numeric span vs u₁).1,
          (freshCopies numeric span vs u₁).2) := by
      by_cases hv : v ∈ numeric
      · simp only [u₁, if_pos hv]
        rw [freshCopies]
        simp only [if_pos hv]
        rfl
      · simp only [u₁, if_neg hv]
        rw [freshCopies]
        simp only [if_neg hv]
        rfl
    have hfresh : u.Extends u₁ 1 0 ∧ ∀ w, (u₁.numeric.get? w).isSome = true ↔
        (u.numeric.get? w).isSome = true ∨ v ∈ numeric ∧ w = u.typeCount := by
      by_cases hv : v ∈ numeric
      · simp only [u₁, if_pos hv]
        obtain ⟨ht, hr, hn, hm, he⟩ := freshTypeVar_extends u
        refine ⟨⟨ht, hr, hn, hm, he⟩, fun w => (SortedMap.isSome_get?_insertNew ..).trans ?_⟩
        simp only [hv, true_and, eq_comm (a := w)]
        exact or_comm
      · simp only [u₁, if_neg hv]
        exact ⟨freshTypeVar_extends u, fun w => by simp [hv, freshTypeVar]⟩
    obtain ⟨hcopies, hext, hnumeric⟩ := ih u₁
    rw [hfresh.1.typeCount] at hcopies hnumeric
    rw [hrun]
    refine ⟨?_, ?_, fun w => ?_⟩
    · rw [hcopies]
      rfl
    · have := hfresh.1.trans hext
      rwa [Nat.add_comm 1] at this
    · rw [hnumeric, hfresh.2, or_assoc]
      refine or_congr_right ?_
      simp only [List.zipIdx_cons, List.mem_cons, Prod.mk.injEq, and_or_left, exists_or]
      refine or_congr_left ⟨fun h => ⟨v, h.1, rfl, h.2⟩, ?_⟩
      rintro ⟨x, hx, rfl, hw⟩
      exact ⟨hx, hw⟩

theorem freshRowCopies_run (vs : List RowVar) (u : Unifier) :
    (freshRowCopies vs u).1 = vs.zipIdx u.rowCount ∧
    u.Extends (freshRowCopies vs u).2 0 vs.length ∧
    (freshRowCopies vs u).2.numeric = u.numeric := by
  induction vs generalizing u with
  | nil => exact ⟨rfl, .refl u, rfl⟩
  | cons v vs ih =>
    obtain ⟨hcopies, hext, hnumeric⟩ := ih (freshRowVar u).2
    have hfresh := freshRowVar_extends u
    refine ⟨?_, ?_, hnumeric⟩
    · rw [hfresh.rowCount] at hcopies
      exact congrArg (List.cons (v, u.rowCount)) hcopies
    · have := hfresh.trans hext
      rwa [Nat.add_comm 1] at this

/-- An instance of a scheme is its type with the quantified variables renamed to new ones. -/
theorem instantiate_run {s : Scheme} (ht : s.typeVars.Nodup) (hr : s.rowVars.Nodup) (span : Span)
    (u : Unifier) :
    (s.instantiate span u).1 = s.ty.renamed (numberedFrom u.typeCount s.typeVars)
      (numberedFrom u.rowCount s.rowVars) ∧
    u.Extends (s.instantiate span u).2 s.typeVars.length s.rowVars.length ∧
    ∀ w, ((s.instantiate span u).2.numeric.get? w).isSome = true ↔
      (u.numeric.get? w).isSome = true ∨
        ∃ v ∈ s.numeric, v ∈ s.typeVars ∧ w = numberedFrom u.typeCount s.typeVars v := by
  by_cases hmono : s.isMono = true
  · have hrun : s.instantiate span u = (s.ty, u) := by
      rw [Scheme.instantiate, if_pos hmono]
      rfl
    simp only [Scheme.isMono, Bool.and_eq_true, List.isEmpty_iff] at hmono
    rw [hrun, hmono.1, hmono.2]
    refine ⟨(Ty.renamed_eq_self ?_ ?_).symm, .refl u, fun w => by simp⟩
    · exact fun v _ => numberedFrom_of_not_mem List.not_mem_nil
    · exact fun v _ => numberedFrom_of_not_mem List.not_mem_nil
  · obtain ⟨htypes, hext, hnumeric⟩ := freshCopies_run s.numeric span s.typeVars u
    obtain ⟨hrows, hext', hnumeric'⟩ :=
      freshRowCopies_run s.rowVars (freshCopies s.numeric span s.typeVars u).2
    have hrun : s.instantiate span u =
        (s.ty.substitute (.ofList (freshCopies s.numeric span s.typeVars u).1)
          (.ofList (freshRowCopies s.rowVars (freshCopies s.numeric span s.typeVars u).2).1),
        (freshRowCopies s.rowVars (freshCopies s.numeric span s.typeVars u).2).2) := by
      rw [Scheme.instantiate, if_neg hmono]
      rfl
    rw [hext.rowCount] at hrows
    rw [hrun]
    refine ⟨?_, ?_, fun w => ?_⟩
    · rw [htypes, hrows]
      refine Ty.substitute_eq_renamed (fun v _ => ?_) fun v _ => ?_
      · rw [get?_numbers ht Ty.var]
        split
        · rfl
        · rename_i hv
          rw [numberedFrom_of_not_mem hv, Option.getD_none]
      · rw [← List.map_id (s.rowVars.zipIdx _)]
        refine (congrArg (Option.getD · v) (get?_numbers hr id u.rowCount v)).trans ?_
        split
        · rfl
        · rename_i hv
          rw [numberedFrom_of_not_mem hv, Option.getD_none]
    · have := hext.trans hext'
      rwa [Nat.add_zero, Nat.zero_add] at this
    · rw [hnumeric', hnumeric]
      simp only [mem_zipIdx_numberedFrom ht]

/-! ## Generalizing -/

theorem types_closeAll (u : Unifier) (vs : SortedSet RowVar) :
    (u.closeAll vs).substitution.types = u.substitution.types := by
  have hfold : ∀ (vs : List RowVar) (s : Substitution),
      (vs.foldl (fun s v => s.bindRow v .pure) s).types = s.types := by
    intro vs
    induction vs with
    | nil => exact fun _ => rfl
    | cons v vs ih => exact fun s => ih (s.bindRow v .pure)
  exact hfold vs.toList u.substitution

/-- What the scheme of a type quantifies: what is left in the type and not fixed in the local scopes, and
rows at the top level only. -/
structure Quantifies (u u' : Unifier) (t : Ty) (env : TypeEnv) (topLevel : Bool) (s : Scheme) :
    Prop where
  ty : s.ty = u'.apply t
  nodup : s.typeVars.Nodup
  nodupRows : s.rowVars.Nodup
  types : ∀ v, v ∈ s.typeVars ↔ v ∈ (u'.apply t).vars ∧ v ∉ env.freeVars u.substitution
  rows : ∀ v, v ∈ s.rowVars ↔
    topLevel = true ∧ v ∈ (u'.apply t).rows ∧ v ∉ env.freeRows u.substitution
  numeric : ∀ v, v ∈ s.numeric ↔ v ∈ s.typeVars ∧ (u.numeric.get? v).isSome = true
  same : SameApart u u'

theorem generalize_eq (u : Unifier) (t : Ty) (env : TypeEnv) (topLevel : Bool) :
    generalize t env topLevel u =
      let fixedRows := env.freeRows u.substitution
      let u' := u.closeAll (if topLevel then (u.apply t).closable fixedRows else ∅)
      let vars := (u'.apply t).freeVars.diff (env.freeVars u.substitution)
      ({ typeVars := vars.toList
         rowVars := if topLevel then ((u'.apply t).freeRows.diff fixedRows).toList else []
         numeric := vars.filter (fun v => u'.numeric.contains v)
         ty := u'.apply t }, u') := by
  cases topLevel with
  | _ => rfl

theorem generalize_quantifies (hu : u.Valid) {t : Ty} (ht : t.Below u.rowCount) (env : TypeEnv)
    (topLevel : Bool) :
    u.Does (generalize t env topLevel) (fun s u' => u.Quantifies u' t env topLevel s) := by
  refine ⟨(generalize_does hu ht env topLevel).1, ?_⟩
  have hsorted : ∀ l : SortedSet Nat, l.toList.Nodup := fun l => l.sorted.imp Nat.ne_of_lt
  rw [generalize_eq]
  refine ⟨rfl, hsorted _, ?_, fun v => ?_, fun v => ?_, fun v => ?_, ?_⟩
  · dsimp only
    split
    · exact hsorted _
    · exact List.nodup_nil
  · exact SortedSet.mem_diff.trans (and_congr_left' SortedSet.mem_ofList)
  · cases topLevel with
    | false => simp
    | true =>
      refine SortedSet.mem_diff.trans ((and_congr_left' SortedSet.mem_ofList).trans ?_)
      exact (and_iff_right rfl).symm
  · exact SortedSet.mem_filter
  · simp only [SameApart, apartFromRows, types_closeAll]
    rfl

end Unifier

/-! ## What is free in the local scopes -/

theorem Substitution.mem_rows_apply {s : Substitution} {t : Ty} {v : RowVar} :
    v ∈ (s.apply t).rows ↔ (∃ w ∈ t.vars, v ∈ (s.apply (.var w)).rows) ∨
      ∃ w ∈ t.rows, (s.findRow (.ofVar w)).tail = some v := by
  have htail : ∀ e : Row, (s.findRow e).tail = some v ↔
      ∃ w, e.tail = some w ∧ (s.findRow (.ofVar w)).tail = some v := fun e => by
    cases he : e.tail with
    | none => simp [findRow_closed he, he]
    | some w => simp [findRow_eq_extend he]
  rw [Ty.mem_rows, apply_eq_mapVars]
  simp only [Ty.mem_effects_mapVars, Ty.mem_rows, or_and_right, exists_or]
  refine or_congr ⟨?_, ?_⟩ ⟨?_, ?_⟩
  · rintro ⟨e, ⟨w, hw, he⟩, hv⟩
    exact ⟨w, hw, e, he, hv⟩
  · rintro ⟨w, hw, e, he, hv⟩
    exact ⟨e, ⟨w, hw, he⟩, hv⟩
  · rintro ⟨_, ⟨d, hd, rfl⟩, hv⟩
    obtain ⟨w, hw, hv⟩ := (htail d).1 hv
    exact ⟨w, ⟨d, hd, hw⟩, hv⟩
  · rintro ⟨w, ⟨d, hd, hw⟩, hv⟩
    exact ⟨_, ⟨d, hd, rfl⟩, (htail d).2 ⟨w, hw, hv⟩⟩

/-- Whether a substitution leaves alone what a scheme quantifies: no such variable is bound, and none is
left in what the free variables of the scheme stand for. -/
structure Scheme.Clear (c : Scheme) (s : Substitution) : Prop where
  types : ∀ v ∈ c.typeVars, s.type? v = none
  rows : ∀ v ∈ c.rowVars, s.row? v = none
  free : ∀ w ∈ c.ty.vars, w ∉ c.typeVars → (∀ v ∈ (s.apply (.var w)).vars, v ∉ c.typeVars) ∧
    ∀ v ∈ (s.apply (.var w)).rows, v ∉ c.rowVars
  freeRows : ∀ w ∈ c.ty.rows, w ∉ c.rowVars → ∀ v, (s.findRow (.ofVar w)).tail = some v →
    v ∉ c.rowVars

/-- Nothing is quantified that could be captured. -/
theorem Scheme.clear_mono (t : Ty) (s : Substitution) : (mono t).Clear s :=
  ⟨nofun, nofun, fun _ _ _ => ⟨fun _ _ => List.not_mem_nil, fun _ _ => List.not_mem_nil⟩,
    fun _ _ _ _ _ => List.not_mem_nil⟩

namespace TypeEnv

variable {env : TypeEnv} {s : Substitution} {v : TyVar}

/-- Whether a type variable is left in what a variable stands for that is free in a local scope. -/
def FreeVar (env : TypeEnv) (s : Substitution) (v : TyVar) : Prop :=
  ∃ c ∈ env.locals, ∃ w ∈ c.ty.vars, w ∉ c.typeVars ∧ v ∈ (s.apply (.var w)).vars

/-- Whether a row variable is left in what a variable stands for that is free in a local scope. -/
def FreeRow (env : TypeEnv) (s : Substitution) (v : RowVar) : Prop :=
  ∃ c ∈ env.locals, (∃ w ∈ c.ty.vars, w ∉ c.typeVars ∧ v ∈ (s.apply (.var w)).rows) ∨
    ∃ w ∈ c.ty.rows, w ∉ c.rowVars ∧ (s.findRow (.ofVar w)).tail = some v

theorem mem_freeVars_of_clear (h : ∀ c ∈ env.locals, c.Clear s) :
    v ∈ env.freeVars s ↔ env.FreeVar s v := by
  rw [mem_freeVars]
  refine exists_congr fun c => and_congr_right fun hc => ?_
  rw [Substitution.apply_eq_mapVars, Ty.mem_vars_mapVars]
  constructor
  · rintro ⟨⟨w, hw, hv⟩, hfree⟩
    refine ⟨w, hw, fun hq => hfree ?_, hv⟩
    rw [Substitution.apply_unbound ((h c hc).types w hq)] at hv
    exact List.mem_singleton.1 hv ▸ hq
  · rintro ⟨w, hw, hq, hv⟩
    exact ⟨⟨w, hw, hv⟩, ((h c hc).free w hw hq).1 v hv⟩

theorem mem_freeRows_of_clear (h : ∀ c ∈ env.locals, c.Clear s) :
    v ∈ env.freeRows s ↔ env.FreeRow s v := by
  have hmem : v ∈ env.freeRows s ↔
      ∃ c ∈ env.locals, v ∈ (s.apply c.ty).rows ∧ v ∉ c.rowVars := by
    simp [freeRows]
  rw [hmem]
  refine exists_congr fun c => and_congr_right fun hc => ?_
  rw [Substitution.mem_rows_apply]
  constructor
  · rintro ⟨⟨w, hw, hv⟩ | ⟨w, hw, hv⟩, hfree⟩
    · refine .inl ⟨w, hw, fun hq => ?_, hv⟩
      rw [Substitution.apply_unbound ((h c hc).types w hq)] at hv
      simp [Ty.mem_rows, Ty.effects] at hv
    · refine .inr ⟨w, hw, fun hq => hfree ?_, hv⟩
      rw [Substitution.findRow_unbound rfl ((h c hc).rows w hq)] at hv
      exact Option.some.inj hv ▸ hq
  · rintro (⟨w, hw, hq, hv⟩ | ⟨w, hw, hq, hv⟩)
    · exact ⟨.inl ⟨w, hw, hv⟩, ((h c hc).free w hw hq).2 v hv⟩
    · exact ⟨.inr ⟨w, hw, hv⟩, (h c hc).freeRows w hw hq v hv⟩

end TypeEnv

/-! ## Fresh copies -/

/-- Whether a type is a copy of another one, in which what is shared is left and everything else is
renamed one to one to variables that were not made before, with the same bounds. -/
structure FreshCopy (u u' : Unifier) (t t' : Ty) (f : TyVar → TyVar) (h : RowVar → RowVar)
    (shared : TyVar → Prop) (sharedRow : RowVar → Prop) : Prop where
  eq : t' = t.renamed f h
  injective : Set.InjOn f {v | v ∈ t.vars}
  injectiveRows : Set.InjOn h {v | v ∈ t.rows}
  shares : ∀ v ∈ t.vars, shared v → f v = v
  sharesRows : ∀ v ∈ t.rows, sharedRow v → h v = v
  fresh : ∀ v ∈ t.vars, ¬ shared v → u.typeCount ≤ f v
  freshRows : ∀ v ∈ t.rows, ¬ sharedRow v → u.rowCount ≤ h v
  bounds : ∀ v ∈ t.vars, ¬ shared v →
    (u'.numeric.get? (f v)).isSome = (u.numeric.get? v).isSome

namespace Unifier

variable {u u₁ u₂ : Unifier} {t : Ty} {env : TypeEnv} {topLevel : Bool} {s : Scheme}

theorem Quantifies.typeCount (hq : u.Quantifies u₁ t env topLevel s) : u₁.typeCount = u.typeCount :=
  congrArg Array.size hq.same.eqs.1

/-- Generalizing leaves no other type variables in a type. -/
theorem Quantifies.vars_lt (hq : u.Quantifies u₁ t env topLevel s) (hu : u.Valid)
    (hadv : u.Advances u₁) (hmade : ∀ v ∈ (u.apply t).vars, v < u.typeCount) :
    ∀ v ∈ (u₁.apply t).vars, v < u₁.typeCount := fun v hv => by
  have hconf := hq.same.confines hu hadv.toGrows (Finset.range u.typeCount)
  rw [hq.typeCount]
  exact Finset.mem_range.1 (hconf.vars t (fun w hw => Finset.mem_range.2 (hmade w hw)) v hv)

theorem rows_lt_apply (hu : u.Valid) (ht : t.Below u.rowCount) :
    ∀ v ∈ (u.apply t).rows, v < u.rowCount := fun v hv => by
  obtain ⟨e, he, htail⟩ := Ty.mem_rows.1 hv
  exact hu.substitution.apply_below ht e he v htail

/-- New numbers for variables of a type that were all made copy it. -/
theorem copied_numbered {n m : Nat} (hvars : ∀ v ∈ t.vars, v < n) (hrows : ∀ v ∈ t.rows, v < m)
    (types : List TyVar) (rows : List RowVar) :
    t.Copied (numberedFrom n types) (numberedFrom m rows) where
  vars _ _ := numberedFrom_eq_self hvars
  varsInj := numberedFrom_injOn_below hvars
  rows _ _ := numberedFrom_eq_self hrows
  rowsInj := numberedFrom_injOn_below hrows

/-- Where new variables were made for some that are left in a type, the type and its copy can be made
equal. -/
theorem Extends.copies {types : List TyVar} {rows : List RowVar} (hu : u.Valid)
    (ht : t.Below u.rowCount) (hadv : u.Advances u₁)
    (hext : u.Extends u₁ types.length rows.length) :
    u₁.Copies (u.apply t) (numberedFrom u.typeCount types) (numberedFrom u.rowCount rows) where
  valid := hadv.valid
  vars v hv := by
    have hfree := hu.acyclic.type?_of_mem_vars_apply (t := t) hv
    refine ⟨Substitution.apply_unbound ((hext.type? v).trans hfree),
      .inr (Substitution.apply_unbound ((hext.type? _).trans ?_))⟩
    by_cases hmem : v ∈ types
    · refine Option.eq_none_iff_forall_ne_some.2 fun b hb => ?_
      exact absurd (Substitution.lt_size_of_type? hb) (Nat.not_lt.2 (le_numberedFrom hmem))
    · rwa [numberedFrom_of_not_mem hmem]
  below v hv := by
    have hlt := rows_lt_apply hu ht v hv
    rw [hext.rowCount]
    refine ⟨Nat.lt_add_right _ hlt, ?_⟩
    by_cases hmem : v ∈ rows
    · exact numberedFrom_lt hmem
    · rw [numberedFrom_of_not_mem hmem]
      exact Nat.lt_add_right _ hlt
  rows v hv := by
    obtain ⟨e, he, htail⟩ := Ty.mem_rows.1 hv
    have hfree := hu.acyclic.row?_of_mem_effects_apply (t := t) he htail
    refine .inr ⟨(hext.row? v).trans hfree, (hext.row? _).trans ?_⟩
    by_cases hmem : v ∈ rows
    · refine Option.eq_none_iff_forall_ne_some.2 fun b hb => ?_
      exact absurd (Substitution.lt_size_of_row? hb) (Nat.not_lt.2 (le_numberedFrom hmem))
    · rwa [numberedFrom_of_not_mem hmem]

/-- An instance of a scheme that quantifies what is not fixed is a fresh copy of its type. -/
theorem Quantifies.freshCopy (hq : u.Quantifies u₁ t env topLevel s) (hadv : u.Advances u₁)
    (hvars : ∀ v ∈ (u₁.apply t).vars, v < u₁.typeCount)
    (hrows : ∀ v ∈ (u₁.apply t).rows, v < u₁.rowCount)
    (hbounds : ∀ v, (u.numeric.get? v).isSome = true → v < u.typeCount)
    (henv : ∀ c ∈ env.locals, c.Clear u.substitution) (span : Span) :
    FreshCopy u (s.instantiate span u₁).2 (u₁.apply t) (s.instantiate span u₁).1
      (numberedFrom u₁.typeCount s.typeVars) (numberedFrom u₁.rowCount s.rowVars)
      (env.FreeVar u.substitution)
      (fun v => topLevel = false ∨ env.FreeRow u.substitution v) := by
  obtain ⟨hinst, -, hnumeric⟩ := instantiate_run hq.nodup hq.nodupRows span u₁
  have hcopied := copied_numbered hvars hrows s.typeVars s.rowVars
  have hmem : ∀ v ∈ (u₁.apply t).vars, v ∈ s.typeVars ↔ ¬ env.FreeVar u.substitution v :=
    fun v hv => by rw [hq.types, TypeEnv.mem_freeVars_of_clear henv, and_iff_right hv]
  have hmemRows : ∀ v ∈ (u₁.apply t).rows,
      v ∈ s.rowVars ↔ ¬ (topLevel = false ∨ env.FreeRow u.substitution v) := fun v hv => by
    rw [hq.rows, TypeEnv.mem_freeRows_of_clear henv, and_iff_right hv, not_or, Bool.not_eq_false]
  refine ⟨hq.ty ▸ hinst, hcopied.varsInj, hcopied.rowsInj, fun v hv hs => ?_, fun v hv hs => ?_,
    fun v hv hs => ?_, fun v hv hs => ?_, fun v hv hs => ?_⟩
  · exact numberedFrom_of_not_mem fun hq => (hmem v hv).1 hq hs
  · exact numberedFrom_of_not_mem fun hq => (hmemRows v hv).1 hq hs
  · rw [← hq.typeCount]
    exact le_numberedFrom ((hmem v hv).2 hs)
  · exact hadv.rows.trans (le_numberedFrom ((hmemRows v hv).2 hs))
  · have hv := (hmem v hv).2 hs
    rw [Bool.eq_iff_iff, hnumeric, hq.same.eqs.2.1]
    constructor
    · rintro (hold | ⟨w, hw, hwq, he⟩)
      · have hlt := hbounds _ hold
        rw [← hq.typeCount] at hlt
        exact absurd hlt (Nat.not_lt.2 (le_numberedFrom hv))
      · rw [numberedFrom_injOn _ _ hv hwq he]
        exact ((hq.numeric w).1 hw).2
    · exact fun hn => .inr ⟨v, (hq.numeric v).2 ⟨hv, hn⟩, hv, rfl⟩

/-- Requiring that the type of such a scheme is equal to an instance reports nothing. -/
theorem Quantifies.unify_instance (hq : u.Quantifies u₁ t env topLevel s) (hu₁ : u₁.Valid)
    (ht : t.Below u₁.rowCount) (hs : s.Below u₁.rowCount)
    (hvars : ∀ v ∈ (u₁.apply t).vars, v < u₁.typeCount) (span : Span) (why : Provenance) :
    (unify (s.instantiate span u₁).1 (u₁.apply t) why (s.instantiate span u₁).2).2.errors =
      u.errors := by
  obtain ⟨hinst, hext, -⟩ := instantiate_run hq.nodup hq.nodupRows span u₁
  have hcopies := hext.copies hu₁ ht (instantiate_does hu₁ hs span).1
  rw [hinst, hq.ty]
  refine (hcopies.unify (copied_numbered hvars (rows_lt_apply hu₁ ht) _ _) why).trans ?_
  rw [hext.errors, hq.same.eqs.2.2.2]

end Unifier

/-- A use of the scheme that a type has just been given is a fresh copy of the type, as the type is when
its rows have been closed: it shares the type variables that are free in a local scope, and the row
variables that are, or all of them if this is not the top level. Requiring that it is equal to the type
reports nothing. -/
theorem instantiate_generalize {u : Unifier} (hu : u.Reachable) {t : Ty} (ht : t.Below u.rowCount)
    (hmade : ∀ v ∈ (u.apply t).vars, v < u.typeCount)
    (hbounds : ∀ v, (u.numeric.get? v).isSome = true → v < u.typeCount) {env : TypeEnv}
    (henv : ∀ c ∈ env.locals, c.Clear u.substitution) (topLevel : Bool) (span : Span) :
    let g := generalize t env topLevel u
    let i := g.1.instantiate span g.2
    (∃ f h, FreshCopy u i.2 (g.2.apply t) i.1 f h (env.FreeVar u.substitution)
      (fun v => topLevel = false ∨ env.FreeRow u.substitution v)) ∧
    ∀ why, (Unifier.unify i.1 (g.2.apply t) why i.2).2.errors = u.errors := by
  intro g i
  obtain ⟨hadv, hq⟩ := Unifier.generalize_quantifies hu.valid ht env topLevel
  have hbelow := (Unifier.generalize_does hu.valid ht env topLevel).2
  have ht₁ := ht.mono hadv.rows
  have hvars := hq.vars_lt hu.valid hadv hmade
  have hrows := Unifier.rows_lt_apply hadv.valid ht₁
  exact ⟨⟨_, _, hq.freshCopy hadv hvars hrows hbounds henv span⟩,
    hq.unify_instance hadv.valid ht₁ hbelow hvars span⟩

/-- A state with two type variables, the first of which is numeric, and a row variable. -/
def eachNumberState : Unifier :=
  PassOp.run .empty [.freshTypeVar, .freshTypeVar, .freshRowVar,
    .requireNumeric (.var 0) (.of .synthetic .letType)]

/-- The type of a function that calls another one with numbers, performs what that performs, and has the
type of a local name as its result. -/
def eachNumber : Ty := .fn (.fn (.var 0) .unit (.ofVar 0)) (.var 1) (.ofVar 0)

/-- The local name. -/
def eachNumberEnv : TypeEnv := (TypeEnv.ofGlobals ∅).bind "x" (.mono (.var 1))

/-- The copy has another numeric variable and another row, and the same result. -/
theorem eachNumber_copied :
    let g := generalize eachNumber eachNumberEnv true eachNumberState
    let i := g.1.instantiate .synthetic g.2
    i.1 = .fn (.fn (.var 2) .unit (.ofVar 1)) (.var 1) (.ofVar 1) ∧
      (∃ f h, FreshCopy eachNumberState i.2 (g.2.apply eachNumber) i.1 f h
        (eachNumberEnv.FreeVar eachNumberState.substitution)
        (fun v => true = false ∨ eachNumberEnv.FreeRow eachNumberState.substitution v)) ∧
      ∀ why, (Unifier.unify i.1 (g.2.apply eachNumber) why i.2).2.errors =
        eachNumberState.errors := by
  have hu : eachNumberState.Reachable :=
    Unifier.reachable_run ⟨trivial, trivial, trivial, Ty.below_of_effects_eq_nil rfl, trivial⟩
  have hkeys : ∀ v ∈ eachNumberState.numeric.keys, v < eachNumberState.typeCount := by
    decide +kernel
  have hbounds : ∀ v, (eachNumberState.numeric.get? v).isSome = true →
      v < eachNumberState.typeCount := fun v hv =>
    hkeys v (SortedMap.isSome_get?_iff_mem_keys.1 hv)
  have henv : ∀ c ∈ eachNumberEnv.locals, c.Clear eachNumberState.substitution := fun c hc => by
    obtain rfl := List.mem_singleton.1 hc
    exact Scheme.clear_mono _ _
  exact ⟨by decide +kernel, instantiate_generalize hu (by decide +kernel) (by decide +kernel) hbounds
    henv true .synthetic⟩

/-- Where the substitution binds what a local scheme quantifies, the instance is no fresh copy: nothing is
free in the scope of the identity, but the variable that its quantified one is bound to is shared. -/
theorem identity_captures_shared :
    let why : Provenance := .of .synthetic .letType
    let u := PassOp.run .empty [.freshTypeVar, .freshTypeVar, .unify (.var 0) (.var 1) why]
    let env := (TypeEnv.ofGlobals ∅).pushScope.bind "id" identity
    let g := generalize (.var 1) env false u
    u.Reachable ∧ (∀ v, ¬ env.FreeVar u.substitution v) ∧ g.2.apply (.var 1) = .var 1 ∧
      g.1 = .mono (.var 1) ∧ (g.1.instantiate .synthetic g.2).1 = .var 1 := by
  intro why u env g
  refine ⟨Unifier.reachable_run ⟨trivial, trivial, ⟨?_, ?_⟩, trivial⟩, ?_, by decide +kernel,
    by decide +kernel, by decide +kernel⟩
  · exact Ty.below_of_effects_eq_nil rfl
  · exact Ty.below_of_effects_eq_nil rfl
  · rintro v ⟨c, hc, w, hw, hq, -⟩
    obtain rfl := List.mem_singleton.1 hc
    simp only [identity, Ty.arrow, Ty.vars, List.mem_append, List.mem_singleton, or_self] at hw hq
    exact hq hw

end RowCheck
