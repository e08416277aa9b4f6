import RowCheck.Proofs.Principal.Principal

/-!
Canonical schemes. Since variables are numbered by their first occurrence, a canonical scheme depends
only on which types the scheme has: two schemes that have the same types, but for effects, are numbered
alike.
-/
namespace RowCheck

section

variable {h : Nat → Nat}

theorem firstOccurrences_map {l : List Nat} (hinj : ∀ x ∈ l, ∀ y ∈ l, h x = h y → x = y) :
    firstOccurrences (l.map h) = (firstOccurrences l).map h := by
  suffices hfold : ∀ (l seen : List Nat),
      (∀ x ∈ seen ++ l, ∀ y ∈ seen ++ l, h x = h y → x = y) →
      (l.map h).foldl (fun seen x => if x ∈ seen then seen else seen ++ [x]) (seen.map h) =
        (l.foldl (fun seen x => if x ∈ seen then seen else seen ++ [x]) seen).map h from
    hfold l [] hinj
  intro l
  induction l with
  | nil => exact fun _ _ => rfl
  | cons y l ih =>
    intro seen hinj
    have hmem : h y ∈ seen.map h ↔ y ∈ seen := by
      refine ⟨fun hy => ?_, List.mem_map_of_mem⟩
      obtain ⟨x, hx, hxy⟩ := List.mem_map.1 hy
      exact hinj x (by simp [hx]) y (by simp) hxy ▸ hx
    rw [List.map_cons, List.foldl_cons, List.foldl_cons]
    by_cases hy : y ∈ seen
    · rw [if_pos (hmem.2 hy), if_pos hy]
      refine ih seen fun x hx z hz => hinj x ?_ z ?_
      · exact (List.mem_append.1 hx).elim (fun h => by simp [h]) fun h => by simp [h]
      · exact (List.mem_append.1 hz).elim (fun h => by simp [h]) fun h => by simp [h]
    · rw [if_neg (mt hmem.1 hy), if_neg hy, ← List.map_singleton, ← List.map_append]
      exact ih (seen ++ [y]) (by simpa using hinj)

theorem SortedMap.get?_ofList_mapKeys {ν : Type} {es : List (Nat × ν)} {v : Nat}
    (hinj : ∀ e ∈ es, h e.1 = h v → e.1 = v) :
    (ofList (es.map (Prod.map h id))).get? (h v) = (ofList es).get? v := by
  suffices hfold : ∀ m m' : SortedMap Nat ν, m'.get? (h v) = m.get? v →
      ((es.map (Prod.map h id)).foldl (fun m e => m.insert e.1 e.2) m').get? (h v) =
        (es.foldl (fun m e => m.insert e.1 e.2) m).get? v from hfold ∅ ∅ rfl
  induction es with
  | nil => exact fun _ _ => id
  | cons e es ih =>
    intro m m' hm
    rw [List.forall_mem_cons] at hinj
    refine ih hinj.2 _ _ ?_
    have hkey : h e.1 = h v ↔ e.1 = v := ⟨hinj.1, congrArg h⟩
    simp only [get?_insert, Prod.map_fst, Prod.map_snd, id_eq, hkey, hm]

end

theorem mem_of_mem_firstOccurrences {l : List Nat} {x : Nat} (h : x ∈ firstOccurrences l) : x ∈ l := by
  suffices hfold : ∀ l seen : List Nat,
      x ∈ l.foldl (fun seen x => if x ∈ seen then seen else seen ++ [x]) seen → x ∈ seen ∨ x ∈ l from
    (hfold l [] h).resolve_left List.not_mem_nil
  intro l
  induction l with
  | nil => exact fun _ => .inl
  | cons y l ih =>
    intro seen hx
    rw [List.foldl_cons] at hx
    rcases ih _ hx with hx | hx
    · split at hx
      · exact .inl hx
      · simpa [or_assoc] using List.mem_append.1 hx |>.imp id fun h => .inl (List.mem_singleton.1 h)
    · exact .inr (List.mem_cons_of_mem y hx)

namespace Ty

variable {f g : TyVar → Ty}

/-- The assignments under which a type is the same agree on its variables. -/
theorem eq_of_under_eq {t : Ty} (h : t.under f = t.under g) : ∀ v ∈ t.vars, f v = g v := by
  induction t using Ty.induction with
  | fn p r e hp hr =>
    simp only [under_fn, arrow, fn.injEq, and_true] at h
    simp only [vars, List.mem_append]
    exact fun v hv => hv.elim (hp h.1 v) (hr h.2 v)
  | tuple items ih | named _ items ih =>
    simp only [under_tuple, under_named, tuple.injEq, named.injEq, true_and, List.map_inj_left] at h
    simp only [vars, varsList_eq, List.mem_flatMap]
    rintro v ⟨t, ht, hv⟩
    exact ih t ht (h t ht) v hv
  | ref _ inner ih =>
    simp only [under_ref, ref.injEq, true_and] at h
    exact ih h
  | var w =>
    intro v hv
    obtain rfl := List.mem_singleton.1 hv
    exact h
  | _ => simp [vars]

theorem vars_under_var (h : TyVar → TyVar) (t : Ty) :
    (t.under fun v => .var (h v)).vars = t.vars.map h := by
  induction t using Ty.induction with
  | fn p r e hp hr => simp [vars, arrow, hp, hr]
  | tuple items ih | named _ items ih =>
    simp only [under_tuple, under_named, vars, varsList_eq, List.flatMap_map, List.map_flatMap]
    exact List.flatMap_congr ih
  | ref _ inner ih => simpa [vars] using ih
  | _ => rfl

/-- The variable that a type is, or another one if it is none. -/
def varOr (other : TyVar) : Ty → TyVar
  | var v => v
  | _ => other

end Ty

namespace Scheme

/-- What a variable is numbered as, by its first occurrence in a list. -/
def numberIn (l : List TyVar) (v : TyVar) : Ty :=
  (((SortedMap.ofList (firstOccurrences l).zipIdx).get? v).map Ty.var).getD (.var v)

theorem erase_ty_canonical (s : Scheme) : s.canonical.erase.ty = s.ty.under (numberIn s.ty.vars) := by
  show (s.ty.substitute _ _).under Ty.var = _
  simp only [Ty.substitute, Ty.under_mapVars, SortedMap.get?_mapValues]
  refine Ty.under_congr fun v _ => ?_
  rw [numberIn]
  cases (SortedMap.ofList (firstOccurrences s.ty.vars).zipIdx).get? v <;> rfl

theorem numberIn_map {h : TyVar → TyVar} {l : List TyVar}
    (hinj : ∀ x ∈ l, ∀ y ∈ l, h x = h y → x = y) {v : TyVar} (hv : v ∈ l) :
    numberIn (l.map h) (h v) = numberIn l v := by
  have hkeys : ∀ e ∈ (firstOccurrences l).zipIdx, h e.1 = h v → e.1 = v := fun e he =>
    hinj _ (mem_of_mem_firstOccurrences (List.fst_mem_of_mem_zipIdx he)) _ hv
  obtain ⟨i, hi⟩ : ∃ i, (SortedMap.ofList (firstOccurrences l).zipIdx).get? v = some i := by
    refine Option.isSome_iff_exists.1 (SortedMap.isSome_get?_ofList ?_)
    rw [List.zipIdx_map_fst]
    exact mem_firstOccurrences hv
  simp only [numberIn, firstOccurrences_map hinj, List.zipIdx_map, SortedMap.get?_ofList_mapKeys hkeys,
    hi, Option.map_some, Option.getD_some]

/-- Of two types that can each be had from the other one, one is the other with its variables renamed. -/
theorem exists_renaming {t t' : Ty} (h : ∃ g, t.under .var = t'.under g)
    (h' : ∃ g, t'.under .var = t.under g) : ∃ k : TyVar → TyVar,
      (∀ v ∈ t.vars, ∀ w ∈ t.vars, k v = k w → v = w) ∧ t'.under .var = t.under fun v => .var (k v) := by
  obtain ⟨g, hg⟩ := h
  obtain ⟨g', hg'⟩ := h'
  have hback : ∀ v ∈ t.vars, (g' v).mapVars g id = .var v := by
    have hboth : (t'.under Ty.var).mapVars g id = t'.under g := Ty.mapVars_under t'
    rw [hg', Ty.mapVars_under, ← hg] at hboth
    exact Ty.eq_of_under_eq hboth
  have hk : ∀ v ∈ t.vars, g' v = .var ((g' v).varOr v) ∧ g ((g' v).varOr v) = .var v := by
    intro v hv
    have hv := hback v hv
    cases hw : g' v with
    | var w => exact ⟨rfl, by rwa [hw] at hv⟩
    | _ =>
      rw [hw] at hv
      cases hv
  refine ⟨fun v => (g' v).varOr v, fun v hv w hw hsame => ?_,
    hg'.trans (Ty.under_congr fun v hv => (hk v hv).1)⟩
  exact Ty.var.inj ((hk v hv).2.symm.trans ((congrArg g hsame).trans (hk w hw).2))

/-- Numbered, two schemes without bounds that have the same types are the same but for effects. -/
theorem erase_canonical_eq {s s' : Scheme} (hs : s.numeric = ∅) (hs' : s'.numeric = ∅)
    (h : ∀ t, (∃ g, t = s.ty.under g) ↔ ∃ g, t = s'.ty.under g) :
    s.canonical.erase = s'.canonical.erase := by
  obtain ⟨k, hinj, hunder⟩ := exists_renaming ((h _).1 ⟨.var, rfl⟩) ((h _).2 ⟨.var, rfl⟩)
  have hvars : s'.ty.vars = s.ty.vars.map k := by
    rw [← Ty.vars_under_var, ← hunder]
    exact ((Ty.vars_under_var id s'.ty).trans (List.map_id _)).symm
  have hlength : (firstOccurrences s'.ty.vars).length = (firstOccurrences s.ty.vars).length := by
    rw [hvars, firstOccurrences_map hinj, List.length_map]
  have hty : s.canonical.erase.ty = s'.canonical.erase.ty := by
    have hread : ∀ f, s'.ty.under f = s.ty.under fun v => f (k v) := fun f => by
      have hread : (s'.ty.under Ty.var).mapVars f id = s'.ty.under f := Ty.mapVars_under s'.ty
      rw [← hread, hunder, Ty.mapVars_under]
      rfl
    rw [erase_ty_canonical, erase_ty_canonical, hread, hvars]
    exact Ty.under_congr fun v hv => (numberIn_map hinj hv).symm
  have hrest : ∀ c : Scheme, c.numeric = ∅ → c.canonical.erase =
      ⟨List.range (firstOccurrences c.ty.vars).length, [], ∅, c.canonical.erase.ty⟩ := fun c hc => by
    unfold canonical erase
    rw [hc]
    rfl
  rw [hrest s hs, hrest s' hs', hlength, hty]

end Scheme
end RowCheck
