import RowCheck.Types.Ty

/-!
Types from the outside: which variables and which rows they have, and what changing a type from
within does to them.
-/
namespace RowCheck
namespace Ty

/-- Induction on types, where a list of types gives the fact for each of its items. -/
theorem induction {P : Ty → Prop} (prim : ∀ p, P (.prim p)) (string : P .string) (unit : P .unit)
    (fn : ∀ p r e, P p → P r → P (.fn p r e)) (tuple : ∀ items, (∀ t ∈ items, P t) → P (.tuple items))
    (named : ∀ name args, (∀ t ∈ args, P t) → P (.named name args))
    (ref : ∀ kind inner, P inner → P (.ref kind inner)) (var : ∀ v, P (.var v)) (error : P .error)
    (t : Ty) : P t :=
  @Ty.rec P (fun l => ∀ t ∈ l, P t) prim string unit
    (fun p r e hp hr => fn p r e hp hr) tuple named ref var error
    (fun _ h => by cases h)
    (fun _ _ ht hts u hu => (List.mem_cons.1 hu).elim (fun e => e ▸ ht) (hts u)) t

mutual

/-- The rows on the arrows of a type. -/
def effects : Ty → List Row
  | fn p r e => e :: (p.effects ++ r.effects)
  | tuple items => effectsList items
  | named _ args => effectsList args
  | ref _ inner => inner.effects
  | prim _ | string | unit | var _ | error => []

def effectsList : List Ty → List Row
  | [] => []
  | t :: ts => t.effects ++ effectsList ts

end

@[simp] theorem effectsList_eq (ts : List Ty) : effectsList ts = ts.flatMap effects := by
  induction ts with
  | nil => rfl
  | cons t ts ih => simp [effectsList, ih]

@[simp] theorem varsList_eq (ts : List Ty) : varsList ts = ts.flatMap vars := by
  induction ts with
  | nil => rfl
  | cons t ts ih => simp [varsList, ih]

@[simp] theorem containsErrorList_eq (ts : List Ty) :
    containsErrorList ts = ts.any containsError := by
  induction ts with
  | nil => rfl
  | cons t ts ih => simp [containsErrorList, ih]

theorem mentionsList_eq (v : TyVar) (ts : List Ty) : mentionsList v ts = ts.any (mentions v) := by
  induction ts with
  | nil => rfl
  | cons t ts ih => simp [mentionsList, ih]

theorem signedRowsList_eq (positive : Bool) (ts : List Ty) :
    signedRowsList positive ts = ts.flatMap (signedRows positive) := by
  induction ts with
  | nil => rfl
  | cons t ts ih => simp [signedRowsList, ih]

theorem mentions_iff {v : TyVar} {t : Ty} : t.mentions v = true ↔ v ∈ t.vars := by
  induction t using Ty.induction with
  | fn p r e hp hr => simp [mentions, vars, hp, hr]
  | tuple items ih | named _ items ih =>
    simp only [mentions, mentionsList_eq, vars, varsList_eq, List.any_eq_true, List.mem_flatMap]
    exact exists_congr fun t => and_congr_right (ih t)
  | ref _ inner ih => simpa [mentions, vars] using ih
  | var w => simpa [mentions, vars] using eq_comm
  | _ => simp [mentions, vars]

/-- Row variables are the tails of rows, whatever their sign. -/
theorem mem_signedRows (positive : Bool) {v : RowVar} {t : Ty} :
    (∃ sign, (v, sign) ∈ t.signedRows positive) ↔ ∃ e ∈ t.effects, e.tail = some v := by
  induction t using Ty.induction generalizing positive with
  | fn p r e hp hr =>
    have hp := hp (!positive)
    have hr := hr positive
    simp only [signedRows, effects, List.mem_append, List.mem_map, Option.mem_toList,
      Prod.mk.injEq, List.mem_cons, or_and_right, exists_or, exists_eq_left, ← hp, ← hr]
    simp only [or_comm, or_assoc]
    constructor
    · rintro (h | h | ⟨_, w, hw, rfl, -⟩)
      · exact .inr (.inl h)
      · exact .inr (.inr h)
      · exact .inl hw
    · rintro (h | h | h)
      · exact .inr (.inr ⟨positive, v, h, rfl, rfl⟩)
      · exact .inl h
      · exact .inr (.inl h)
  | tuple items ih | named _ items ih =>
    simp only [signedRows, signedRowsList_eq, effects, effectsList_eq, List.mem_flatMap]
    constructor
    · rintro ⟨sign, t, ht, h⟩
      obtain ⟨e, he, hv⟩ := (ih t ht positive).1 ⟨sign, h⟩
      exact ⟨e, ⟨t, ht, he⟩, hv⟩
    · rintro ⟨e, ⟨t, ht, he⟩, hv⟩
      obtain ⟨sign, h⟩ := (ih t ht positive).2 ⟨e, he, hv⟩
      exact ⟨sign, t, ht, h⟩
  | ref _ inner ih => simpa [signedRows, effects] using ih positive
  | _ => simp [signedRows, effects]

theorem mem_rows {v : RowVar} {t : Ty} : v ∈ t.rows ↔ ∃ e ∈ t.effects, e.tail = some v := by
  rw [← mem_signedRows true, rows]
  simp

/-! ## Changing types from within -/

section

variable {f f' : TyVar → Ty} {g g' : Row → Row}

theorem mapVars_congr {t : Ty} (hf : ∀ v ∈ t.vars, f v = f' v) (hg : ∀ e ∈ t.effects, g e = g' e) :
    t.mapVars f g = t.mapVars f' g' := by
  induction t using Ty.induction with
  | fn p r e hp hr =>
    simp only [vars, List.mem_append, effects, List.mem_cons] at hf hg
    simp only [mapVars]
    rw [hp (fun v h => hf v (.inl h)) (fun e h => hg e (.inr (.inl h))),
      hr (fun v h => hf v (.inr h)) (fun e h => hg e (.inr (.inr h))), hg e (.inl rfl)]
  | tuple items ih | named _ items ih =>
    simp only [vars, varsList_eq, List.mem_flatMap, effects, effectsList_eq] at hf hg
    simp only [mapVars, mapVarsList_eq_map]
    congr 1
    refine List.map_congr_left fun t ht => ih t ht ?_ ?_
    · exact fun v h => hf v ⟨t, ht, h⟩
    · exact fun e h => hg e ⟨t, ht, h⟩
  | ref _ inner ih =>
    simp only [mapVars]
    rw [ih hf hg]
  | var v => exact hf v (by simp [vars])
  | _ => rfl

theorem mapVars_eq_self {t : Ty} (hf : ∀ v ∈ t.vars, f v = .var v)
    (hg : ∀ e ∈ t.effects, g e = e) : t.mapVars f g = t := by
  have hid : t.mapVars f g = t.mapVars .var id := mapVars_congr hf hg
  rw [hid]
  clear hf hg hid
  induction t using Ty.induction with
  | fn p r e hp hr => simp [mapVars, hp, hr]
  | tuple items ih | named _ items ih =>
    simp only [mapVars, mapVarsList_eq_map]
    rw [List.map_congr_left ih, List.map_id']
  | ref _ inner ih => simp [mapVars, ih]
  | _ => rfl

theorem mapVars_mapVars (t : Ty) :
    (t.mapVars f g).mapVars f' g' =
      t.mapVars (fun v => (f v).mapVars f' g') (fun e => g' (g e)) := by
  induction t using Ty.induction with
  | fn p r e hp hr => simp [mapVars, hp, hr]
  | tuple items ih | named _ items ih =>
    simp only [mapVars, mapVarsList_eq_map, List.map_map]
    congr 1
    exact List.map_congr_left ih
  | ref _ inner ih => simp [mapVars, ih]
  | _ => rfl

theorem mem_vars_mapVars {t : Ty} {w : TyVar} :
    w ∈ (t.mapVars f g).vars ↔ ∃ v ∈ t.vars, w ∈ (f v).vars := by
  induction t using Ty.induction with
  | fn p r e hp hr => simp [mapVars, vars, hp, hr, or_and_right, exists_or]
  | tuple items ih | named _ items ih =>
    simp only [mapVars, mapVarsList_eq_map, vars, varsList_eq, List.mem_flatMap, List.mem_map]
    constructor
    · rintro ⟨_, ⟨t, ht, rfl⟩, h⟩
      obtain ⟨v, hv, h⟩ := (ih t ht).1 h
      exact ⟨v, ⟨t, ht, hv⟩, h⟩
    · rintro ⟨v, ⟨t, ht, hv⟩, h⟩
      exact ⟨_, ⟨t, ht, rfl⟩, (ih t ht).2 ⟨v, hv, h⟩⟩
  | ref _ inner ih => simpa [mapVars, vars] using ih
  | var v => simp [mapVars, vars]
  | _ => simp [mapVars, vars]

theorem mem_effects_mapVars {t : Ty} {e : Row} :
    e ∈ (t.mapVars f g).effects ↔
      (∃ v ∈ t.vars, e ∈ (f v).effects) ∨ ∃ d ∈ t.effects, e = g d := by
  induction t using Ty.induction with
  | fn p r d hp hr =>
    simp only [mapVars, effects, vars, List.mem_cons, List.mem_append, hp, hr, or_and_right,
      exists_or, exists_eq_left]
    exact Iff.of_eq (by ac_rfl)
  | tuple items ih | named _ items ih =>
    simp only [mapVars, mapVarsList_eq_map, vars, varsList_eq, effects, effectsList_eq,
      List.mem_flatMap, List.mem_map]
    constructor
    · rintro ⟨_, ⟨t, ht, rfl⟩, h⟩
      rcases (ih t ht).1 h with ⟨v, hv, h⟩ | ⟨d, hd, h⟩
      · exact .inl ⟨v, ⟨t, ht, hv⟩, h⟩
      · exact .inr ⟨d, ⟨t, ht, hd⟩, h⟩
    · rintro (⟨v, ⟨t, ht, hv⟩, h⟩ | ⟨d, ⟨t, ht, hd⟩, h⟩)
      · exact ⟨_, ⟨t, ht, rfl⟩, (ih t ht).2 (.inl ⟨v, hv, h⟩)⟩
      · exact ⟨_, ⟨t, ht, rfl⟩, (ih t ht).2 (.inr ⟨d, hd, h⟩)⟩
  | ref _ inner ih => simpa [mapVars, vars, effects] using ih
  | var v => simp [mapVars, vars, effects]
  | _ => simp [mapVars, vars, effects]

theorem containsError_mapVars {t : Ty} :
    (t.mapVars f g).containsError = true ↔
      t.containsError = true ∨ ∃ v ∈ t.vars, (f v).containsError = true := by
  induction t using Ty.induction with
  | fn p r e hp hr =>
    simp only [mapVars, containsError, vars, Bool.or_eq_true, List.mem_append, hp, hr,
      or_and_right, exists_or]
    exact Iff.of_eq (by ac_rfl)
  | tuple items ih | named _ items ih =>
    simp only [mapVars, mapVarsList_eq_map, vars, varsList_eq, containsError, containsErrorList_eq,
      List.mem_flatMap, List.any_eq_true, List.mem_map]
    constructor
    · rintro ⟨_, ⟨t, ht, rfl⟩, h⟩
      rcases (ih t ht).1 h with h | ⟨v, hv, h⟩
      · exact .inl ⟨t, ht, h⟩
      · exact .inr ⟨v, ⟨t, ht, hv⟩, h⟩
    · rintro (⟨t, ht, h⟩ | ⟨v, ⟨t, ht, hv⟩, h⟩)
      · exact ⟨_, ⟨t, ht, rfl⟩, (ih t ht).2 (.inl h)⟩
      · exact ⟨_, ⟨t, ht, rfl⟩, (ih t ht).2 (.inr ⟨v, hv, h⟩)⟩
  | ref _ inner ih => simpa [mapVars, containsError, vars] using ih
  | var v => simp [mapVars, vars, containsError]
  | _ => simp [mapVars, vars, containsError]

end

/-! ## Parts -/

/-- Whether the variables of a type have one property and its effect rows another one, and no failed
expression's type is in it. -/
structure Over (P : TyVar → Prop) (R : Row → Prop) (t : Ty) : Prop where
  vars : ∀ v ∈ t.vars, P v
  effects : ∀ e ∈ t.effects, R e
  proper : t.containsError = false

section

variable {P : TyVar → Prop} {R : Row → Prop}

theorem over_var {v : TyVar} : (var v).Over P R ↔ P v :=
  ⟨fun h => h.vars v (by simp [Ty.vars]),
    fun h => ⟨by simpa [Ty.vars] using h, by simp [Ty.effects], rfl⟩⟩

theorem over_fn {p r : Ty} {e : Row} : (fn p r e).Over P R ↔ p.Over P R ∧ r.Over P R ∧ R e := by
  constructor
  · rintro ⟨hv, he, hp⟩
    rw [containsError, Bool.or_eq_false_iff] at hp
    refine ⟨⟨fun v h => ?_, fun d h => ?_, hp.1⟩, ⟨fun v h => ?_, fun d h => ?_, hp.2⟩, ?_⟩
    · exact hv v (List.mem_append_left _ h)
    · exact he d (List.mem_cons_of_mem _ (List.mem_append_left _ h))
    · exact hv v (List.mem_append_right _ h)
    · exact he d (List.mem_cons_of_mem _ (List.mem_append_right _ h))
    · exact he e List.mem_cons_self
  · rintro ⟨hp, hr, he⟩
    refine ⟨fun v hv => ?_, fun d hd => ?_, by simp [containsError, hp.proper, hr.proper]⟩
    · exact (List.mem_append.1 hv).elim (hp.vars v) (hr.vars v)
    · rcases List.mem_cons.1 hd with rfl | hd
      · exact he
      · exact (List.mem_append.1 hd).elim (hp.effects d) (hr.effects d)

theorem over_ref {k : BorrowKind} {t : Ty} : (ref k t).Over P R ↔ t.Over P R :=
  ⟨fun h => ⟨h.vars, h.effects, h.proper⟩, fun h => ⟨h.vars, h.effects, h.proper⟩⟩

theorem over_tuple {items : List Ty} : (tuple items).Over P R ↔ ∀ t ∈ items, t.Over P R := by
  constructor
  · rintro ⟨hv, he, hp⟩ t ht
    simp only [Ty.vars, varsList_eq, Ty.effects, effectsList_eq, containsError, containsErrorList_eq,
      List.mem_flatMap, List.any_eq_false, Bool.not_eq_true] at hv he hp
    exact ⟨fun v h => hv v ⟨t, ht, h⟩, fun e h => he e ⟨t, ht, h⟩, hp t ht⟩
  · intro h
    refine ⟨fun v hv => ?_, fun e he => ?_, ?_⟩
    · simp only [Ty.vars, varsList_eq, List.mem_flatMap] at hv
      obtain ⟨t, ht, hv⟩ := hv
      exact (h t ht).vars v hv
    · simp only [Ty.effects, effectsList_eq, List.mem_flatMap] at he
      obtain ⟨t, ht, he⟩ := he
      exact (h t ht).effects e he
    · simpa [containsError] using fun t ht => (h t ht).proper

theorem over_named {name : String} {args : List Ty} :
    (named name args).Over P R ↔ ∀ t ∈ args, t.Over P R :=
  ⟨fun h => over_tuple.1 ⟨h.vars, h.effects, h.proper⟩,
    fun h => ⟨(over_tuple.2 h).vars, (over_tuple.2 h).effects, (over_tuple.2 h).proper⟩⟩

end

end Ty
end RowCheck
