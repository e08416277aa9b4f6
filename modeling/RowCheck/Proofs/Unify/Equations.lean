import RowCheck.Proofs.Unify.Reading

/-!
Solving as a list of equations that are left. The solver recurses on the first of two types, and goes on
from what a variable stands for at most so many times. Here it is described by what it has still to do:
each turn looks up the heads of two types and then binds a variable, takes the types apart, or fails.
-/
namespace RowCheck

/-- What is left to be made equal. -/
inductive Equation where
  | types (a b : Ty)
  | rows (e f : Row)

namespace Equation

open Unifier

/-- The equations between the parts of two types of one shape, none of them a variable. -/
def parts : Ty → Ty → Option (List Equation)
  | .fn p r e, .fn p' r' e' => some [types p p', types r r', rows e e']
  | .tuple items, .tuple items' =>
    if items.length = items'.length then some (List.zipWith types items items') else none
  | .named name args, .named name' args' =>
    if name = name' ∧ args.length = args'.length then some (List.zipWith types args args') else none
  | .ref kind inner, .ref kind' inner' => if kind = kind' then some [types inner inner'] else none
  | .prim p, .prim q => if p = q then some [] else none
  | .string, .string | .unit, .unit => some []
  | _, _ => none

/-- Record that types are taken apart. -/
def noteParts (a b : Ty) : SolveM Unit :=
  match a with
  | .fn .. => note .decompose a b "A -[e]-> B ~ C -[f]-> D: unify A ~ C, B ~ D, e ~ f"
  | .tuple _ => note .decompose a b "tuple: unify element-wise"
  | .named name _ => note .decompose a b s!"{name}: unify arguments"
  | _ => pure ()

/-- What is done with two heads, and the equations that this leaves. -/
def turn : Ty → Ty → SolveM (List Equation)
  | .error, b => do
    absorb .error b
    return []
  | a, .error => do
    absorb a .error
    return []
  | .var v, .var w => do
    if v = w then note .identity (.var v) (.var w) "same variable" else bindVar v (.var w)
    return []
  | .var v, b => do
    bindVar v b
    return []
  | a, .var w => do
    bindVar w a
    return []
  | a, b =>
    match parts a b with
    | some es => do
      noteParts a b
      return es
    | none => throw .mismatch

/-- Solve an equation up to the equations that are left of it. -/
def step : Equation → SolveM (List Equation)
  | types a b => do
    let a ← find a
    let b ← find b
    turn a b
  | rows e f => do
    solveRows e f
    return []

/-- Solve equations one after the other, up to the first that fails. -/
inductive Solving : List Equation → Unifier → Except UnifyFailure Unit → Unifier → Prop
  | done {u : Unifier} : Solving [] u (.ok ()) u
  | fail {e : Equation} {es : List Equation} {u u' : Unifier} {why : UnifyFailure} :
    e.step.run u = (.error why, u') → Solving (e :: es) u (.error why) u'
  | next {e : Equation} {es more : List Equation} {u u' u'' : Unifier}
      {r : Except UnifyFailure Unit} :
    e.step.run u = (.ok more, u') → Solving (more ++ es) u' r u'' → Solving (e :: es) u r u''

variable {es es' : List Equation} {u u' u'' : Unifier} {r r' : Except UnifyFailure Unit}

/-- Solving equations has one outcome. -/
theorem Solving.unique (h : Solving es u r u') (h' : Solving es u r' u'') : r = r' ∧ u' = u'' := by
  induction h generalizing r' u'' with
  | done => cases h' with
    | done => exact ⟨rfl, rfl⟩
  | fail hstep => cases h' with
    | fail hstep' =>
      cases hstep.symm.trans hstep'
      exact ⟨rfl, rfl⟩
    | next hstep' _ => cases hstep.symm.trans hstep'
  | next hstep _ ih => cases h' with
    | fail hstep' => cases hstep.symm.trans hstep'
    | next hstep' hrest =>
      cases hstep.symm.trans hstep'
      exact ih hrest

theorem Solving.append (h : Solving es u (.ok ()) u') (h' : Solving es' u' r u'') :
    Solving (es ++ es') u r u'' := by
  generalize hr : (.ok () : Except UnifyFailure Unit) = ok at h
  induction h with
  | done => exact h'
  | fail _ => cases hr
  | next hstep _ ih => exact .next hstep (by simpa using ih h' hr)

theorem Solving.append_error {why : UnifyFailure} (h : Solving es u (.error why) u')
    (es' : List Equation) : Solving (es ++ es') u (.error why) u' := by
  generalize hr : (.error why : Except UnifyFailure Unit) = failed at h
  induction h with
  | done => cases hr
  | fail hstep =>
    cases hr
    exact .fail hstep
  | next hstep _ ih => exact .next hstep (by simpa using ih hr)

end Equation

namespace Unifier

variable {u u' u'' : Unifier}

theorem run_bind {α β : Type} (m : SolveM α) (k : α → SolveM β) (u : Unifier) :
    (m >>= k).run u = ExceptT.bindCont (m := UnifyM) k (m.run u).1 (m.run u).2 := rfl

/-- What an action comes to that leaves no equations after it. -/
theorem run_leave (m : SolveM Unit) (u : Unifier) :
    (m >>= fun _ => pure ([] : List Equation)).run u =
      ((m.run u).1.map fun _ => [], (m.run u).2) := by
  rw [run_bind]
  cases (m.run u).1 with
  | ok _ => rfl
  | error _ => rfl

/-! ## States that look the same -/

/-- Whether two states look the same: types and rows stand for the same in them, and they have the same
bounds and as many errors. -/
structure Alike (u u' : Unifier) : Prop where
  apply : ∀ t, u'.apply t = u.apply t
  rows : u'.substitution.rows = u.substitution.rows
  numeric : u'.numeric = u.numeric
  errors : u'.errors.length = u.errors.length

theorem Alike.refl (u : Unifier) : u.Alike u := ⟨fun _ => rfl, rfl, rfl, rfl⟩

theorem Alike.trans (h : u.Alike u') (h' : u'.Alike u'') : u.Alike u'' where
  apply t := (h'.apply t).trans (h.apply t)
  rows := h'.rows.trans h.rows
  numeric := h'.numeric.trans h.numeric
  errors := h'.errors.trans h.errors

theorem Alike.findRow (h : u.Alike u') (e : Row) : u'.findRow e = u.findRow e :=
  Substitution.findRow_congr h.rows e

theorem note_alike (hu : u.Valid) (action : UnifyAction) (left right : Ty) (detail : String) :
    u.Does (note action left right detail) (fun _ u' => u.Alike u') :=
  (note_bounds hu ..).imp fun _ _ _ ⟨hs, hn, _, he⟩ =>
    ⟨fun t => by rw [apply, hs]; rfl, by rw [hs], hn, by rw [he]⟩

/-- Whether a type is the head of another one: an unbound variable, or a type that is no variable. -/
structure Head (u : Unifier) (t h : Ty) : Prop where
  apply : u.apply h = u.apply t
  unbound : ∀ v, h = .var v → u.apply (.var v) = .var v
  below : h.Below u.rowCount

theorem Head.alike {t h : Ty} (hh : u.Head t h) (ha : u.Alike u') : u'.Head t h where
  apply := by rw [ha.apply, ha.apply, hh.apply]
  unbound v hv := (ha.apply _).trans (hh.unbound v hv)
  below := by
    rw [rowCount, ha.rows]
    exact hh.below

theorem find_alike (hu : u.Valid) {t : Ty} (ht : t.Below u.rowCount) :
    u.Does (find t) (fun h u' => u.Alike u' ∧ u.Head t h) := by
  obtain ⟨hadv, heq, hsame, hunbound, hbelow, hrows⟩ := find_does hu ht
  refine ⟨hadv, ⟨hsame, hrows, rfl, rfl⟩, ?_, fun v hv => ?_, ?_⟩
  · rw [← hsame, ← heq, hsame]
  · rw [← hsame]
    exact Substitution.apply_unbound (hunbound v hv)
  · rwa [rowCount, hrows] at hbelow

/-! ## Binding a variable -/

/-- Whether a type that is required to be numeric is refused. -/
def refusesNumeric : Ty → Bool
  | .var _ | .error => false
  | .prim p => !p.isNumeric
  | _ => true

/-- What a state looks like in which a type has been required to be numeric. -/
structure Requires (u u' : Unifier) (t : Ty) : Prop where
  apply : ∀ x, u'.apply x = u.apply x
  rows : u'.substitution.rows = u.substitution.rows
  numeric : ∀ w, (u'.numeric.get? w).isSome = true ↔
    u.apply t = .var w ∨ (u.numeric.get? w).isSome = true
  errors : u'.errors.length = u.errors.length + if refusesNumeric (u.apply t) then 1 else 0

/-- Nothing is done about a type that is neither a variable nor refused. -/
theorem Alike.requires (h : u.Alike u') {t : Ty} (hr : refusesNumeric (u.apply t) = false)
    (hne : ∀ w, u.apply t ≠ .var w) : u.Requires u' t where
  apply := h.apply
  rows := h.rows
  numeric w := by rw [h.numeric, or_iff_right (hne w)]
  errors := by simp [h.errors, hr]

theorem Alike.report_requires (h : u.Alike u') (hu' : u'.Valid) {t : Ty}
    (hr : refusesNumeric (u.apply t) = true) (hne : ∀ w, u.apply t ≠ .var w) (d : Diagnostic) :
    u'.Does (report d) (fun _ u'' => u.Requires u'' t) := by
  refine ⟨(report_does hu' d).1, h.apply, h.rows, fun w => ?_, ?_⟩
  · show (u'.numeric.get? w).isSome = true ↔ _
    rw [h.numeric, or_iff_right (hne w)]
  · show (u'.errors ++ [d]).length = _
    rw [List.length_append, h.errors, if_pos hr]
    rfl

theorem requireNumeric_requires (hu : u.Valid) {t : Ty} (ht : t.Below u.rowCount)
    (why : Provenance) : u.Does (requireNumeric t why) (fun _ u' => u.Requires u' t) := by
  unfold requireNumeric
  refine (find_alike hu ht).bind fun h u₁ h₁ hfind => ?_
  obtain ⟨hsame, hhead⟩ := hfind
  have happly : u.apply h = u.apply t := hhead.apply
  cases h with
  | var v =>
    have hv : u.apply t = .var v := happly.symm.trans (hhead.unbound v rfl)
    refine ⟨(addNumeric_does h₁.valid v why.span).1, hsame.apply, hsame.rows, fun w => ?_, ?_⟩
    · refine (SortedMap.isSome_get?_insertNew ..).trans ?_
      rw [hsame.numeric, hv, Ty.var.injEq]
    · rw [hv]
      exact hsame.errors
  | error => exact .pure h₁.valid (hsame.requires (happly ▸ rfl) (by simp [← happly]))
  | prim p =>
    dsimp only
    split
    · rename_i hnum
      refine .pure h₁.valid (hsame.requires ?_ (by simp [← happly]))
      simp [← happly, refusesNumeric, hnum]
    · rename_i hnum
      refine .get_bind (hsame.report_requires h₁.valid ?_ (by simp [← happly]) _)
      simpa [← happly, refusesNumeric] using hnum
  | _ =>
    refine .get_bind (hsame.report_requires h₁.valid ?_ (by simp [← happly]) _)
    simp [← happly, refusesNumeric]

end Unifier

/-- A type with one of its variables replaced. -/
def Ty.put (x : Ty) (v : TyVar) (t : Ty) : Ty :=
  x.mapVars (fun w => if w = v then t else .var w) id

namespace Unifier

variable {u u' u'' : Unifier}

/-- What a state looks like in which one more variable is bound. Its bound has passed on to what it is
bound to. -/
structure Binds (u u' : Unifier) (v : TyVar) (t : Ty) : Prop where
  apply : ∀ x, u'.apply x = (u.apply x).put v (u.apply t)
  rows : u'.substitution.rows = u.substitution.rows
  numeric : ∀ w, (u'.numeric.get? w).isSome = true ↔
    (u.apply t = .var w ∧ (u.numeric.get? v).isSome = true) ∨
      (w ≠ v ∧ (u.numeric.get? w).isSome = true)
  errors : u'.errors.length = u.errors.length +
    if (u.numeric.get? v).isSome && refusesNumeric (u.apply t) then 1 else 0

/-- What types stand for where a variable has been bound. -/
theorem apply_bindType (hu : u.Valid) (hu' : u'.Valid) {v : TyVar} {t : Ty}
    (hv : u.substitution.type? v = none) (hm : v ∉ (u.apply t).vars)
    (hs : u'.substitution = u.substitution.bindType v t) (x : Ty) :
    u'.apply x = (u.apply x).put v (u.apply t) := by
  have hrows : ∀ e, u'.findRow e = u.findRow e :=
    Substitution.findRow_congr (show u'.substitution.rows = u.substitution.rows by rw [hs]; rfl)
  have href : u.substitution.Refines u'.substitution :=
    hs ▸ Substitution.refines_bindType hv (hs ▸ hu'.acyclic)
  have hother : ∀ w, w ≠ v → u.substitution.type? w = none → u'.apply (.var w) = .var w := by
    intro w hw hwu
    refine Substitution.apply_unbound ?_
    rw [hs, Substitution.type?_bindType, if_neg (Ne.symm hw), hwu]
  have hleft : ∀ e ∈ (u.apply x).effects, u'.findRow e = e := fun e he => by
    rw [hrows, findRow]
    cases ht : e.tail with
    | none => exact Substitution.findRow_closed ht
    | some w => exact Substitution.findRow_unbound ht (hu.acyclic.row?_of_mem_effects_apply he ht)
  have hbound : u'.apply (.var v) = u.apply t := by
    have hself : u'.apply (u.apply t) = u.apply t := by
      rw [apply, Substitution.apply_eq_self]
      · intro w hw
        rw [hs, Substitution.type?_bindType, if_neg fun e : v = w => hm (e ▸ hw)]
        exact hu.acyclic.type?_of_mem_vars_apply hw
      · intro e he w hw
        rw [hs]
        exact hu.acyclic.row?_of_mem_effects_apply he hw
    rw [← hself]
    exact (hu'.acyclic.apply_var (by rw [hs, Substitution.type?_bindType, if_pos rfl])).trans
      (href.apply hu.acyclic t).symm
  rw [← show u'.apply (u.apply x) = u'.apply x from href.apply hu.acyclic x, apply,
    Substitution.apply_eq_mapVars]
  refine Ty.mapVars_congr (fun w hw => ?_) hleft
  split
  · rename_i h
    exact h ▸ hbound
  · rename_i h
    exact hother w h (hu.acyclic.type?_of_mem_vars_apply hw)

/-- Binding a variable without a bound changes nothing else. -/
theorem binds_of_get?_none (hu : u.Valid) (hu' : u'.Valid) {v : TyVar} {t : Ty}
    (hv : u.substitution.type? v = none) (hm : v ∉ (u.apply t).vars)
    (hs : u'.substitution = u.substitution.bindType v t) (hn : u'.numeric = u.numeric)
    (he : u'.errors = u.errors) (hnone : u.numeric.get? v = none) : u.Binds u' v t where
  apply := apply_bindType hu hu' hv hm hs
  rows := by rw [hs]; rfl
  numeric w := by
    rw [hn, hnone]
    simp only [Option.isSome_none, Bool.false_eq_true, and_false, false_or]
    refine ⟨fun hw => ⟨?_, hw⟩, And.right⟩
    rintro rfl
    simp [hnone] at hw
  errors := by
    rw [he, hnone]
    rfl

/-- The bound of a variable passes on to what it is bound to. -/
theorem Requires.binds {t : Ty} (h : u'.Requires u'' t) (hu : u.Valid) (hu' : u'.Valid) {v : TyVar}
    (hv : u.substitution.type? v = none) (hm : v ∉ (u.apply t).vars)
    (hs : u'.substitution = u.substitution.bindType v t) (hn : u'.numeric = u.numeric.erase v)
    (he : u'.errors = u.errors) {span : Span} (hsome : u.numeric.get? v = some span) :
    u.Binds u'' v t := by
  have happly := apply_bindType hu hu' hv hm hs
  have ht : u'.apply t = u.apply t := (happly t).trans
    (Ty.mapVars_eq_self (fun w hw => if_neg fun e : w = v => hm (e ▸ hw)) fun _ _ => rfl)
  refine ⟨fun x => (h.apply x).trans (happly x), ?_, fun w => ?_, ?_⟩
  · rw [h.rows, hs]
    rfl
  · rw [h.numeric, ht, hn, SortedMap.get?_erase, hsome]
    refine or_congr (by simp) ?_
    by_cases hw : v = w
    · simp [hw]
    · rw [if_neg hw]
      exact ⟨fun h => ⟨Ne.symm hw, h⟩, And.right⟩
  · rw [h.errors, ht, he, hsome]
    rfl

/-- A variable is bound to a type, unless it occurs in what that stands for. -/
theorem bindVar_binds (hu : u.Valid) {v : TyVar} {t : Ty} (hv : u.substitution.type? v = none)
    (ht : t.Below u.rowCount) :
    u.Does (bindVar v t).run (fun r u' =>
      (v ∈ (u.apply t).vars ∧ r.isOk = false ∧ u.Alike u') ∨
      (v ∉ (u.apply t).vars ∧ r = .ok () ∧ u.Binds u' v t)) := by
  unfold bindVar
  refine .run_get_bind ?_
  dsimp only
  split
  · rename_i hm
    exact .pure hu (.inl ⟨Ty.mentions_iff.1 hm, rfl, .refl u⟩)
  · rename_i hm
    have hm : v ∉ (u.apply t).vars := by rwa [Ty.mentions_iff] at hm
    refine .run_lift_bind (note_bounds hu ..) fun _ u₁ h₁ e₁ => ?_
    obtain ⟨hsub₁, hnum₁, -, herr₁⟩ := e₁
    have hbind := modify_bindType_does h₁.valid (v := v) (t := t) (hsub₁ ▸ hv)
      (by rwa [apply, hsub₁]) (ht.mono h₁.rows)
    refine .run_lift_bind (Q := fun _ u' => u'.substitution = u₁.substitution.bindType v t ∧
        u'.numeric = u₁.numeric ∧ u'.errors = u₁.errors) ⟨hbind.1, hbind.2, rfl, rfl⟩
      fun _ u₂ h₂ e₂ => ?_
    rw [hsub₁, hnum₁, herr₁] at e₂
    obtain ⟨hsub₂, hnum₂, herr₂⟩ := e₂
    refine .run_get_bind ?_
    rw [hnum₂]
    split
    · rename_i hnone
      exact .pure h₂.valid
        (.inr ⟨hm, rfl, binds_of_get?_none hu h₂.valid hv hm hsub₂ hnum₂ herr₂ hnone⟩)
    · rename_i span hsome
      refine .run_lift_bind (Q := fun _ u' => u'.substitution = u₂.substitution ∧
          u'.numeric = u₂.numeric.erase v ∧ u'.errors = u₂.errors)
        ⟨(modify_numeric_does h₂.valid v).1, rfl, rfl, rfl⟩ fun _ u₃ h₃ e₃ => ?_
      rw [hsub₂, hnum₂, herr₂] at e₃
      obtain ⟨hsub₃, hnum₃, herr₃⟩ := e₃
      refine Does.run_lift_bind (x := requireNumeric t _) (f := fun _ => pure ())
        (requireNumeric_requires h₃.valid (ht.mono (h₁.trans (h₂.trans h₃)).rows) _)
        fun _ u₄ h₄ hreq => ?_
      exact .pure h₄.valid (.inr ⟨hm, rfl, hreq.binds hu h₃.valid hv hm hsub₃ hnum₃ herr₃ hsome⟩)

end Unifier

/-! ## Making rows equal -/

/-- The substitution in which two rows are equal, whose tails are unbound: a tail is bound to the labels
that its row lacks, and two tails share a new one. -/
def Substitution.level (s : Substitution) (r r' : Row) : Option Substitution :=
  let more := r'.labels.diff r.labels
  let more' := r.labels.diff r'.labels
  match r.tail, r'.tail with
  | none, none => if more.isEmpty && more'.isEmpty then some s else none
  | some v, none => if more'.isEmpty then some (s.bindRow v ⟨more, none⟩) else none
  | none, some w => if more.isEmpty then some (s.bindRow w ⟨more', none⟩) else none
  | some v, some w =>
    if v = w then if more.isEmpty && more'.isEmpty then some s else none
    else some ((s.freshRow.2.bindRow v ⟨more, some s.rows.size⟩).bindRow w ⟨more', some s.rows.size⟩)

/-- Rows that are equal need no solving. -/
theorem Substitution.level_self (s : Substitution) (r : Row) : s.level r r = some s := by
  have hempty : (r.labels.diff r.labels).isEmpty = true := SortedSet.isEmpty_diff.2 fun _ => id
  unfold level
  cases r.tail with
  | none => simp [hempty]
  | some v => simp [hempty]

namespace Unifier

variable {u : Unifier}

/-- Whether an action comes to a substitution, or fails and leaves it as it is. -/
def Yields (u : Unifier) (m : SolveM Unit) : Option Substitution → Prop
  | some s => (m.run u).1 = .ok () ∧ (m.run u).2.substitution = s
  | none => (m.run u).1.isOk = false ∧ (m.run u).2.substitution = u.substitution

theorem Yields.get_bind {f : Unifier → SolveM Unit} {o : Option Substitution} (h : u.Yields (f u) o) :
    u.Yields (get >>= f) o := h

theorem bindRowVar_substitution (v : RowVar) (b : Row) (u : Unifier) :
    (bindRowVar v b u).2.substitution = u.substitution.bindRow v b := by
  show (note _ _ _ _ u).2.substitution.bindRow v b = _
  rw [note_substitution]

theorem solveRows_yields (u : Unifier) (e f : Row) :
    u.Yields (solveRows e f) (u.substitution.level (u.findRow e) (u.findRow f)) := by
  unfold solveRows Substitution.level
  refine .get_bind (.get_bind ?_)
  dsimp only
  cases hr : (u.findRow e).tail with
  | none => cases hs : (u.findRow f).tail with
    | none =>
      dsimp only
      rw [Bool.and_comm]
      split
      · exact ⟨rfl, rfl⟩
      · exact ⟨rfl, rfl⟩
    | some w =>
      dsimp only
      split
      · exact ⟨rfl, bindRowVar_substitution ..⟩
      · exact ⟨rfl, rfl⟩
  | some v => cases hs : (u.findRow f).tail with
    | none =>
      dsimp only
      split
      · exact ⟨rfl, bindRowVar_substitution ..⟩
      · exact ⟨rfl, rfl⟩
    | some w =>
      dsimp only
      split
      · rw [Bool.and_comm]
        split
        · exact ⟨rfl, rfl⟩
        · exact ⟨rfl, rfl⟩
      · refine ⟨rfl, (bindRowVar_substitution ..).trans ?_⟩
        refine congrArg (Substitution.bindRow · w _) ((bindRowVar_substitution ..).trans ?_)
        exact congrArg (Substitution.bindRow · v _) (note_substitution ..)

end Unifier
end RowCheck
