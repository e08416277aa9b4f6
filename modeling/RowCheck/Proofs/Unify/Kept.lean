import RowCheck.Proofs.SortedMap
import RowCheck.Proofs.Unify.Rows

/-!
What every step of the solver keeps, the solver keeps: the equations it takes apart play no role.
The bounds on variables are such a thing. A type that is numeric stays so, for a bound passes from a
variable to the type it is bound to, and an error is reported if that type cannot meet it.
-/
namespace RowCheck
namespace Unifier

variable {u u' u'' : Unifier}

/-- An action that may fail leads to a state that is related to the one it began in, where the
relation may depend on whether it failed. -/
def Ends {α : Type} (u : Unifier) (m : SolveM α) (R : Bool → Unifier → Unifier → Prop) : Prop :=
  u.Does m.run (fun r u' => R r.isOk u u')

theorem Solves.ends {α : Type} {m : SolveM α} {P : Unifier → Unifier → Prop}
    (h : u.Solves m (fun _ u' => P u u')) : u.Ends m (fun ok u u' => ok = true → P u u') :=
  Does.imp (m := m.run) h fun r _ _ hp hok => by
    cases r with
    | ok a => exact hp a rfl
    | error => cases hok

theorem Ends.solves {α : Type} {m : SolveM α} {P : Unifier → Unifier → Prop}
    (h : u.Ends m (fun ok u u' => ok = true → P u u')) : u.Solves m (fun _ u' => P u u') :=
  Does.imp (m := m.run) h fun _ _ _ hp _ hr => hp (hr ▸ rfl)

/-- What an action that cannot fail does, and then one that can. -/
theorem Does.run_lift_bind {α β : Type} {x : UnifyM α} {f : α → SolveM β}
    {Q : α → Unifier → Prop} {P : Except UnifyFailure β → Unifier → Prop} (h : u.Does x Q)
    (hf : ∀ a u', u.Advances u' → Q a u' → u'.Does (f a).run P) :
    u.Does ((liftM x : SolveM α) >>= f).run P :=
  Does.bind (f := fun a => (f a).run) h hf

theorem Does.run_lift {α : Type} {x : UnifyM α} {P : Unifier → Prop}
    (h : u.Does x (fun _ u' => P u')) : u.Does (liftM x : SolveM α).run (fun _ u' => P u') := h

theorem Does.run_get_bind {β : Type} {g : Unifier → SolveM β}
    {P : Except UnifyFailure β → Unifier → Prop} (h : u.Does (g u).run P) :
    u.Does (get >>= g).run P := h

/-- Whether every step of the solver leads to a state that is related to the one it began in. -/
structure Kept (R : Bool → Unifier → Unifier → Prop) : Prop where
  refl : ∀ ok u, R ok u u
  trans : ∀ {ok} {u u' u'' : Unifier}, u.Advances u' → u'.Advances u'' → R true u u' →
    R ok u' u'' → R ok u u''
  find : ∀ {u : Unifier} (t : Ty), u.Valid → t.Below u.rowCount → R true u (find t u).2
  note : ∀ {u : Unifier} action left right detail, u.Valid →
    R true u (note action left right detail u).2
  bindVar : ∀ {u : Unifier} {v : TyVar} {t : Ty}, u.Valid → u.substitution.type? v = none →
    t.Below u.rowCount → u.apply t ≠ .error → u.Ends (bindVar v t) R
  solveRows : ∀ {u : Unifier} {e f : Row}, u.Valid → e.Below u.rowCount → f.Below u.rowCount →
    u.Ends (solveRows e f) R

section

variable {R : Bool → Unifier → Unifier → Prop}

/-- Whether what solves equations leads to related states. -/
def SolvesEnd (R : Bool → Unifier → Unifier → Prop) (solver : Ty → Ty → SolveM Unit) : Prop :=
  ∀ {u : Unifier} {a b : Ty}, u.Valid → a.Below u.rowCount → b.Below u.rowCount → u.Ends (solver a b) R

/-- Whether a step of the solver on a type does. -/
def StepEnds (R : Bool → Unifier → Unifier → Prop) (again : Ty → Ty → SolveM Unit) (a : Ty) : Prop :=
  ∀ (u : Unifier) (b : Ty), u.Valid → a.Below u.rowCount → b.Below u.rowCount →
    u.Ends (solveStep again a b) R

/-- The same for a list of equations. -/
def EachEnds (R : Bool → Unifier → Unifier → Prop) (again : Ty → Ty → SolveM Unit) (as : List Ty) :
    Prop :=
  ∀ (u : Unifier) (bs : List Ty), u.Valid → (∀ t ∈ as, t.Below u.rowCount) →
    (∀ t ∈ bs, t.Below u.rowCount) → u.Ends (solveEach again as bs) R

variable (hR : Kept R)

include hR

/-- A related state is reached through another one. -/
theorem Kept.after {α : Type} (h : u.Advances u') (hr : R true u u') {m : SolveM α}
    (hm : u'.Ends m R) : u'.Does m.run (fun r u'' => R r.isOk u u'') :=
  hm.imp fun _ _ hadv h' => hR.trans h hadv hr h'

theorem Kept.pure (hu : u.Valid) {α : Type} (a : α) : u.Ends (pure a) R :=
  ⟨hu.advances, hR.refl _ _⟩

theorem Kept.throw (hu : u.Valid) {α : Type} (e : UnifyFailure) :
    u.Ends (MonadExcept.throw e : SolveM α) R :=
  ⟨hu.advances, hR.refl _ _⟩

theorem Kept.bind {α β : Type} {m : SolveM α} {f : α → SolveM β} (h : u.Ends m R)
    (hf : ∀ a u', u.Advances u' → u'.Ends (f a) R) : u.Ends (m >>= f) R := by
  refine Does.bind (f := ExceptT.bindCont f) h fun r u' hadv hr => ?_
  cases r with
  | ok a => exact hR.after hadv hr (hf a u' hadv)
  | error e => exact .pure hadv.valid hr

theorem Kept.lift_bind {α β : Type} {x : UnifyM α} {f : α → SolveM β}
    {Q : α → Unifier → Prop} (h : u.Does x Q) (hr : R true u (x u).2)
    (hf : ∀ a u', u.Advances u' → Q a u' → u'.Ends (f a) R) :
    u.Ends ((liftM x : SolveM α) >>= f) R :=
  .run_lift_bind (Q := fun a u' => Q a u' ∧ R true u u') ⟨h.1, h.2, hr⟩
    fun a u' hadv hq => hR.after hadv hq.2 (hf a u' hadv hq.1)

theorem Kept.note_bind (hu : u.Valid) {action : UnifyAction} {left right : Ty} {detail : String}
    {m : SolveM Unit} (hm : ∀ u', u.Advances u' → u'.Ends m R) :
    u.Ends (liftM (Unifier.note action left right detail) >>= fun _ => m) R :=
  hR.lift_bind (note_does hu action left right detail) (hR.note _ _ _ _ hu)
    fun _ u' hadv _ => hm u' hadv

theorem Kept.lift_note (hu : u.Valid) (action : UnifyAction) (left right : Ty) (detail : String) :
    u.Ends (liftM (Unifier.note action left right detail)) R :=
  ⟨(note_does hu action left right detail).1, hR.note _ _ _ _ hu⟩

theorem Kept.find_bind (hu : u.Valid) {b : Ty} (hb : b.Below u.rowCount) {f : Ty → SolveM Unit}
    (hf : ∀ (b' : Ty) (u' : Unifier), u.Advances u' → b'.Below u'.rowCount →
      (∀ v, b' = .var v → u'.substitution.type? v = none) → (∀ x, u'.apply x = u.apply x) →
      u'.Ends (f b') R) :
    u.Ends (liftM (Unifier.find b) >>= f) R :=
  hR.lift_bind (find_does hu hb) (hR.find b hu hb) fun b' u' hadv h =>
    hf b' u' hadv h.2.2.2.1 h.2.2.1 h.2.1

/-- A type that is no variable is compared with the head of the other one. A failed part is absorbed and
a variable is bound to it. -/
theorem Kept.compare (hu : u.Valid) {a b : Ty} (ha : a.Below u.rowCount) (hb : b.Below u.rowCount)
    (hne : ∀ u' : Unifier, u'.apply a ≠ .error) {f : Ty → SolveM Unit}
    (herror : f .error = absorb a .error) (hvar : ∀ w, f (.var w) = Unifier.bindVar w a)
    (hf : ∀ (b' : Ty) (u' : Unifier), u.Advances u' → b'.Below u'.rowCount → b' ≠ .error →
      (∀ w, b' ≠ .var w) → u'.Ends (f b') R) :
    u.Ends (liftM (Unifier.find b) >>= f) R := by
  refine hR.find_bind hu hb fun b' u' h hb' hhead _ => ?_
  cases b' with
  | error => exact herror ▸ hR.lift_note h.valid ..
  | var w => exact hvar w ▸ hR.bindVar h.valid (hhead w rfl) (ha.mono h.rows) (hne u')
  | _ => exact hf _ u' h hb' (by simp) (by simp)

section

variable {again : Ty → Ty → SolveM Unit}

theorem Kept.error : StepEnds R again .error := by
  intro u b hu _ hb
  unfold Unifier.solveStep
  exact hR.find_bind hu hb fun b' u' h _ _ _ => hR.lift_note h.valid ..

theorem Kept.prim (p : Primitive) : StepEnds R again (.prim p) := by
  intro u b hu ha hb
  unfold Unifier.solveStep
  refine hR.compare hu ha hb (by simp) rfl (fun _ => rfl) fun b' u' h _ herror hvar => ?_
  cases b' with
  | error => exact absurd rfl herror
  | var w => exact absurd rfl (hvar w)
  | prim q =>
    dsimp only
    split
    · exact hR.pure h.valid _
    · exact hR.throw h.valid _
  | _ => exact hR.throw h.valid _

theorem Kept.string : StepEnds R again .string := by
  intro u b hu ha hb
  unfold Unifier.solveStep
  refine hR.compare hu ha hb (by simp) rfl (fun _ => rfl) fun b' u' h _ herror hvar => ?_
  cases b' with
  | error => exact absurd rfl herror
  | var w => exact absurd rfl (hvar w)
  | string => exact hR.pure h.valid _
  | _ => exact hR.throw h.valid _

theorem Kept.unit : StepEnds R again .unit := by
  intro u b hu ha hb
  unfold Unifier.solveStep
  refine hR.compare hu ha hb (by simp) rfl (fun _ => rfl) fun b' u' h _ herror hvar => ?_
  cases b' with
  | error => exact absurd rfl herror
  | var w => exact absurd rfl (hvar w)
  | unit => exact hR.pure h.valid _
  | _ => exact hR.throw h.valid _

theorem Kept.ref (k : BorrowKind) {inner : Ty} (hinner : StepEnds R again inner) :
    StepEnds R again (.ref k inner) := by
  intro u b hu ha hb
  unfold Unifier.solveStep
  refine hR.compare hu ha hb (by simp) rfl (fun _ => rfl) fun b' u' h hb' herror hvar => ?_
  cases b' with
  | error => exact absurd rfl herror
  | var w => exact absurd rfl (hvar w)
  | ref k' inner' =>
    dsimp only
    split
    · exact hinner u' inner' h.valid (ha.mono h.rows) hb'
    · exact hR.throw h.valid _
  | _ => exact hR.throw h.valid _

theorem Kept.tuple {items : List Ty} (hitems : EachEnds R again items) :
    StepEnds R again (.tuple items) := by
  intro u b hu ha hb
  unfold Unifier.solveStep
  refine hR.compare hu ha hb (by simp) rfl (fun _ => rfl) fun b' u' h hb' herror hvar => ?_
  cases b' with
  | error => exact absurd rfl herror
  | var w => exact absurd rfl (hvar w)
  | tuple items' =>
    dsimp only
    split
    · refine hR.note_bind h.valid fun u₁ h₁ => ?_
      exact hitems u₁ items' h₁.valid
        (fun t ht => (Ty.below_tuple.1 ha t ht).mono (h.trans h₁).rows)
        (fun t ht => (Ty.below_tuple.1 hb' t ht).mono h₁.rows)
    · exact hR.throw h.valid _
  | _ => exact hR.throw h.valid _

theorem Kept.named (name : String) {args : List Ty} (hargs : EachEnds R again args) :
    StepEnds R again (.named name args) := by
  intro u b hu ha hb
  unfold Unifier.solveStep
  refine hR.compare hu ha hb (by simp) rfl (fun _ => rfl) fun b' u' h hb' herror hvar => ?_
  cases b' with
  | error => exact absurd rfl herror
  | var w => exact absurd rfl (hvar w)
  | named name' args' =>
    dsimp only
    split
    · refine hR.note_bind h.valid fun u₁ h₁ => ?_
      exact hargs u₁ args' h₁.valid
        (fun t ht => (Ty.below_named.1 ha t ht).mono (h.trans h₁).rows)
        (fun t ht => (Ty.below_named.1 hb' t ht).mono h₁.rows)
    · exact hR.throw h.valid _
  | _ => exact hR.throw h.valid _

/-- The parts of two functions are made equal one after the other, and their rows last. -/
theorem Kept.fn {p r : Ty} (e : Row) (hparam : StepEnds R again p) (hresult : StepEnds R again r) :
    StepEnds R again (.fn p r e) := by
  intro u b hu ha hb
  unfold Unifier.solveStep
  refine hR.compare hu ha hb (by simp) rfl (fun _ => rfl) fun b' u' h hb' herror hvar => ?_
  cases b' with
  | error => exact absurd rfl herror
  | var w => exact absurd rfl (hvar w)
  | fn p' r' e' =>
    obtain ⟨hp, hr, he⟩ := Ty.below_fn.1 (ha.mono h.rows)
    obtain ⟨hp', hr', he'⟩ := Ty.below_fn.1 hb'
    refine hR.note_bind h.valid fun u₁ h₁ => ?_
    refine hR.bind (hparam u₁ p' h₁.valid (hp.mono h₁.rows) (hp'.mono h₁.rows)) fun _ u₂ h₂ => ?_
    have hle₂ := (h₁.trans h₂).rows
    refine hR.bind (hresult u₂ r' h₂.valid (hr.mono hle₂) (hr'.mono hle₂)) fun _ u₃ h₃ => ?_
    have hle₃ := hle₂.trans h₃.rows
    exact hR.solveRows h₃.valid (he.mono hle₃) (he'.mono hle₃)
  | _ => exact hR.throw h.valid _

/-- What a variable stands for is looked up before the other side, so its head is still one then. -/
theorem Kept.var (hagain : SolvesEnd R again) (v : TyVar) : StepEnds R again (.var v) := by
  intro u b hu ha hb
  unfold Unifier.solveStep
  refine hR.find_bind hu ha fun a' u₁ h₁ ha' hheada _ => ?_
  refine hR.find_bind h₁.valid (hb.mono h₁.rows) fun b' u₂ h₂ hb' hheadb hsame => ?_
  have hunbound : ∀ w, a' = .var w → u₂.substitution.type? w = none := fun w hw => by
    rw [h₂.valid.acyclic.type?_eq_none_iff]
    exact (hsame (.var w)).trans (Substitution.apply_unbound (hheada w hw))
  split
  · rename_i v' w
    split
    · exact hR.lift_note h₂.valid ..
    · refine hR.bindVar h₂.valid (hunbound _ rfl) hb' ?_
      rw [apply, Substitution.apply_unbound (hheadb w rfl)]
      simp
  · exact hR.lift_note h₂.valid ..
  · rename_i hvar herror
    refine hR.bindVar h₂.valid (hunbound _ rfl) hb' fun he => ?_
    cases b' with
    | var w => exact hvar w rfl
    | error => exact herror rfl
    | tuple | named => simp at he
    | _ => cases he
  · exact hagain h₂.valid (ha'.mono h₂.rows) hb'

mutual

/-- A step of the solver keeps what goes on from there keeps. -/
theorem Kept.solveStep (hagain : SolvesEnd R again) : (a : Ty) → StepEnds R again a
  | .error => hR.error
  | .prim p => hR.prim p
  | .string => hR.string
  | .unit => hR.unit
  | .ref k inner => hR.ref k (Kept.solveStep hagain inner)
  | .tuple items => hR.tuple (Kept.solveEach hagain items)
  | .named name args => hR.named name (Kept.solveEach hagain args)
  | .fn p r e => hR.fn e (Kept.solveStep hagain p) (Kept.solveStep hagain r)
  | .var v => hR.var hagain v

theorem Kept.solveEach (hagain : SolvesEnd R again) : (as : List Ty) → EachEnds R again as
  | [], u, bs, hu, _, _ => by
    unfold Unifier.solveEach
    exact hR.pure hu _
  | a :: as, u, [], hu, _, _ => by
    unfold Unifier.solveEach
    exact hR.pure hu _
  | a :: as, u, b :: bs, hu, has, hbs => by
    unfold Unifier.solveEach
    simp only [List.mem_cons, forall_eq_or_imp] at has hbs
    refine hR.bind (Kept.solveStep hagain a u b hu has.1 hbs.1) fun _ u₁ h₁ => ?_
    exact Kept.solveEach hagain as u₁ bs h₁.valid (fun t ht => (has.2 t ht).mono h₁.rows)
      (fun t ht => (hbs.2 t ht).mono h₁.rows)

end

end

theorem Kept.solve {a b : Ty} (hu : u.Valid) (ha : a.Below u.rowCount) (hb : b.Below u.rowCount) :
    u.Ends (solve a b) R := by
  have hwithin : ∀ n {u : Unifier} {a b : Ty}, u.Valid → a.Below u.rowCount → b.Below u.rowCount →
      u.Ends (solveWithin n a b) R := by
    intro n
    induction n with
    | zero => exact fun hu _ _ => hR.throw hu _
    | succ n ih => exact fun hu ha hb => hR.solveStep ih _ _ _ hu ha hb
  exact hwithin _ hu ha hb

end

/-! ## Bounds -/

/-- Whether a type stands for a numeric primitive, or for an unbound variable that must be numeric. -/
def Numeric (u : Unifier) (t : Ty) : Prop :=
  (∃ p : Primitive, u.apply t = .prim p ∧ p.isNumeric = true) ∨
    ∃ v, u.apply t = .var v ∧ (u.numeric.get? v).isSome = true

/-- A numeric type stays numeric while its variable stays unbound and keeps its bound. -/
theorem Numeric.grows {t : Ty} (h : u.Numeric t) (hu : u.Valid) (hg : u.Grows u')
    (hv : ∀ v, u.apply t = .var v → (u.numeric.get? v).isSome = true → u'.Numeric (.var v)) :
    u'.Numeric t := by
  have happly := hg.apply hu t
  rcases h with ⟨p, hp, hn⟩ | ⟨v, he, hn⟩
  · exact .inl ⟨p, by rw [← happly, hp]; rfl, hn⟩
  · have := hv v he hn
    rw [Numeric, ← he, happly] at this
    exact this

theorem numeric_var {v : TyVar} (hv : u.substitution.type? v = none)
    (hn : (u.numeric.get? v).isSome = true) : u.Numeric (.var v) :=
  .inr ⟨v, Substitution.apply_unbound hv, hn⟩

theorem unbound_of_apply (hu : u.Valid) {t : Ty} {v : TyVar} (h : u.apply t = .var v) :
    u.substitution.type? v = none :=
  hu.acyclic.type?_of_mem_vars_apply (t := t) (by
    rw [show u.substitution.apply t = .var v from h]
    simp [Ty.vars])

theorem addNumeric_bounds (hu : u.Valid) (v : TyVar) (span : Span) :
    u.Does (addNumeric v span) (fun _ u' => u'.substitution = u.substitution ∧
      u'.pending = u.pending ∧ (u'.numeric.get? v).isSome = true ∧
      ∀ w, (u.numeric.get? w).isSome = true → (u'.numeric.get? w).isSome = true) := by
  refine ⟨(addNumeric_does hu v span).1, rfl, rfl, ?_, fun w hw => ?_⟩
  · exact (SortedMap.isSome_get?_insertNew ..).2 (.inl rfl)
  · exact (SortedMap.isSome_get?_insertNew ..).2 (.inr hw)

/-- The report that a type is not numeric. -/
def notNumeric (t : Ty) (span : Span) : Diagnostic :=
  (Diagnostic.error .typeMismatch s!"expected a numeric type, got `{t.display}`" span).withHelp
    s!"`{numBound}` is implemented by the integer and floating-point primitives"

/-- What it comes to that a type must be numeric: a variable gets a bound, the type of a failed
expression and a numeric primitive are left alone, and any other type is reported. -/
inductive Required (u u' : Unifier) (t : Ty) (span : Span) : Prop
  | noted (v : TyVar) : u.apply t = .var v → u'.numeric = u.numeric.insertNew v span →
    u'.errors = u.errors → Required u u' t span
  | met : (u.apply t = .error ∨ ∃ p : Primitive, u.apply t = .prim p ∧ p.isNumeric = true) →
    u'.numeric = u.numeric → u'.errors = u.errors → Required u u' t span
  | refused : u'.numeric = u.numeric →
    u'.errors = u.errors ++ [notNumeric (u.apply t) span] → Required u u' t span

theorem requireNumeric_required (hu : u.Valid) {t : Ty} (ht : t.Below u.rowCount)
    (why : Provenance) :
    u.Does (requireNumeric t why) (fun _ u' => (∀ x, u'.apply x = u.apply x) ∧
      u'.pending = u.pending ∧ Required u u' t why.span) := by
  unfold requireNumeric
  have hfind := find_does hu ht
  refine Does.bind (Q := fun h u' => (u'.apply t = u'.apply h ∧ (∀ x, u'.apply x = u.apply x) ∧
    (∀ v, h = .var v → u'.substitution.type? v = none)) ∧ u'.pending = u.pending ∧
      u'.numeric = u.numeric ∧ u'.errors = u.errors)
    ⟨hfind.1, ⟨hfind.2.1, hfind.2.2.1, hfind.2.2.2.1⟩, rfl, rfl, rfl⟩ fun h u₁ h₁ hq => ?_
  obtain ⟨⟨hhead, hsame, hunbound⟩, hpending, hnumeric, herrors⟩ := hq
  replace hhead := (hsame t).symm.trans hhead
  have refused : u₁.Does (report (notNumeric (u₁.apply h) why.span)) (fun _ u' =>
      (∀ x, u'.apply x = u.apply x) ∧ u'.pending = u.pending ∧ Required u u' t why.span) :=
    ⟨(report_does h₁.valid _).1, hsame, hpending, .refused hnumeric (by
      rw [hhead, ← herrors]
      rfl)⟩
  split
  · rename_i v
    have hv : u.apply t = .var v := hhead.trans (Substitution.apply_unbound (hunbound v rfl))
    exact ⟨(addNumeric_does h₁.valid v why.span).1, hsame, hpending,
      .noted v hv (hnumeric ▸ rfl) herrors⟩
  · exact .pure h₁.valid ⟨hsame, hpending, .met (.inl hhead) hnumeric herrors⟩
  · split
    · rename_i p _ _
      split
      · rename_i hp
        exact .pure h₁.valid ⟨hsame, hpending, .met (.inr ⟨p, hhead, hp⟩) hnumeric herrors⟩
      · exact .get_bind refused
    · exact .get_bind refused

/-- A type that was required to be numeric without an error is so. -/
theorem requireNumeric_bounds (hu : u.Valid) {t : Ty} (ht : t.Below u.rowCount)
    (hne : u.apply t ≠ .error) (why : Provenance) :
    u.Does (requireNumeric t why) (fun _ u' => (∀ x, u'.apply x = u.apply x) ∧
      (u'.errors = u.errors → u'.Numeric t ∧ u'.pending = u.pending ∧
        ∀ w, (u.numeric.get? w).isSome = true → (u'.numeric.get? w).isSome = true)) := by
  refine (requireNumeric_required hu ht why).imp fun _ u' _ h => ?_
  obtain ⟨hsame, hpending, h⟩ := h
  refine ⟨hsame, fun he => ?_⟩
  rw [Numeric, hsame]
  cases h with
  | noted v hv hnum =>
    simp only [hnum, SortedMap.isSome_get?_insertNew]
    exact ⟨.inr ⟨v, hv, .inl rfl⟩, hpending, fun _ => .inr⟩
  | met hmet hnum =>
    exact ⟨.inl (hmet.resolve_left hne), hpending, fun w hw => hnum ▸ hw⟩
  | refused _ herr => simp [herr] at he

/-- Whether numeric types stay numeric and nothing but inclusions comes to wait, if there is no new
error. -/
def KeepsBounds (u u' : Unifier) : Prop :=
  u'.errors = u.errors → (∀ t, u.Numeric t → u'.Numeric t) ∧ (u.Inclusions → u'.Inclusions)

theorem Inclusions.of_pending (h : u.Inclusions) (hp : u'.pending = u.pending) : u'.Inclusions :=
  fun c hc => h c (hp ▸ hc)

/-- Numeric types stay numeric where type variables stay as they are. -/
theorem SameTypes.numeric_grows (h : SameTypes u u') (hu : u.Valid) (hg : u.Grows u') (t : Ty)
    (ht : u.Numeric t) : u'.Numeric t := by
  refine ht.grows hu hg fun v he hv => numeric_var ?_ (h.numeric ▸ hv)
  rw [h.types]
  exact unbound_of_apply hu he

theorem SameTypes.keepsBounds (h : SameTypes u u') (hu : u.Valid) (hg : u.Grows u') :
    KeepsBounds u u' := fun _ => ⟨h.numeric_grows hu hg, h.inclusions⟩

/-- Recording a step changes nothing else. -/
theorem note_bounds (hu : u.Valid) (action : UnifyAction) (left right : Ty) (detail : String) :
    u.Does (note action left right detail) (fun _ u' => u'.substitution = u.substitution ∧
      u'.numeric = u.numeric ∧ u'.pending = u.pending ∧ u'.errors = u.errors) := by
  refine ⟨(note_does hu ..).1, ?_⟩
  simp only [note, modify, modifyGet, MonadStateOf.modifyGet, StateT.modifyGet, Pure.pure]
  split <;> exact ⟨rfl, rfl, rfl, rfl⟩

/-- A type that is no error does not become one while the variables in it stay unbound. -/
theorem Grows.apply_ne_error (hg : u.Grows u') (hu : u.Valid) {t : Ty} (hne : u.apply t ≠ .error)
    (hfree : ∀ w ∈ (u.apply t).vars, u'.substitution.type? w = none) : u'.apply t ≠ .error := by
  rw [← hg.apply hu]
  intro he
  cases hh : u.apply t with
  | error => exact hne hh
  | var w =>
    have hw : u'.apply (.var w) = .var w :=
      Substitution.apply_unbound (hfree w (by simp [hh, Ty.vars]))
    rw [hh, hw] at he
    cases he
  | tuple | named => simp [hh] at he
  | _ => rw [hh] at he; cases he

/-- A bound passes on from a variable to the type it is bound to. -/
theorem bindVar_keepsBounds (hu : u.Valid) {v : TyVar} {t : Ty}
    (hv : u.substitution.type? v = none) (ht : t.Below u.rowCount) (hne : u.apply t ≠ .error) :
    u.Solves (bindVar v t) (fun _ u' => KeepsBounds u u') := by
  unfold bindVar
  refine .get_bind ?_
  dsimp only
  split
  · exact .throw hu _
  · rename_i hm
    have hm : v ∉ (u.apply t).vars := by rwa [Ty.mentions_iff] at hm
    refine .lift_bind (note_bounds hu ..) fun _ u₁ h₁ e₁ => ?_
    obtain ⟨hsub₁, hnum₁, hpend₁, herr₁⟩ := e₁
    have hbind := modify_bindType_does h₁.valid (v := v) (t := t) (hsub₁ ▸ hv)
      (by rwa [apply, hsub₁]) (ht.mono h₁.rows)
    refine .lift_bind (Q := fun _ u' => u'.substitution = u₁.substitution.bindType v t ∧
        u'.numeric = u₁.numeric ∧ u'.pending = u₁.pending ∧ u'.errors = u₁.errors)
      ⟨hbind.1, hbind.2, rfl, rfl, rfl⟩ fun _ u₂ h₂ e₂ => ?_
    obtain ⟨hsub₂, hnum₂, hpend₂, herr₂⟩ := e₂
    rw [hsub₁] at hsub₂
    rw [hnum₁] at hnum₂
    have h₁₂ := h₁.trans h₂
    have hother : ∀ w, w ≠ v → u.substitution.type? w = none →
        u₂.substitution.type? w = none := fun w hw hwu => by
      rw [hsub₂, Substitution.type?_bindType, if_neg (Ne.symm hw), hwu]
    have hbound : u₂.apply (.var v) = u₂.apply t :=
      h₂.valid.acyclic.apply_var (by rw [hsub₂, Substitution.type?_bindType, if_pos rfl])
    refine .get_bind ?_
    split
    · rename_i hnone
      refine .pure h₂.valid fun _ =>
        ⟨fun x hx => ?_, fun hi => hi.of_pending (hpend₂.trans hpend₁)⟩
      refine hx.grows hu h₁₂.toGrows fun w he hw => ?_
      have hwv : w ≠ v := by
        rintro rfl
        rw [← hnum₂, hnone] at hw
        cases hw
      exact numeric_var (hother w hwv (unbound_of_apply hu he)) (hnum₂ ▸ hw)
    · refine .lift_bind (Q := fun _ u' => u'.substitution = u₂.substitution ∧
          u'.numeric = u₂.numeric.erase v ∧ u'.pending = u₂.pending ∧ u'.errors = u₂.errors)
        ⟨(modify_numeric_does h₂.valid v).1, rfl, rfl, rfl, rfl⟩ fun _ u₃ h₃ e₃ => ?_
      obtain ⟨hsub₃, hnum₃, hpend₃, herr₃⟩ := e₃
      have h₁₃ := h₁₂.trans h₃
      have hfree : ∀ w ∈ (u.apply t).vars, u₃.substitution.type? w = none := fun w hw => by
        rw [hsub₃]
        exact hother w (fun e => hm (e ▸ hw)) (hu.acyclic.type?_of_mem_vars_apply hw)
      have hne₃ := h₁₃.toGrows.apply_ne_error hu hne hfree
      refine .lift ((requireNumeric_bounds h₃.valid (ht.mono h₁₃.rows) hne₃ _).imp
        fun _ u₄ h₄ hb he => ?_)
      obtain ⟨hsame, hb⟩ := hb
      obtain ⟨hnumeric, hpend₄, hkeep⟩ := hb (by rw [he, herr₃, herr₂, herr₁])
      refine ⟨fun x hx => hx.grows hu (h₁₃.trans h₄).toGrows fun w hw hwn => ?_, ?_⟩
      · by_cases hwv : w = v
        · subst hwv
          have hv₄ : u₄.apply (.var w) = u₄.apply t := by
            rw [hsame, hsame, apply, apply, hsub₃]
            exact hbound
          rw [Numeric, hv₄]
          exact hnumeric
        · have hun := hother w hwv (unbound_of_apply hu hw)
          refine .inr ⟨w, ?_, hkeep w ?_⟩
          · rw [hsame, apply, hsub₃]
            exact Substitution.apply_unbound hun
          · rw [hnum₃, SortedMap.get?_erase, if_neg (Ne.symm hwv), hnum₂]
            exact hwn
      · exact fun hi => hi.of_pending (by rw [hpend₄, hpend₃, hpend₂, hpend₁])

theorem find_keepsBounds (hu : u.Valid) {t : Ty} (ht : t.Below u.rowCount) :
    KeepsBounds u (find t u).2 := fun _ => by
  have hsame := (find_does hu ht).2.2.1
  refine ⟨fun x hx => ?_, id⟩
  rw [Numeric, hsame]
  exact hx

/-- The solver keeps bounds where it succeeds. -/
theorem kept_bounds : Kept (fun ok u u' => ok = true → KeepsBounds u u') where
  refl _ _ _ _ := ⟨fun _ => id, id⟩
  trans h h' hk hk' hok he := by
    have he₁ := h.toGrows.errors_eq h'.toGrows he
    obtain ⟨hn, hi⟩ := hk rfl he₁
    obtain ⟨hn', hi'⟩ := hk' hok (he.trans he₁.symm)
    exact ⟨fun x hx => hn' x (hn x hx), hi' ∘ hi⟩
  find _ hu ht _ := find_keepsBounds hu ht
  note action left right detail hu _ :=
    ((note_leavesTypes ..).moves _).keepsBounds hu (note_does hu ..).1.toGrows
  bindVar hu hv ht hne := (bindVar_keepsBounds hu hv ht hne).ends
  solveRows hu he hf := by
    have hdoes := solveRows_solves hu he hf
    exact ⟨hdoes.1, fun _ => ((solveRows_leavesTypes ..).moves _).keepsBounds hu hdoes.1.toGrows⟩

/-- Requiring an equation keeps bounds. -/
theorem unify_keepsBounds (hu : u.Valid) {a b : Ty} (ha : a.Below u.rowCount)
    (hb : b.Below u.rowCount) (why : Provenance) :
    u.Does (unify a b why) (fun _ u' => KeepsBounds u u') :=
  (unify_of_solves a b why (kept_bounds.solve hu ha hb).solves).imp fun _ _ _ h he => h he he

end Unifier
end RowCheck
