import RowCheck.Proofs.Unify.Stock

/-!
Solving is complete. A reading says what type variables stand for; it fits a state if it agrees with
all that the state has bound. An equation whose sides are read alike is solved without a failure, and
the reading fits what comes of it. So the solver finds a most general solution whenever there is one.
-/
namespace RowCheck

/-- A reading of types: what each type variable stands for, and what is kept of a row. -/
structure Reading where
  type : TyVar → Ty
  row : Row → Row

namespace Reading

variable {θ : Reading}

/-- A type as it is read. -/
def read (θ : Reading) (t : Ty) : Ty := t.mapVars θ.type θ.row

@[simp] theorem read_var (θ : Reading) (v : TyVar) : θ.read (.var v) = θ.type v := rfl

@[simp] theorem read_prim (θ : Reading) (p : Primitive) : θ.read (.prim p) = .prim p := rfl

@[simp] theorem read_string (θ : Reading) : θ.read .string = .string := rfl

@[simp] theorem read_unit (θ : Reading) : θ.read .unit = .unit := rfl

@[simp] theorem read_error (θ : Reading) : θ.read .error = .error := rfl

@[simp] theorem read_fn (θ : Reading) (p r : Ty) (e : Row) :
    θ.read (.fn p r e) = .fn (θ.read p) (θ.read r) (θ.row e) := rfl

@[simp] theorem read_ref (θ : Reading) (k : BorrowKind) (t : Ty) :
    θ.read (.ref k t) = .ref k (θ.read t) := rfl

@[simp] theorem read_tuple (θ : Reading) (items : List Ty) :
    θ.read (.tuple items) = .tuple (items.map θ.read) := by
  simp only [read, Ty.mapVars, Ty.mapVarsList_eq_map]
  rfl

@[simp] theorem read_named (θ : Reading) (name : String) (args : List Ty) :
    θ.read (.named name args) = .named name (args.map θ.read) := by
  simp only [read, Ty.mapVars, Ty.mapVarsList_eq_map]
  rfl

/-- Whether a reading agrees with a substitution: a bound variable is read as what it is bound to, and
a row as what it stands for. -/
structure Fits (θ : Reading) (s : Substitution) : Prop where
  type : ∀ v t, s.type? v = some t → θ.type v = θ.read t
  row : ∀ e, θ.row (s.findRow e) = θ.row e

variable {s s' : Substitution}

/-- A type is read as what it stands for. -/
theorem Fits.read_apply (h : θ.Fits s) (hac : s.Acyclic) (t : Ty) : θ.read (s.apply t) = θ.read t := by
  have hvar : ∀ v, θ.read (s.apply (.var v)) = θ.type v := by
    intro v
    induction v using hac.typeInduction with
    | _ v ih =>
      cases hv : s.type? v with
      | none => rw [Substitution.apply_unbound hv, read_var]
      | some u =>
        rw [hac.apply_var hv, h.type v u hv, Substitution.apply_eq_mapVars, read, Ty.mapVars_mapVars]
        exact Ty.mapVars_congr (ih u hv) fun e _ => h.row e
  rw [Substitution.apply_eq_mapVars, read, Ty.mapVars_mapVars]
  exact Ty.mapVars_congr (fun v _ => hvar v) fun e _ => h.row e

/-- A reading that fits a substitution fits those that it refines. -/
theorem Fits.of_refines (h : θ.Fits s') (href : s.Refines s') (hac : s.Acyclic)
    (hac' : s'.Acyclic) : θ.Fits s where
  type v t ht := by
    rw [← h.read_apply hac' t, ← href.type v t ht, h.read_apply hac', read_var]
  row e := by rw [← h.row (s.findRow e), href.findRow hac, h.row]

/-- A reading of a substitution fits every other one that stands for the same. -/
theorem Fits.of_apply_eq (h : θ.Fits s) (hac : s.Acyclic) (hac' : s'.Acyclic)
    (ht : ∀ t, s'.apply t = s.apply t) (hr : s'.rows = s.rows) : θ.Fits s' where
  type v t hv := by
    rw [← h.read_apply hac t, ← ht, ← hac'.apply_var hv, ht, h.read_apply hac, read_var]
  row e := by rw [Substitution.findRow_congr hr, h.row]

/-! ## Sizes -/

/-- A variable is read as less than a type around it. -/
theorem eq_var_or_sizeOf_lt (θ : Reading) {v : TyVar} {t : Ty} (hv : v ∈ t.vars) :
    t = .var v ∨ sizeOf (θ.type v) < sizeOf (θ.read t) := by
  have le : ∀ {t : Ty}, t = .var v ∨ sizeOf (θ.type v) < sizeOf (θ.read t) →
      sizeOf (θ.type v) ≤ sizeOf (θ.read t) := by
    rintro t (rfl | h)
    · exact Nat.le_refl _
    · exact Nat.le_of_lt h
  induction t using Ty.induction with
  | fn p r e hp hr =>
    refine .inr ?_
    rw [Ty.vars, List.mem_append] at hv
    rcases hv with hv | hv
    · have := le (hp hv)
      simp only [read_fn, Ty.fn.sizeOf_spec]
      omega
    · have := le (hr hv)
      simp only [read_fn, Ty.fn.sizeOf_spec]
      omega
  | tuple items ih | named _ items ih =>
    simp only [Ty.vars, Ty.varsList_eq, List.mem_flatMap] at hv
    obtain ⟨t, ht, hv⟩ := hv
    have := le (ih t ht hv)
    have := List.sizeOf_lt_of_mem (List.mem_map_of_mem (f := θ.read) ht)
    simp only [read_tuple, read_named, Ty.tuple.sizeOf_spec, Ty.named.sizeOf_spec]
    exact .inr (by omega)
  | ref k inner ih =>
    have := le (ih hv)
    simp only [read_ref, Ty.ref.sizeOf_spec]
    exact .inr (by omega)
  | var w =>
    obtain rfl := List.mem_singleton.1 hv
    exact .inl rfl
  | _ => cases hv

/-- How many of some variables are read as no more than a given one. -/
noncomputable def rank (θ : Reading) (vs : Finset TyVar) (v : TyVar) : Nat :=
  (vs.filter (fun w => sizeOf (θ.type w) ≤ sizeOf (θ.type v))).card

theorem rank_le (θ : Reading) (vs : Finset TyVar) (v : TyVar) : θ.rank vs v ≤ vs.card :=
  Finset.card_filter_le _ _

theorem rank_lt_rank {vs : Finset TyVar} {v w : TyVar} (hv : v ∈ vs)
    (h : sizeOf (θ.type w) < sizeOf (θ.type v)) : θ.rank vs w < θ.rank vs v := by
  refine Finset.card_lt_card ⟨fun x hx => ?_, fun hsub => ?_⟩
  · obtain ⟨hx, hle⟩ := Finset.mem_filter.1 hx
    exact Finset.mem_filter.2 ⟨hx, hle.trans h.le⟩
  · have hmem := hsub (Finset.mem_filter.2 ⟨hv, Nat.le_refl _⟩)
    exact absurd (Finset.mem_filter.1 hmem).2 (Nat.not_le_of_lt h)

theorem rank_pos {vs : Finset TyVar} {v : TyVar} (hv : v ∈ vs) : 0 < θ.rank vs v :=
  Finset.card_pos.2 ⟨v, Finset.mem_filter.2 ⟨hv, Nat.le_refl _⟩⟩

end Reading

namespace Unifier

variable {u u' : Unifier} {K : Stock} {θ : Reading}

/-! ## The parts of the solver -/

/-- Whether an action does not fail, and a reading fits the state it ends in. -/
def Meets (θ : Reading) (u : Unifier) (m : SolveM Unit) : Prop :=
  (m.run u).1 = .ok () ∧ θ.Fits (m.run u).2.substitution

theorem Meets.pure (h : θ.Fits u.substitution) : Meets θ u (pure ()) := ⟨rfl, h⟩

theorem Meets.bind {m : SolveM Unit} {f : Unit → SolveM Unit} {Q : Unit → Unifier → Prop}
    (h : Meets θ u m) (hs : u.Solves m Q)
    (hf : ∀ u', u.Advances u' → Q () u' → θ.Fits u'.substitution → Meets θ u' (f ())) :
    Meets θ u (m >>= f) := by
  have hnext := hf (m.run u).2 hs.1 (hs.2 () h.1) h.2
  have hrun : (m >>= f).run u = (f ()).run (m.run u).2 := by
    show ExceptT.bindCont f (m.run u).1 (m.run u).2 = _
    rw [h.1]
    rfl
  rwa [Meets, hrun]

theorem Meets.lift_bind {α : Type} {x : UnifyM α} {Q : α → Unifier → Prop} {f : α → SolveM Unit}
    (h : Q (x u).1 (x u).2) (hf : ∀ a u', Q a u' → Meets θ u' (f a)) :
    Meets θ u ((liftM x : SolveM α) >>= f) := hf _ _ h

theorem Meets.get_bind {f : Unifier → SolveM Unit} (h : Meets θ u (f u)) :
    Meets θ u (get >>= f) := h

theorem Meets.lift_note (hu : u.Valid) (h : θ.Fits u.substitution) (action : UnifyAction)
    (left right : Ty) (detail : String) :
    Meets θ u (liftM (note action left right detail)) := by
  refine ⟨rfl, ?_⟩
  have hs := (note_does hu action left right detail).2
  exact hs.symm ▸ h

/-- What is done with the head of a type. -/
theorem Holds.find_meets (h : u.Holds K) (hθ : θ.Fits u.substitution) {b : Ty} (hb : K.Has b)
    (hbelow : b.Below u.rowCount) {f : Ty → SolveM Unit}
    (hf : ∀ (b' : Ty) (u' : Unifier), u.Advances u' → u'.Holds K → K.Has b' →
      b'.Below u'.rowCount → (∀ v, b' = .var v → u'.substitution.type? v = none) →
      (∀ x, u'.apply x = u.apply x) → θ.Fits u'.substitution → θ.read b' = θ.read b →
      Meets θ u' (f b')) :
    Meets θ u (liftM (find b) >>= f) := by
  obtain ⟨hadv, hstay, hb'⟩ := find_staysIn h hb hbelow
  obtain ⟨-, heq, hsame, hhead, hbelow', hrows⟩ := find_does h.toValid hbelow
  have hθ' := hθ.of_apply_eq h.acyclic hadv.valid.acyclic hsame hrows
  refine .lift_bind (Q := fun b' u' => b' = (find b u).1 ∧ u' = (find b u).2) ⟨rfl, rfl⟩ ?_
  rintro _ _ ⟨rfl, rfl⟩
  refine hf _ _ hadv hstay.holds hb' hbelow' hhead hsame hθ' ?_
  have hread := congrArg θ.read heq
  rw [apply, apply, hθ'.read_apply hadv.valid.acyclic, hθ'.read_apply hadv.valid.acyclic] at hread
  exact hread.symm

/-- A variable is bound to a type that it is read as, unless that stands for itself. -/
theorem bindVar_meets (h : u.Holds K) (hθ : θ.Fits u.substitution) {v : TyVar} {t : Ty}
    (hne : u.apply t ≠ .var v) (hread : θ.type v = θ.read t) : Meets θ u (bindVar v t) := by
  have hm : (u.apply t).mentions v = false := by
    by_contra hm
    rw [Bool.not_eq_false, Ty.mentions_iff] at hm
    have hlt := (θ.eq_var_or_sizeOf_lt hm).resolve_left hne
    rw [apply, hθ.read_apply h.acyclic, hread] at hlt
    exact Nat.lt_irrefl _ hlt
  unfold bindVar
  refine .get_bind ?_
  dsimp only
  rw [hm]
  have hnote := (note_bounds h.toValid .bind (.var v) (u.apply t)
    s!"t{v} := {(u.apply t).display}").2
  refine .lift_bind (Q := fun _ u₁ => u₁.substitution = u.substitution ∧ u₁.numeric = ∅)
    ⟨hnote.1, hnote.2.1.trans h.numeric⟩ fun _ u₁ e₁ => ?_
  refine .lift_bind (Q := fun _ u₂ => u₂.substitution = u.substitution.bindType v t ∧
    u₂.numeric = ∅) ⟨congrArg (fun s => s.bindType v t) e₁.1, e₁.2⟩ fun _ u₂ e₂ => .get_bind ?_
  rw [e₂.2, SortedMap.get?_empty]
  refine .pure ⟨fun w x hx => ?_, fun e => ?_⟩
  · rw [e₂.1, Substitution.type?_bindType] at hx
    split at hx
    · rename_i hvw
      cases hx
      exact hvw ▸ hread
    · exact hθ.type w x hx
  · have hrows : (u.substitution.bindType v t).rows = u.substitution.rows := rfl
    rw [e₂.1, Substitution.findRow_congr hrows]
    exact hθ.row e

/-- Whether rows of a stock that are read alike can be made equal. -/
def MeetsRows (θ : Reading) (K : Stock) : Prop :=
  ∀ {u : Unifier} {e f : Row}, u.Holds K → θ.Fits u.substitution → K.HasRow e → K.HasRow f →
    e.Below u.rowCount → f.Below u.rowCount → θ.row e = θ.row f → Meets θ u (solveRows e f)

/-! ## The solver -/

/-- Whether what solves equations does not fail on types that are read alike, if the variables of the
first one are of a rank below `n`. -/
def MeetsBelow (θ : Reading) (K : Stock) (n : Nat) (solver : Ty → Ty → SolveM Unit) : Prop :=
  ∀ {u : Unifier} {a b : Ty}, u.Holds K → θ.Fits u.substitution → K.Has a → K.Has b →
    a.Below u.rowCount → b.Below u.rowCount → θ.read a = θ.read b → 0 < n →
    (∀ v ∈ a.vars, θ.rank K.vars v < n) → Meets θ u (solver a b)

/-- Whether a step of the solver does not fail on a type and any other one that is read alike, if the
variables of the first one are of a rank up to `n`. -/
def StepMeets (θ : Reading) (K : Stock) (n : Nat) (again : Ty → Ty → SolveM Unit) (a : Ty) : Prop :=
  ∀ (u : Unifier) (b : Ty), u.Holds K → θ.Fits u.substitution → K.Has a → K.Has b →
    a.Below u.rowCount → b.Below u.rowCount → θ.read a = θ.read b →
    (∀ v ∈ a.vars, θ.rank K.vars v ≤ n) → Meets θ u (solveStep again a b)

/-- The same for a list of equations. -/
def EachMeets (θ : Reading) (K : Stock) (n : Nat) (again : Ty → Ty → SolveM Unit) (as : List Ty) :
    Prop :=
  ∀ (u : Unifier) (bs : List Ty), u.Holds K → θ.Fits u.substitution → (∀ t ∈ as, K.Has t) →
    (∀ t ∈ bs, K.Has t) → (∀ t ∈ as, t.Below u.rowCount) → (∀ t ∈ bs, t.Below u.rowCount) →
    as.map θ.read = bs.map θ.read → (∀ t ∈ as, ∀ v ∈ t.vars, θ.rank K.vars v ≤ n) →
    Meets θ u (solveEach again as bs)

theorem apply_ne_var {a : Ty} (ha : ∀ v, a ≠ .var v) (w : TyVar) : u.apply a ≠ .var w := by
  cases a with
  | var v => exact absurd rfl (ha v)
  | tuple | named => simp
  | _ => nofun

/-- A type that is no variable is compared with the head of the other one. A variable is bound to it, and
what else is read alike has the same form. -/
theorem Holds.compare_meets (h : u.Holds K) (hθ : θ.Fits u.substitution) {a b : Ty}
    (hb : K.Has b) (hbb : b.Below u.rowCount) (heq : θ.read a = θ.read b) (ha : ∀ v, a ≠ .var v)
    {f : Ty → SolveM Unit} (hvar : ∀ w, f (.var w) = bindVar w a)
    (hf : ∀ (b' : Ty) (u' : Unifier), u.Advances u' → u'.Holds K → K.Has b' → b'.Below u'.rowCount →
      (∀ w, b' ≠ .var w) → θ.Fits u'.substitution → θ.read a = θ.read b' → Meets θ u' (f b')) :
    Meets θ u (liftM (find b) >>= f) := by
  refine h.find_meets hθ hb hbb fun b' u' hadv h' hb' hbb' _ _ hθ' hread => ?_
  have heq' := heq.trans hread.symm
  by_cases hvar' : ∃ w, b' = .var w
  · obtain ⟨w, rfl⟩ := hvar'
    rw [hvar]
    exact bindVar_meets h' hθ' (apply_ne_var ha w) heq'.symm
  · exact hf b' u' hadv h' hb' hbb' (fun w hw => hvar' ⟨w, hw⟩) hθ' heq'

section

variable {n : Nat} {again : Ty → Ty → SolveM Unit}

theorem error_meets : StepMeets θ K n again .error := by
  intro u b h hθ _ hb _ hbb _ _
  unfold solveStep
  exact h.find_meets hθ hb hbb fun b' u' _ h' _ _ _ _ hθ' _ => .lift_note h'.toValid hθ' ..

theorem prim_meets (p : Primitive) : StepMeets θ K n again (.prim p) := by
  intro u b h hθ _ hb _ hbb heq _
  unfold solveStep
  refine h.compare_meets hθ hb hbb heq (by simp) (fun _ => rfl) fun b' u' _ _ _ _ hne hθ' heq' => ?_
  cases b' with
  | prim q =>
    have hpq : p = q := by simpa using heq'
    dsimp only
    rw [if_pos hpq]
    exact .pure hθ'
  | var w => exact absurd rfl (hne w)
  | _ => simp at heq'

theorem string_meets : StepMeets θ K n again .string := by
  intro u b h hθ _ hb _ hbb heq _
  unfold solveStep
  refine h.compare_meets hθ hb hbb heq (by simp) (fun _ => rfl) fun b' u' _ _ _ _ hne hθ' heq' => ?_
  cases b' with
  | string => exact .pure hθ'
  | var w => exact absurd rfl (hne w)
  | _ => simp at heq'

theorem unit_meets : StepMeets θ K n again .unit := by
  intro u b h hθ _ hb _ hbb heq _
  unfold solveStep
  refine h.compare_meets hθ hb hbb heq (by simp) (fun _ => rfl) fun b' u' _ _ _ _ hne hθ' heq' => ?_
  cases b' with
  | unit => exact .pure hθ'
  | var w => exact absurd rfl (hne w)
  | _ => simp at heq'

theorem ref_meets (k : BorrowKind) {inner : Ty} (hinner : StepMeets θ K n again inner) :
    StepMeets θ K n again (.ref k inner) := by
  intro u b h hθ ha hb hba hbb heq hn
  unfold solveStep
  refine h.compare_meets hθ hb hbb heq (by simp) (fun _ => rfl)
    fun b' u' hadv h' hb' hbb' hne hθ' heq' => ?_
  cases b' with
  | ref k' inner' =>
    simp only [Reading.read_ref, Ty.ref.injEq] at heq'
    dsimp only
    rw [if_pos heq'.1]
    exact hinner u' inner' h' hθ' (K.ref ha) (K.ref hb') (hba.mono hadv.rows) hbb' heq'.2 hn
  | var w => exact absurd rfl (hne w)
  | _ => simp at heq'

theorem tuple_meets {items : List Ty} (hitems : EachMeets θ K n again items) :
    StepMeets θ K n again (.tuple items) := by
  intro u b h hθ ha hb hba hbb heq hn
  unfold solveStep
  refine h.compare_meets hθ hb hbb heq (by simp) (fun _ => rfl)
    fun b' u' hadv h' hb' hbb' hne hθ' heq' => ?_
  cases b' with
  | tuple items' =>
    simp only [Reading.read_tuple, Ty.tuple.injEq] at heq'
    have hlen : items.length = items'.length := by simpa using congrArg List.length heq'
    dsimp only
    rw [if_pos hlen]
    refine .bind (.lift_note h'.toValid hθ' ..) (h'.lift_note ..) fun u₁ h₁ k₁ hθ₁ => ?_
    exact hitems u₁ items' k₁.holds hθ₁ (K.tuple ha) (K.tuple hb')
      (fun t ht => (Ty.below_tuple.1 hba t ht).mono (hadv.trans h₁).rows)
      (fun t ht => (Ty.below_tuple.1 hbb' t ht).mono h₁.rows) heq'
      (fun t ht v hv => hn v (by simpa [Ty.vars] using ⟨t, ht, hv⟩))
  | var w => exact absurd rfl (hne w)
  | _ => simp at heq'

theorem named_meets (name : String) {args : List Ty} (hargs : EachMeets θ K n again args) :
    StepMeets θ K n again (.named name args) := by
  intro u b h hθ ha hb hba hbb heq hn
  unfold solveStep
  refine h.compare_meets hθ hb hbb heq (by simp) (fun _ => rfl)
    fun b' u' hadv h' hb' hbb' hne hθ' heq' => ?_
  cases b' with
  | named name' args' =>
    simp only [Reading.read_named, Ty.named.injEq] at heq'
    have hlen : args.length = args'.length := by simpa using congrArg List.length heq'.2
    dsimp only
    rw [if_pos ⟨heq'.1, hlen⟩]
    refine .bind (.lift_note h'.toValid hθ' ..) (h'.lift_note ..) fun u₁ h₁ k₁ hθ₁ => ?_
    exact hargs u₁ args' k₁.holds hθ₁ (K.named ha) (K.named hb')
      (fun t ht => (Ty.below_named.1 hba t ht).mono (hadv.trans h₁).rows)
      (fun t ht => (Ty.below_named.1 hbb' t ht).mono h₁.rows) heq'.2
      (fun t ht v hv => hn v (by simpa [Ty.vars] using ⟨t, ht, hv⟩))
  | var w => exact absurd rfl (hne w)
  | _ => simp at heq'

/-- The parts of two functions are made equal one after the other, and their rows last. -/
theorem fn_meets (hrows : MeetsRows θ K) (hstays : SolvesWithin K again) {p r : Ty} (e : Row)
    (hparam : StepMeets θ K n again p) (hresult : StepMeets θ K n again r) :
    StepMeets θ K n again (.fn p r e) := by
  intro u b h hθ ha hb hba hbb heq hn
  unfold solveStep
  refine h.compare_meets hθ hb hbb heq (by simp) (fun _ => rfl)
    fun b' u' hadv h' hb' hbb' hne hθ' heq' => ?_
  cases b' with
  | fn p' r' e' =>
    simp only [Reading.read_fn, Ty.fn.injEq] at heq'
    obtain ⟨hp, hr, he⟩ := K.fn ha
    obtain ⟨hp', hr', he'⟩ := K.fn hb'
    obtain ⟨hbp, hbr, hbe⟩ := Ty.below_fn.1 (hba.mono hadv.rows)
    obtain ⟨hbp', hbr', hbe'⟩ := Ty.below_fn.1 hbb'
    simp only [Ty.vars, List.mem_append, or_imp, forall_and] at hn
    refine .bind (.lift_note h'.toValid hθ' ..) (h'.lift_note ..) fun u₁ h₁ k₁ hθ₁ => ?_
    refine .bind (hparam u₁ p' k₁.holds hθ₁ hp hp' (hbp.mono h₁.rows) (hbp'.mono h₁.rows) heq'.1 hn.1)
      (solveStep_staysIn hstays p u₁ p' k₁.holds hp hp' (hbp.mono h₁.rows) (hbp'.mono h₁.rows))
      fun u₂ h₂ k₂ hθ₂ => ?_
    have hle₂ := (h₁.trans h₂).rows
    refine .bind (hresult u₂ r' k₂.holds hθ₂ hr hr' (hbr.mono hle₂) (hbr'.mono hle₂) heq'.2.1 hn.2)
      (solveStep_staysIn hstays r u₂ r' k₂.holds hr hr' (hbr.mono hle₂) (hbr'.mono hle₂))
      fun u₃ h₃ k₃ hθ₃ => ?_
    have hle₃ := hle₂.trans h₃.rows
    exact hrows k₃.holds hθ₃ he he' (hbe.mono hle₃) (hbe'.mono hle₃) heq'.2.2
  | var w => exact absurd rfl (hne w)
  | _ => simp at heq'

/-- Where the solver goes on from what a variable stands for, the variables met are of a lower rank. -/
theorem var_meets (hagain : MeetsBelow θ K n again) (v : TyVar) : StepMeets θ K n again (.var v) := by
  intro u b h hθ ha hb hba hbb heq hn
  have hmem : v ∈ K.vars := K.mem_vars ha
  unfold solveStep
  refine h.find_meets hθ ha hba fun a' u₁ h₁ k₁ ha' hba' _ _ hθ₁ hreada => ?_
  refine k₁.find_meets hθ₁ hb (hbb.mono h₁.rows) fun b' u₂ h₂ k₂ hb' hbb' hheadb _ hθ₂ hreadb => ?_
  have heq' : θ.read a' = θ.read b' := hreada.trans (heq.trans hreadb.symm)
  have again : (∀ w, a' ≠ .var w) → Meets θ u₂ (again a' b') := fun hne => by
    refine hagain k₂ hθ₂ ha' hb' (hba'.mono h₂.rows) hbb' heq'
      ((Reading.rank_pos hmem).trans_le (hn v (by simp [Ty.vars]))) fun w hw => ?_
    have hsize := (θ.eq_var_or_sizeOf_lt hw).resolve_left (hne w)
    rw [hreada, Reading.read_var] at hsize
    exact (Reading.rank_lt_rank hmem hsize).trans_le (hn v (by simp [Ty.vars]))
  have hself : ∀ w, b' ≠ .var w → u₂.apply b' ≠ .var w := by
    intro w hne
    by_cases hvar : ∃ x, b' = .var x
    · obtain ⟨x, rfl⟩ := hvar
      rwa [apply, Substitution.apply_unbound (hheadb x rfl)]
    · exact apply_ne_var (fun x hx => hvar ⟨x, hx⟩) w
  cases a' with
  | var v' =>
    cases b' with
    | var w =>
      dsimp only
      split
      · exact .lift_note k₂.toValid hθ₂ ..
      · rename_i hne
        exact bindVar_meets k₂ hθ₂ (hself v' fun e => hne (Ty.var.inj e).symm) heq'
    | error => exact .lift_note k₂.toValid hθ₂ ..
    | _ => exact bindVar_meets k₂ hθ₂ (hself v' (by simp)) heq'
  | _ => exact again (by simp)

mutual

/-- A step of the solver does not fail on types that are read alike. -/
theorem solveStep_meets (hrows : MeetsRows θ K) (hagain : MeetsBelow θ K n again)
    (hstays : SolvesWithin K again) : (a : Ty) → StepMeets θ K n again a
  | .error => error_meets
  | .prim p => prim_meets p
  | .string => string_meets
  | .unit => unit_meets
  | .ref k inner => ref_meets k (solveStep_meets hrows hagain hstays inner)
  | .tuple items => tuple_meets (solveEach_meets hrows hagain hstays items)
  | .named name args => named_meets name (solveEach_meets hrows hagain hstays args)
  | .fn p r e => fn_meets hrows hstays e (solveStep_meets hrows hagain hstays p)
      (solveStep_meets hrows hagain hstays r)
  | .var v => var_meets hagain v

theorem solveEach_meets (hrows : MeetsRows θ K) (hagain : MeetsBelow θ K n again)
    (hstays : SolvesWithin K again) : (as : List Ty) → EachMeets θ K n again as
  | [], u, bs, _, hθ, _, _, _, _, _, _ => by
    unfold solveEach
    exact .pure hθ
  | a :: as, u, [], _, hθ, _, _, _, _, _, _ => by
    unfold solveEach
    exact .pure hθ
  | a :: as, u, b :: bs, h, hθ, has, hbs, hba, hbb, heq, hn => by
    unfold solveEach
    simp only [List.mem_cons, forall_eq_or_imp] at has hbs hba hbb hn
    simp only [List.map_cons, List.cons.injEq] at heq
    refine .bind (solveStep_meets hrows hagain hstays a u b h hθ has.1 hbs.1 hba.1 hbb.1 heq.1 hn.1)
      (solveStep_staysIn hstays a u b h has.1 hbs.1 hba.1 hbb.1) fun u₁ h₁ k₁ hθ₁ => ?_
    exact solveEach_meets hrows hagain hstays as u₁ bs k₁.holds hθ₁ has.2 hbs.2
      (fun t ht => (hba.2 t ht).mono h₁.rows) (fun t ht => (hbb.2 t ht).mono h₁.rows) heq.2 hn.2

end

end

theorem solveWithin_meets (hrows : MeetsRows θ K) (n : Nat) : MeetsBelow θ K n (solveWithin n) := by
  induction n with
  | zero => exact fun _ _ _ _ _ _ _ h => absurd h (Nat.lt_irrefl 0)
  | succ n ih =>
    exact fun h hθ ha hb hba hbb heq _ hn => solveStep_meets hrows ih (solveWithin_staysIn n) _ _ _
      h hθ ha hb hba hbb heq fun v hv => Nat.le_of_lt_succ (hn v hv)

/-- The type variables that are bound, and those that two types stand for types over. -/
def solveVars (u : Unifier) (a b : Ty) : Finset TyVar :=
  Finset.range u.typeCount ∪ ((u.apply a).vars.toFinset ∪ (u.apply b).vars.toFinset)

theorem card_solveVars_le (u : Unifier) (a b : Ty) : (u.solveVars a b).card ≤ u.solveBound a b := calc
  _ ≤ u.typeCount + ((u.apply a).vars.toFinset ∪ (u.apply b).vars.toFinset).card := by
    simpa [solveVars] using Finset.card_union_le (Finset.range u.typeCount) _
  _ ≤ u.typeCount + ((u.apply a).vars.length + (u.apply b).vars.length) :=
    Nat.add_le_add_left ((Finset.card_union_le _ _).trans
      (Nat.add_le_add (List.toFinset_card_le _) (List.toFinset_card_le _))) _
  _ = u.solveBound a b := (Nat.add_assoc ..).symm

/-- Types that are read alike are made equal, and the reading fits what comes of it, if the stock has
no more variables than can be replaced. -/
theorem solve_meets (hrows : MeetsRows θ K) (h : u.Holds K) (hθ : θ.Fits u.substitution) {a b : Ty}
    (ha : K.Has a) (hb : K.Has b) (hba : a.Below u.rowCount) (hbb : b.Below u.rowCount)
    (heq : θ.read a = θ.read b) (hcard : K.vars.card ≤ u.solveBound a b) :
    Meets θ u (solve a b) := by
  refine .get_bind (solveWithin_meets hrows _ h hθ ha hb hba hbb heq (Nat.succ_pos _) fun v _ => ?_)
  exact Nat.lt_succ_of_le ((θ.rank_le K.vars v).trans hcard)

/-- Requiring an equation that is solved does no more than solving it. -/
theorem Meets.unify {a b : Ty} (h : Meets θ u (solve a b)) (why : Provenance) :
    (unify a b why u).2 = ((solve a b).run u).2 := by
  have hdone : (solve a b).run u = (.ok (), ((solve a b).run u).2) := Prod.ext h.1 rfl
  simp only [Unifier.unify, Bind.bind, StateT.bind]
  rw [hdone]
  rfl

end Unifier
end RowCheck
