import RowCheck.Proofs.Unify.Turns

/-!
The solver does just the turns. A bound variable that it replaces on the way down lies strictly around
all that comes after it, whatever is bound later. So no variable is replaced twice on one way, and there
are no more of them than the solver goes on for.
-/
namespace RowCheck

open Equation

namespace Unifier

variable {u u' : Unifier} {a b t : Ty} {e : Equation} {es es' : List Equation} {m : SolveM Unit}

/-! ## Actions that solve equations -/

/-- Whether an action does what solving equations one after the other does. -/
def Works (u : Unifier) (es : List Equation) (m : SolveM Unit) : Prop :=
  Solving es u (m.run u).1 (m.run u).2

/-- Whether an action does what a step does, and then solves the equations that the step leaves. -/
def Follows (u : Unifier) (x : SolveM (List Equation)) (m : SolveM Unit) : Prop :=
  match x.run u with
  | (.ok es, u') => Solving es u' (m.run u).1 (m.run u).2
  | (.error why, u') => m.run u = (.error why, u')

theorem works_singleton : u.Works [e] m ↔ u.Follows e.step m := by
  unfold Works Follows
  generalize m.run u = p
  obtain ⟨r, u'⟩ := p
  constructor
  · intro h
    cases h with
    | fail hstep => rw [hstep]
    | next hstep hrest =>
      rw [hstep]
      simpa using hrest
  · intro h
    cases hstep : e.step.run u with
    | mk s u₁ =>
      rw [hstep] at h
      cases s with
      | ok es => exact .next hstep (by simpa using h)
      | error why =>
        cases h
        exact .fail hstep

theorem Works.nil : u.Works [] (pure ()) := .done

theorem Works.bind {k : Unit → SolveM Unit} (h : u.Works es m)
    (hk : (m.run u).1 = .ok () → (m.run u).2.Works es' (k ())) :
    u.Works (es ++ es') (m >>= k) := by
  unfold Works at h ⊢
  rw [run_bind]
  generalize m.run u = p at h hk ⊢
  obtain ⟨r, u'⟩ := p
  cases r with
  | ok _ => exact h.append (hk rfl)
  | error why => exact h.append_error es'

theorem Follows.ends (u : Unifier) (m : SolveM Unit) :
    u.Follows (do
      m
      return []) m := by
  have hrun := run_leave m u
  unfold Follows
  rw [show (do
    m
    return [] : SolveM (List Equation)).run u = _ from hrun]
  generalize m.run u = p
  obtain ⟨r, u'⟩ := p
  cases r with
  | ok _ => exact .done
  | error why => exact rfl

theorem Follows.throw (u : Unifier) (why : UnifyFailure) :
    u.Follows (MonadExcept.throw why) (MonadExcept.throw why) := rfl

theorem Follows.lift_bind {α : Type} {x : UnifyM α} {f : α → SolveM (List Equation)}
    {g : α → SolveM Unit} (h : (x u).2.Follows (f (x u).1) (g (x u).1)) :
    u.Follows (liftM x >>= f) (liftM x >>= g) := h

/-! ## The way down -/

/-- Whether some variables lie strictly around those of a type, whatever is bound later. -/
def Encloses (u : Unifier) (D : Finset TyVar) (t : Ty) : Prop :=
  ∀ u', u.Grows u' → ∀ d ∈ D, ∀ x ∈ t.vars,
    sizeOf (u'.apply (.var x)) < sizeOf (u'.apply (.var d))

variable {V D : Finset TyVar} {v : TyVar}

theorem Encloses.grows (h : u.Encloses D t) (hg : u.Grows u') : u'.Encloses D t :=
  fun u'' hg' => h u'' (hg.trans hg')

theorem Encloses.mono (h : u.Encloses D t) {t' : Ty} (hsub : t'.vars ⊆ t.vars) : u.Encloses D t' :=
  fun u' hg d hd x hx => h u' hg d hd x (hsub hx)

/-- A variable was not replaced before where all that was lies strictly around it. -/
theorem Encloses.not_mem (h : u.Encloses D (.var v)) (hu : u.Valid) : v ∉ D := fun hv =>
  Nat.lt_irrefl _ (h u hu.advances.toGrows v hv v (List.mem_singleton_self v))

/-- A variable lies strictly around what it stands for. -/
theorem Encloses.head (h : u.Encloses D (.var v)) (hu : u.Valid) (hh : u.Head (.var v) t)
    (ht : ∀ w, t ≠ .var w) : u.Encloses (insert v D) t := by
  intro u' hg d hd x hx
  have hsize : sizeOf (u'.apply (.var x)) < sizeOf (u'.apply (.var v)) := by
    have happly : u'.apply t = u'.apply (.var v) := by
      rw [← hg.apply hu t, hh.apply, hg.apply hu]
    let θ : Reading := ⟨fun w => u'.apply (.var w), u'.findRow⟩
    have hread : θ.read t = u'.apply t := (Substitution.apply_eq_mapVars ..).symm
    rw [← happly, ← hread]
    exact (θ.eq_var_or_sizeOf_lt hx).resolve_left (ht x)
  rcases Finset.mem_insert.1 hd with rfl | hd
  · exact hsize
  · exact hsize.trans (h u' hg d hd v (List.mem_singleton_self v))

theorem Follows.mismatch (ha : a.Plain) (hb : b.Plain) (h : parts a b = none) :
    u.Follows (turn a b) (MonadExcept.throw .mismatch) := by
  rw [turn_eq ha hb, h]
  exact .throw u _

theorem Follows.apart (hu : u.Valid) (ha : a.Plain) (hb : b.Plain) (h : parts a b = some es)
    (hm : ∀ u', u.Grows u' → u.Alike u' → u'.Works es m) :
    u.Follows (turn a b) (noteParts a b >>= fun _ => m) := by
  obtain ⟨hadv, hr, hs⟩ := noteParts_alike hu a b
  have hworks := hm _ hadv.toGrows hs
  rw [turn_eq ha hb, h]
  show u.Follows (noteParts a b >>= fun _ => pure es) (noteParts a b >>= fun _ => m)
  rw [Follows, run_bind, run_bind, hr]
  exact hworks

/-- What the solver relies on where it has replaced some variables on the way down. -/
structure Inside (u : Unifier) (V D : Finset TyVar) (a b : Ty) : Prop where
  valid : u.Valid
  covers : u.Covers V
  left : u.Ranges V a
  right : u.Ranges V b
  encloses : u.Encloses D a

theorem Inside.grows (h : u.Inside V D a b) (hg : u.Grows u') (hk : Confines V u u') :
    u'.Inside V D a b where
  valid := hg.valid
  covers := h.covers.confines hk
  left := h.left.confines hg hk
  right := h.right.confines hg hk
  encloses := h.encloses.grows hg

theorem Inside.rangesIn (h : u.Inside V D a b) : ∀ e ∈ [Equation.types a b], u.RangesIn V e :=
  List.forall_mem_singleton.2 ⟨h.left, h.right⟩

/-- Where something is solved first, all that it needs to know of the state still holds after it. -/
theorem Works.next {k : Unit → SolveM Unit} (h : u.Works es m) (hu : u.Valid)
    (hes : ∀ e ∈ es, u.RangesIn V e)
    (hk : ∀ u', u.Grows u' → Confines V u u' → u'.Works es' (k ())) : u.Works (es ++ es') (m >>= k) := by
  obtain ⟨hadv, hconf⟩ := Solving.confines h hu hes
  exact h.bind fun _ => hk _ hadv.toGrows hconf

theorem works_rows (e f : Row) : u.Works [.rows e f] (solveRows e f) :=
  works_singleton.2 (.ends u _)

/-- The head of a head is the head itself. -/
theorem Head.find_self {h : Ty} (hh : u.Head t h) (hu : u.Valid) : find h u = (h, u) := by
  cases h with
  | var v =>
    have hv := hu.acyclic.type?_eq_none_iff.2 (hh.unbound v rfl)
    simp only [find, Substitution.find, Substitution.chain, hv, List.foldl_nil]
  | _ => rfl

theorem find_run {f : Ty → SolveM (List Equation)} (h : find a u = (a, u)) :
    (liftM (find a) >>= f).run u = (f a).run u := by
  show (f (find a u).1).run (find a u).2 = _
  rw [h]

/-- What follows the turn of two heads solves the equation between them, and the other way round. -/
theorem works_heads (hu : u.Valid) (ha : u.Head a a) (hb : u.Head b b) :
    u.Works [.types a b] m ↔ u.Follows (turn a b) m := by
  have hstep : (Equation.types a b).step.run u = (turn a b).run u :=
    (find_run (ha.find_self hu)).trans (find_run (hb.find_self hu))
  rw [works_singleton, Follows, hstep, Follows]

/-- On the way down the heads of both types are looked up first. -/
theorem Inside.heads_works (h : u.Inside V D a b) {f : Ty → Ty → SolveM Unit}
    (hf : ∀ (a' b' : Ty) (u' : Unifier), u'.Inside V D a b → u'.Head a a' → u'.Head b b' →
      u'.Follows (turn a' b') (f a' b')) :
    u.Works [.types a b] (liftM (find a) >>= fun a' => liftM (find b) >>= f a') := by
  obtain ⟨h₁, hs₁, hha⟩ := find_alike h.valid h.left.below
  have hin₁ := h.grows h₁.toGrows (hs₁.confines V)
  obtain ⟨h₂, hs₂, hhb⟩ := find_alike hin₁.valid hin₁.right.below
  exact works_singleton.2 (Follows.lift_bind (Follows.lift_bind
    (hf _ _ _ (hin₁.grows h₂.toGrows (hs₂.confines V)) ((hha.alike hs₁).alike hs₂) (hhb.alike hs₂))))

/-- From a type that is no variable, only the head of the other one has to be looked up. -/
theorem Inside.find_works (h : u.Inside V D a b) (ha : find a u = (a, u)) {f : Ty → SolveM Unit}
    (hf : ∀ (b' : Ty) (u' : Unifier), u'.Inside V D a b' → u'.Follows (turn a b') (f b')) :
    u.Works [.types a b] (liftM (find b) >>= f) := by
  obtain ⟨hadv, hs, hhead⟩ := find_alike h.valid h.right.below
  have hin := h.grows hadv.toGrows (hs.confines V)
  rw [works_singleton, Follows, show (Equation.types a b).step.run u = _ from find_run ha]
  exact Follows.lift_bind (hf _ _ { hin with right := (hhead.alike hs).ranges hin.right })

/-- Whether what goes on from a variable that was not replaced before solves an equation. -/
def GoesOn (V D : Finset TyVar) (again : Ty → Ty → SolveM Unit) : Prop :=
  ∀ v ∈ V, v ∉ D → ∀ (u : Unifier) (a b : Ty), u.Inside V (insert v D) a b →
    u.Works [.types a b] (again a b)

theorem GoesOn.follows {again : Ty → Ty → SolveM Unit} (hagain : GoesOn V D again)
    (h : u.Inside V D (.var v) b) {a' b' : Ty} (ha : u.Head (.var v) a') (hb : u.Head b b')
    (hne : ∀ w, a' ≠ .var w) : u.Follows (turn a' b') (again a' b') := by
  refine (works_heads h.valid ha.self hb.self).1 (hagain v (h.covers v ?_)
    (h.encloses.not_mem h.valid) u _ _ ⟨h.valid, h.covers, ha.ranges h.left, hb.ranges h.right,
      h.encloses.head h.valid ha hne⟩)
  rw [← ha.apply]
  cases a' with
  | var w => exact absurd rfl (hne w)
  | _ => simp

theorem Inside.fn {p r p' r' : Ty} {e e' : Row}
    (h : u.Inside V D (.fn p r e) (.fn p' r' e')) :
    u.Inside V D p p' ∧ u.Inside V D r r' ∧ u.RangesIn V (.rows e e') := by
  obtain ⟨hp, hr, he⟩ := h.left.fn
  obtain ⟨hp', hr', he'⟩ := h.right.fn
  refine ⟨⟨h.valid, h.covers, hp, hp', h.encloses.mono ?_⟩,
    ⟨h.valid, h.covers, hr, hr', h.encloses.mono ?_⟩, he, he'⟩
  · exact List.subset_append_left ..
  · exact List.subset_append_right ..

theorem Inside.ref {k k' : BorrowKind} (h : u.Inside V D (.ref k a) (.ref k' b)) :
    u.Inside V D a b := ⟨h.valid, h.covers, h.left.ref, h.right.ref, h.encloses⟩

/-- The same for each of two lists of types. -/
structure InsideAll (u : Unifier) (V D : Finset TyVar) (as bs : List Ty) : Prop where
  valid : u.Valid
  covers : u.Covers V
  left : ∀ t ∈ as, u.Ranges V t
  right : ∀ t ∈ bs, u.Ranges V t
  encloses : ∀ t ∈ as, u.Encloses D t

theorem InsideAll.grows {as bs : List Ty} (h : u.InsideAll V D as bs) (hg : u.Grows u')
    (hk : Confines V u u') : u'.InsideAll V D as bs where
  valid := hg.valid
  covers := h.covers.confines hk
  left t ht := (h.left t ht).confines hg hk
  right t ht := (h.right t ht).confines hg hk
  encloses t ht := (h.encloses t ht).grows hg

theorem InsideAll.cons {as bs : List Ty} (h : u.InsideAll V D (a :: as) (b :: bs)) :
    u.Inside V D a b ∧ u.InsideAll V D as bs := by
  obtain ⟨hu, hc, hl, hr, he⟩ := h
  simp only [List.forall_mem_cons] at hl hr he
  exact ⟨⟨hu, hc, hl.1, hr.1, he.1⟩, hu, hc, hl.2, hr.2, he.2⟩

theorem Inside.tuple {items items' : List Ty} (h : u.Inside V D (.tuple items) (.tuple items')) :
    u.InsideAll V D items items' where
  valid := h.valid
  covers := h.covers
  left _ ht := h.left.tuple ht
  right _ ht := h.right.tuple ht
  encloses t ht := h.encloses.mono fun x hx => by
    rw [Ty.vars, Ty.varsList_eq]
    exact List.mem_flatMap.2 ⟨t, ht, hx⟩

theorem Inside.named {name name' : String} {args args' : List Ty}
    (h : u.Inside V D (.named name args) (.named name' args')) : u.InsideAll V D args args' where
  valid := h.valid
  covers := h.covers
  left _ ht := h.left.named ht
  right _ ht := h.right.named ht
  encloses t ht := h.encloses.mono fun x hx => by
    rw [Ty.vars, Ty.varsList_eq]
    exact List.mem_flatMap.2 ⟨t, ht, hx⟩

/-- Whether a step of the solver on a type solves the equation with any other one. -/
def StepWorks (V D : Finset TyVar) (again : Ty → Ty → SolveM Unit) (a : Ty) : Prop :=
  ∀ (u : Unifier) (b : Ty), u.Inside V D a b → u.Works [.types a b] (solveStep again a b)

/-- The same for a list of types. -/
def EachWorks (V D : Finset TyVar) (again : Ty → Ty → SolveM Unit) (as : List Ty) : Prop :=
  ∀ (u : Unifier) (bs : List Ty), u.InsideAll V D as bs →
    u.Works (List.zipWith .types as bs) (solveEach again as bs)

section

variable {again : Ty → Ty → SolveM Unit}

theorem error_works : StepWorks V D again .error := by
  intro u b h
  unfold solveStep
  exact h.find_works rfl fun b' u' _ => .ends u' _

theorem prim_works (p : Primitive) : StepWorks V D again (.prim p) := by
  intro u b h
  unfold solveStep
  refine h.find_works rfl fun b' u' h' => ?_
  cases b' with
  | error => exact .ends u' _
  | var w => exact .ends u' _
  | prim q =>
    dsimp only
    split
    · rename_i hpq
      exact .apart h'.valid (by simp) (by simp) (if_pos hpq) fun _ _ _ => .nil
    · rename_i hpq
      exact .mismatch (by simp) (by simp) (if_neg hpq)
  | _ => exact .throw u' _

theorem string_works : StepWorks V D again .string := by
  intro u b h
  unfold solveStep
  refine h.find_works rfl fun b' u' h' => ?_
  cases b' with
  | error => exact .ends u' _
  | var w => exact .ends u' _
  | string => exact .ends u' (pure ())
  | _ => exact .throw u' _

theorem unit_works : StepWorks V D again .unit := by
  intro u b h
  unfold solveStep
  refine h.find_works rfl fun b' u' h' => ?_
  cases b' with
  | error => exact .ends u' _
  | var w => exact .ends u' _
  | unit => exact .ends u' (pure ())
  | _ => exact .throw u' _

theorem ref_works (k : BorrowKind) {inner : Ty} (hinner : StepWorks V D again inner) :
    StepWorks V D again (.ref k inner) := by
  intro u b h
  unfold solveStep
  refine h.find_works rfl fun b' u' h' => ?_
  cases b' with
  | error => exact .ends u' _
  | var w => exact .ends u' _
  | ref k' inner' =>
    dsimp only
    split
    · rename_i hk
      exact .apart h'.valid (by simp) (by simp) (if_pos hk) fun u₁ hg hs =>
        hinner u₁ inner' (h'.ref.grows hg (hs.confines V))
    · rename_i hk
      exact .mismatch (by simp) (by simp) (if_neg hk)
  | _ => exact .throw u' _

theorem tuple_works {items : List Ty} (hitems : EachWorks V D again items) :
    StepWorks V D again (.tuple items) := by
  intro u b h
  unfold solveStep
  refine h.find_works rfl fun b' u' h' => ?_
  cases b' with
  | error => exact .ends u' _
  | var w => exact .ends u' _
  | tuple items' =>
    dsimp only
    split
    · rename_i hlen
      exact .apart h'.valid (by simp) (by simp) (if_pos hlen) fun u₁ hg hs =>
        hitems u₁ items' (h'.tuple.grows hg (hs.confines V))
    · rename_i hlen
      exact .mismatch (by simp) (by simp) (if_neg hlen)
  | _ => exact .throw u' _

theorem named_works (name : String) {args : List Ty} (hargs : EachWorks V D again args) :
    StepWorks V D again (.named name args) := by
  intro u b h
  unfold solveStep
  refine h.find_works rfl fun b' u' h' => ?_
  cases b' with
  | error => exact .ends u' _
  | var w => exact .ends u' _
  | named name' args' =>
    dsimp only
    split
    · rename_i heq
      exact .apart h'.valid (by simp) (by simp) (if_pos heq) fun u₁ hg hs =>
        hargs u₁ args' (h'.named.grows hg (hs.confines V))
    · rename_i heq
      exact .mismatch (by simp) (by simp) (if_neg heq)
  | _ => exact .throw u' _

/-- The parts of two functions are made equal one after the other, and their rows last. -/
theorem fn_works {p r : Ty} (e : Row) (hparam : StepWorks V D again p)
    (hresult : StepWorks V D again r) : StepWorks V D again (.fn p r e) := by
  intro u b h
  unfold solveStep
  refine h.find_works rfl fun b' u' h' => ?_
  cases b' with
  | error => exact .ends u' _
  | var w => exact .ends u' _
  | fn p' r' e' =>
    refine .apart h'.valid (by simp) (by simp) rfl fun u₁ hg hs => ?_
    obtain ⟨hp, hr, he⟩ := (h'.grows hg (hs.confines V)).fn
    refine (hparam u₁ p' hp).next hg.valid hp.rangesIn fun u₂ h₂ k₂ => ?_
    refine (hresult u₂ r' (hr.grows h₂ k₂)).next h₂.valid (hr.grows h₂ k₂).rangesIn fun u₃ _ _ => ?_
    exact works_rows e e'
  | _ => exact .throw u' _

/-- A variable that stands for another type is replaced, and none of those around it was it. -/
theorem var_works (hagain : GoesOn V D again) (v : TyVar) : StepWorks V D again (.var v) := by
  intro u b h
  unfold solveStep
  refine h.heads_works fun a' b' u' h' ha hb => ?_
  cases a' with
  | var x => cases b' with
    | var w =>
      show u'.Follows (turn (.var x) (.var w)) _
      unfold turn
      dsimp only
      split
      · exact .ends u' _
      · exact .ends u' _
    | _ => exact .ends u' _
  | _ => exact hagain.follows h' ha hb (by simp)

mutual

/-- A step of the solver solves an equation, if what goes on from a variable that was not replaced
before does. -/
theorem solveStep_works (hagain : GoesOn V D again) : (a : Ty) → StepWorks V D again a
  | .error => error_works
  | .prim p => prim_works p
  | .string => string_works
  | .unit => unit_works
  | .ref k inner => ref_works k (solveStep_works hagain inner)
  | .tuple items => tuple_works (solveEach_works hagain items)
  | .named name args => named_works name (solveEach_works hagain args)
  | .fn p r e => fn_works e (solveStep_works hagain p) (solveStep_works hagain r)
  | .var v => var_works hagain v

theorem solveEach_works (hagain : GoesOn V D again) : (as : List Ty) → EachWorks V D again as
  | [], u, bs, _ => by
    unfold solveEach
    exact .nil
  | a :: as, u, [], _ => by
    unfold solveEach
    exact .nil
  | a :: as, u, b :: bs, h => by
    unfold solveEach
    obtain ⟨hab, hrest⟩ := h.cons
    exact (solveStep_works hagain a u b hab).next h.valid hab.rangesIn fun u₁ h₁ k₁ =>
      solveEach_works hagain as u₁ bs (hrest.grows h₁ k₁)

end

end

theorem solveWithin_works (n : Nat) : ∀ {D : Finset TyVar} {u : Unifier} {a b : Ty}, D ⊆ V →
    V.card < D.card + n → u.Inside V D a b → u.Works [.types a b] (solveWithin n a b) := by
  induction n with
  | zero => exact fun hD hn _ => absurd (Finset.card_le_card hD) (Nat.not_le_of_lt hn)
  | succ n ih =>
    intro D u a b hD hn h
    refine solveStep_works (fun v hv hvD _ _ _ => ih (Finset.insert_subset hv hD) ?_) a u b h
    rw [Finset.card_insert_of_notMem hvD]
    omega

/-- The solver solves the equation between any two types: it never gives up early. -/
theorem solve_works (hu : u.Valid) (ha : a.Below u.rowCount) (hb : b.Below u.rowCount) :
    u.Works [.types a b] (solve a b) := by
  show u.Works _ (solveWithin (u.solveBound a b + 1) a b)
  refine solveWithin_works (V := u.solveVars a b) _ (Finset.empty_subset _) ?_ ⟨hu, ?_, ⟨ha, ?_⟩,
    ⟨hb, ?_⟩, nofun⟩
  · have := u.card_solveVars_le a b
    rw [Finset.card_empty]
    omega
  · intro v hv
    cases ht : u.substitution.type? v with
    | none => exact absurd (hu.acyclic.type?_eq_none_iff.1 ht) hv
    | some t => exact Finset.mem_union_left _ (Finset.mem_range.2 (Substitution.lt_size_of_type? ht))
  · intro v hv
    simp [solveVars, hv]
  · intro v hv
    simp [solveVars, hv]

/-- Requiring an equation reports one more error than solving it where that fails, and otherwise does
nothing else. -/
theorem unify_outcome (u : Unifier) (a b : Ty) (why : Provenance) :
    ((unify a b why u).2 = ((solve a b).run u).2 ∧ ((solve a b).run u).1.isOk = true) ∨
      ((unify a b why u).2.errors.length = ((solve a b).run u).2.errors.length + 1 ∧
        ((solve a b).run u).1.isOk = false) := by
  have hnote (action : UnifyAction) (left right : Ty) (detail : String) (v : Unifier) :
      (note action left right detail v).2.errors = v.errors :=
    ((note_changesRows action left right detail).moves v).eqs.2.2.2
  unfold unify
  simp only [Bind.bind, StateT.bind]
  generalize (solve a b).run u = p
  obtain ⟨r, u'⟩ := p
  match r with
  | .ok () => exact .inl ⟨rfl, rfl⟩
  | .error (.occurs v t) =>
    refine .inr ⟨?_, rfl⟩
    exact (List.length_append ..).trans (congrArg (·.length + 1) (hnote ..))
  | .error .mismatch =>
    refine .inr ⟨?_, rfl⟩
    exact (List.length_append ..).trans (congrArg (·.length + 1) (hnote ..))

end Unifier
end RowCheck
