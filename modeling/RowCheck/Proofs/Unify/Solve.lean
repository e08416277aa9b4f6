import Mathlib.Tactic.Tauto
import RowCheck.Proofs.Unify.Valid
import RowCheck.Unify.Solve

/-!
Solving equations. Every step of the solver keeps what was solved before, also when it fails; and a
solved equation holds, unless one of its sides is the type of a failed expression.
-/
namespace RowCheck
namespace Unifier

variable {u u' u'' : Unifier}

/-! ## Actions that may fail -/

/-- An action that may fail advances a state in any case, and where it does not fail its answer and
the state it ends in have some property. -/
def Solves {α : Type} (u : Unifier) (m : SolveM α) (Q : α → Unifier → Prop) : Prop :=
  u.Does m.run (fun r u' => ∀ a, r = .ok a → Q a u')

section

variable {α β : Type} {m : SolveM α} {f : α → SolveM β} {Q Q' : α → Unifier → Prop}
  {R : β → Unifier → Prop}

theorem Solves.bind (h : u.Solves m Q)
    (hf : ∀ a u', u.Advances u' → Q a u' → u'.Solves (f a) R) : u.Solves (m >>= f) R := by
  refine Does.bind (f := ExceptT.bindCont f) h fun r u' hadv hq => ?_
  cases r with
  | ok a => exact hf a u' hadv (hq a rfl)
  | error e => exact .pure hadv.valid fun b hb => by cases hb

theorem Solves.lift_bind {x : UnifyM α} (h : u.Does x Q)
    (hf : ∀ a u', u.Advances u' → Q a u' → u'.Solves (f a) R) :
    u.Solves ((liftM x : SolveM α) >>= f) R :=
  Does.bind h hf

theorem Solves.lift {x : UnifyM α} (h : u.Does x Q) : u.Solves (liftM x) Q :=
  Does.bind h fun _ _ hadv hq => .pure hadv.valid fun _ hb => by
    cases hb
    exact hq

theorem Solves.get_bind {f : Unifier → SolveM β} (h : u.Solves (f u) R) :
    u.Solves (get >>= f) R := h

theorem Solves.pure (hu : u.Valid) {a : α} (hq : Q a u) : u.Solves (pure a) Q :=
  ⟨hu.advances, fun _ hb => by
    cases hb
    exact hq⟩

theorem Solves.throw (hu : u.Valid) (e : UnifyFailure) : u.Solves (MonadExcept.throw e : SolveM α) Q :=
  ⟨hu.advances, fun _ hb => by cases hb⟩

theorem Solves.imp (h : u.Solves m Q) (hq : ∀ a u', u.Advances u' → Q a u' → Q' a u') :
    u.Solves m Q' :=
  ⟨h.1, fun a ha => hq a _ h.1 (h.2 a ha)⟩

end

/-! ## Types without errors -/

/-- Whether a type stands for one that has no failed expression's type within. -/
def Clean (u : Unifier) (t : Ty) : Prop := (u.apply t).containsError = false

theorem clean_var (h : u.substitution.type? v = none) : u.Clean (.var v) := by
  rw [Clean, apply, Substitution.apply_unbound h]
  rfl

theorem clean_fn {p r : Ty} {e : Row} : u.Clean (.fn p r e) ↔ u.Clean p ∧ u.Clean r := by
  simp [Clean, Ty.containsError]

theorem clean_tuple {items : List Ty} : u.Clean (.tuple items) ↔ ∀ t ∈ items, u.Clean t := by
  simp [Clean, Ty.containsError]

theorem clean_named {name : String} {args : List Ty} :
    u.Clean (.named name args) ↔ ∀ t ∈ args, u.Clean t := by
  simp [Clean, Ty.containsError]

theorem not_clean_error : ¬ u.Clean .error := by simp [Clean, Ty.containsError]

/-- A type stays clean if its variables do. -/
theorem Clean.grows {t : Ty} (ht : u.Clean t) (hu : u.Valid) (h : u.Grows u')
    (hv : ∀ v ∈ (u.apply t).vars, u'.Clean (.var v)) : u'.Clean t := by
  rw [Clean, ← h.apply hu, apply, Substitution.apply_eq_mapVars, ← Bool.not_eq_true,
    Ty.containsError_mapVars, not_or]
  refine ⟨by rw [Clean] at ht; simp [ht], fun ⟨v, hmem, he⟩ => ?_⟩
  rw [show (u'.substitution.apply (.var v)).containsError = false from hv v hmem] at he
  cases he

/-- What a solved equation means: if both sides were clean before, then everything that was clean
still is, and the sides stand for the same. -/
def Agree (u u' : Unifier) (a b : Ty) : Prop :=
  u.Clean a → u.Clean b → (∀ t, u.Clean t → u'.Clean t) ∧ u'.apply a = u'.apply b

theorem Agree.symm {a b : Ty} (h : Agree u u' a b) : Agree u u' b a := fun hb ha =>
  ⟨(h ha hb).1, (h ha hb).2.symm⟩

/-- An equation may be solved between what its sides stand for. -/
theorem Agree.of_apply_eq {a b a' b' : Ty} (hu' : u'.Valid) (hg : u'.Grows u'')
    (hsame : ∀ x, u'.apply x = u.apply x) (ha : u'.apply a = u'.apply a')
    (hb : u'.apply b = u'.apply b') (h : Agree u' u'' a' b') : Agree u u'' a b := by
  have clean : ∀ x, u.Clean x → u'.Clean x := fun x hx => by rwa [Clean, hsame]
  intro hca hcb
  have ha' : u'.Clean a' := by
    rw [Clean, ← ha]
    exact clean a hca
  have hb' : u'.Clean b' := by
    rw [Clean, ← hb]
    exact clean b hcb
  obtain ⟨hclean, heq⟩ := h ha' hb'
  refine ⟨fun t ht => hclean t (clean t ht), ?_⟩
  rw [hg.apply_eq hu' ha, heq, hg.apply_eq hu' hb]

theorem Agree.of_same {a b : Ty} (h : Agree u u' a b) (hsame : ∀ x, u''.apply x = u'.apply x) :
    Agree u u'' a b := by
  simpa only [Agree, Clean, hsame] using h

/-! ## The parts of the solver -/

theorem requireNumeric_does (hu : u.Valid) {t : Ty} (ht : t.Below u.rowCount)
    (why : Provenance) :
    u.Does (requireNumeric t why) (fun _ u' => ∀ x, u'.apply x = u.apply x) := by
  unfold requireNumeric
  refine (find_does hu ht).bind fun h u' hadv hfind => ?_
  have hsame := hfind.2.1
  have keep : ∀ {u'' : Unifier}, u''.substitution = u'.substitution →
      ∀ x, u''.apply x = u.apply x := fun e x => by
    rw [apply, e]
    exact hsame x
  split
  · exact (addNumeric_does hadv.valid _ _).imp fun _ _ _ e => keep e
  · exact .pure hadv.valid hsame
  · split
    · split
      · exact .pure hadv.valid hsame
      · exact .get_bind ((report_does hadv.valid _).imp fun _ _ _ e => keep e.1)
    · exact .get_bind ((report_does hadv.valid _).imp fun _ _ _ e => keep e.1)

/-- A variable bound to a type that does not mention it stands for that type. -/
theorem Advances.agree_bindType (h : u.Advances u') (hu : u.Valid) {v : TyVar} {t : Ty}
    (hm : v ∉ (u.apply t).vars) (hs : u'.substitution = u.substitution.bindType v t) :
    Agree u u' (.var v) t := by
  have hfree : ∀ x, ∀ w ∈ (u.apply x).vars, w ≠ v → u'.Clean (.var w) := by
    refine fun x w hw hne => clean_var ?_
    rw [hs, Substitution.type?_bindType, if_neg (Ne.symm hne)]
    exact hu.acyclic.type?_of_mem_vars_apply hw
  have heq : u'.apply (.var v) = u'.apply t :=
    h.valid.acyclic.apply_var (by rw [hs, Substitution.type?_bindType, if_pos rfl])
  refine fun _ hct => ⟨fun x hx => ?_, heq⟩
  refine hx.grows hu h.toGrows fun w hw => ?_
  by_cases hne : w = v
  · rw [Clean, hne, heq]
    exact hct.grows hu h.toGrows fun w hw => hfree t w hw fun e => hm (e ▸ hw)
  · exact hfree x w hw hne

theorem modify_bindType_does (hu : u.Valid) {v : TyVar} {t : Ty}
    (hv : u.substitution.type? v = none) (hm : v ∉ (u.apply t).vars)
    (ht : t.Below u.rowCount) :
    u.Does (modify (fun u => { u with substitution := u.substitution.bindType v t }))
      (fun _ u' => u'.substitution = u.substitution.bindType v t) := by
  have hac := hu.acyclic.bindType hv hm
  exact ⟨hu.advances_substitution (hu.substitution.bindType hac ht)
    (Substitution.refines_bindType hv hac) (Nat.le_refl _), rfl⟩

theorem modify_numeric_does (hu : u.Valid) (v : TyVar) :
    u.Does (modify (fun u => { u with numeric := u.numeric.erase v }))
      (fun _ u' => u'.substitution = u.substitution) :=
  ⟨⟨hu.grows_of_eq rfl hu.pending (List.prefix_refl _), List.prefix_refl _⟩, rfl⟩

/-- Binding an unbound variable solves the equation between it and the type. -/
theorem bindVar_solves (hu : u.Valid) {v : TyVar} {t : Ty} (hv : u.substitution.type? v = none)
    (ht : t.Below u.rowCount) :
    u.Solves (bindVar v t) (fun _ u' => Agree u u' (.var v) t) := by
  unfold bindVar
  refine .get_bind ?_
  dsimp only
  split
  · exact .throw hu _
  · rename_i hm
    have hm : v ∉ (u.apply t).vars := by rwa [Ty.mentions_iff] at hm
    refine .lift_bind (note_does hu ..) fun _ u₁ h₁ e₁ => ?_
    refine .lift_bind (modify_bindType_does h₁.valid (v := v) (t := t) ?_ ?_ ?_) fun _ u₂ h₂ e₂ => ?_
    · rwa [e₁]
    · rwa [apply, e₁]
    · exact ht.mono h₁.rows
    rw [e₁] at e₂
    have agree := (h₁.trans h₂).agree_bindType hu hm e₂
    refine .get_bind ?_
    split
    · exact .pure h₂.valid agree
    · refine .lift_bind (modify_numeric_does h₂.valid v) fun _ u₃ h₃ e₃ => ?_
      have hrows := (h₁.trans (h₂.trans h₃)).rows
      refine .lift ((requireNumeric_does h₃.valid (ht.mono hrows) _).imp fun _ u₄ h₄ hsame => ?_)
      refine agree.of_same fun x => ?_
      rw [hsame, apply, e₃]
      rfl

/-- Changing rows only leaves clean types clean. -/
theorem Advances.clean_of_types (h : u.Advances u') (hu : u.Valid)
    (ht : ∀ v, u'.substitution.type? v = u.substitution.type? v) (x : Ty) (hx : u.Clean x) :
    u'.Clean x :=
  hx.grows hu h.toGrows fun v hv => clean_var (by
    rw [ht]
    exact hu.acyclic.type?_of_mem_vars_apply hv)

/-- A row whose tail gets bound gains what the tail is bound to. -/
theorem Grows.findRow_of_bound (h : u.Grows u') (hu : u.Valid) {e b : Row} {v : RowVar}
    (ht : (u.findRow e).tail = some v) (hv : u'.substitution.row? v = some b)
    (hb : ∀ w, b.tail = some w → u'.substitution.row? w = none) :
    u'.findRow e = b.extend (u.findRow e).labels := by
  rw [← h.findRow hu e]
  show u'.substitution.findRow (u.findRow e) = _
  rw [Substitution.findRow_eq_extend ht, h.valid.acyclic.findRow_ofVar hv]
  congr 1
  cases htb : b.tail with
  | none => exact Substitution.findRow_closed htb
  | some w => exact Substitution.findRow_unbound htb (hb w htb)

theorem Grows.findRow_of_closed (h : u.Grows u') (hu : u.Valid) {e : Row}
    (ht : (u.findRow e).tail = none) : u'.findRow e = u.findRow e := by
  rw [← h.findRow hu e]
  exact Substitution.findRow_closed ht

theorem Solves.throw_bind {α β : Type} {f : α → SolveM β} {R : β → Unifier → Prop} (hu : u.Valid)
    (e : UnifyFailure) : u.Solves ((MonadExcept.throw e : SolveM α) >>= f) R :=
  ⟨hu.advances, fun _ hb => by cases hb⟩

/-- An open row is closed with what a closed row has besides. -/
theorem closeTail_does (hu : u.Valid) {e f : Row} {v : RowVar} (hv : (u.findRow e).tail = some v)
    (hbelow : v < u.rowCount) (hf : (u.findRow f).tail = none)
    (h : ∀ x ∈ (u.findRow e).labels, x ∈ (u.findRow f).labels) :
    u.Does (bindRowVar v ⟨(u.findRow f).labels.diff (u.findRow e).labels, none⟩)
      (fun _ u' => u'.findRow e = u'.findRow f ∧
        ∀ w, u'.substitution.type? w = u.substitution.type? w) := by
  refine (bindRowVar_does hu (hu.acyclic.row?_tail_findRow hv) hbelow (by simp)).imp
    fun _ u' ha hb => ⟨?_, fun _ => by rw [hb]; rfl⟩
  have hbound := by simpa using congrArg (fun s => s.row? v) hb
  rw [ha.findRow_of_closed hu hf, ha.findRow_of_bound hu hv hbound (by simp)]
  refine Row.ext_mem (fun x => ?_) hf.symm
  have := h x
  simp only [Row.mem_extend, SortedSet.mem_diff]
  tauto

/-- Two open rows get what the other one has besides, and a new tail that they share. -/
theorem shareTail_solves (hu : u.Valid) {e f : Row} {v w : RowVar} (hv : (u.findRow e).tail = some v)
    (hw : (u.findRow f).tail = some w) (hbv : v < u.rowCount) (hbw : w < u.rowCount) (hvw : v ≠ w)
    (detail : RowVar → String) :
    u.Solves (do
      let rest ← freshRowVar
      note .rowDecompose .unit .unit (detail rest)
      bindRowVar v ⟨(u.findRow f).labels.diff (u.findRow e).labels, some rest⟩
      bindRowVar w ⟨(u.findRow e).labels.diff (u.findRow f).labels, some rest⟩)
      (fun _ u' => u'.findRow e = u'.findRow f ∧
        ∀ x, u'.substitution.type? x = u.substitution.type? x) := by
  refine .lift_bind (freshRowVar_does hu) fun rest u₁ h₁ hrest => ?_
  obtain ⟨rfl, hlt, hunbound, hrows, htypes⟩ := hrest
  refine .lift_bind (note_does h₁.valid ..) fun _ u₂ h₂ e₂ => ?_
  have hne : ∀ x, x < u.rowCount → u.rowCount ≠ x := fun x hx => Nat.ne_of_gt hx
  have hrows₂ : ∀ x, u₂.substitution.row? x = u.substitution.row? x := fun x => by rw [e₂, hrows]
  have hsize : u.rowCount < u₂.rowCount := hlt.trans_le h₂.rows
  refine .lift_bind (bindRowVar_does h₂.valid (v := v) ?_ ?_ ?_) fun _ u₃ h₃ e₃ => ?_
  · rw [hrows₂, hu.acyclic.row?_tail_findRow hv]
  · exact hbv.trans hsize
  · rintro x hx
    cases hx
    exact ⟨by rwa [e₂], hne v hbv, hsize⟩
  refine .lift ((bindRowVar_does h₃.valid (v := w) ?_ ?_ ?_).imp fun _ u₄ h₄ e₄ => ?_)
  · rw [e₃, Substitution.row?_bindRow, if_neg hvw, hrows₂, hu.acyclic.row?_tail_findRow hw]
  · exact hbw.trans (hsize.trans_le h₃.rows)
  · rintro x hx
    cases hx
    refine ⟨?_, hne w hbw, hsize.trans_le h₃.rows⟩
    rw [e₃, Substitution.row?_bindRow, if_neg (hne v hbv).symm, e₂]
    exact hunbound
  have ha := h₁.trans (h₂.trans (h₃.trans h₄))
  have hrow₄ : ∀ x, u₄.substitution.row? x =
      if w = x then some ⟨(u.findRow e).labels.diff (u.findRow f).labels, some u.rowCount⟩
      else if v = x then some ⟨(u.findRow f).labels.diff (u.findRow e).labels, some u.rowCount⟩
      else u₁.substitution.row? x := fun x => by
    rw [e₄, Substitution.row?_bindRow, e₃, Substitution.row?_bindRow, e₂]
  have hrest : u₄.substitution.row? u.rowCount = none := by
    rw [hrow₄, if_neg (hne w hbw).symm, if_neg (hne v hbv).symm, hunbound]
  have hv₄ := (hrow₄ v).trans (by rw [if_neg (Ne.symm hvw), if_pos rfl])
  have hw₄ := (hrow₄ w).trans (by rw [if_pos rfl])
  refine ⟨?_, fun x => ?_⟩
  · rw [ha.findRow_of_bound hu hv hv₄ (fun x hx => by cases hx; exact hrest),
      ha.findRow_of_bound hu hw hw₄ (fun x hx => by cases hx; exact hrest)]
    refine Row.ext_mem (fun x => ?_) rfl
    simp only [Row.mem_extend, SortedSet.mem_diff]
    tauto
  · rw [e₄, Substitution.type?_bindRow, e₃, Substitution.type?_bindRow, e₂, htypes]

/-- Rows that were made equal stand for the same. -/
theorem solveRows_solves (hu : u.Valid) {e f : Row} (he : e.Below u.rowCount)
    (hf : f.Below u.rowCount) :
    u.Solves (solveRows e f) (fun _ u' => u'.findRow e = u'.findRow f ∧
      ∀ v, u'.substitution.type? v = u.substitution.type? v) := by
  have hbe := hu.substitution.findRow_below he
  have hbf := hu.substitution.findRow_below hf
  unfold solveRows
  refine .get_bind (.get_bind ?_)
  dsimp only
  split
  · rename_i hr hs
    split
    · rename_i h
      simp only [Bool.and_eq_true, SortedSet.isEmpty_diff] at h
      exact .pure hu ⟨Row.ext_mem (fun x => ⟨h.1 x, h.2 x⟩) (hr.trans hs.symm), fun _ => rfl⟩
    · exact .throw hu _
  · rename_i v hr hs
    split
    · rename_i h
      rw [SortedSet.isEmpty_diff] at h
      exact .lift (closeTail_does hu hr (hbe v hr) hs h)
    · exact .throw_bind hu _
  · rename_i w hr hs
    split
    · rename_i h
      rw [SortedSet.isEmpty_diff] at h
      exact .lift ((closeTail_does hu hs (hbf w hs) hr h).imp fun _ _ _ h => ⟨h.1.symm, h.2⟩)
    · exact .throw_bind hu _
  · rename_i v w hr hs
    split
    · rename_i hvw
      split
      · rename_i h
        simp only [Bool.and_eq_true, SortedSet.isEmpty_diff] at h
        refine .pure hu ⟨Row.ext_mem (fun x => ⟨h.1 x, h.2 x⟩) ?_, fun _ => rfl⟩
        rw [hr, hs, hvw]
      · exact .throw hu _
    · rename_i hvw
      exact shareTail_solves hu hr hs (hbe v hr) (hbf w hs) hvw _

/-! ## The solver -/

/-- Whether what solves equations keeps clean types clean and leaves equal sides. -/
def SolvesEquations (solver : Ty → Ty → SolveM Unit) : Prop :=
  ∀ (u : Unifier) (a b : Ty), u.Valid → a.Below u.rowCount →
    b.Below u.rowCount → u.Solves (solver a b) (fun _ u' => Agree u u' a b)

/-- The same for a list of equations. -/
def AgreeAll (u u' : Unifier) (as bs : List Ty) : Prop :=
  (∀ t ∈ as, u.Clean t) → (∀ t ∈ bs, u.Clean t) →
    (∀ t, u.Clean t → u'.Clean t) ∧ as.map u'.apply = bs.map u'.apply

/-- The right side of an equation may be replaced by its head. -/
theorem Solves.find_bind (hu : u.Valid) {a b : Ty} (hb : b.Below u.rowCount)
    {f : Ty → SolveM Unit}
    (h : ∀ (b' : Ty) (u' : Unifier), u'.Valid → u.rowCount ≤ u'.rowCount →
      b'.Below u'.rowCount → (∀ v, b' = .var v → u'.substitution.type? v = none) →
      u'.Solves (f b') (fun _ u'' => Agree u' u'' a b')) :
    u.Solves (liftM (find b) >>= f) (fun _ u'' => Agree u u'' a b) := by
  refine .lift_bind (find_does hu hb) fun b' u' hadv hfind => ?_
  obtain ⟨heq, hsame, hhead, hbelow, -⟩ := hfind
  refine (h b' u' hadv.valid hadv.rows hbelow hhead).imp fun _ u'' hadv' hagree => ?_
  exact hagree.of_apply_eq hadv.valid hadv'.toGrows hsame rfl heq

theorem absorb_solves (hu : u.Valid) (a : Ty) :
    u.Solves (absorb a .error) (fun _ u' => Agree u u' a .error) :=
  .lift ((note_does hu ..).imp fun _ _ _ _ _ hb => absurd hb not_clean_error)

theorem bindVar_solves_symm (hu : u.Valid) {v : TyVar} {t : Ty}
    (hv : u.substitution.type? v = none) (ht : t.Below u.rowCount) :
    u.Solves (bindVar v t) (fun _ u' => Agree u u' t (.var v)) :=
  (bindVar_solves hu hv ht).imp fun _ _ _ h => h.symm

theorem agree_self (a : Ty) : Agree u u a a := fun _ _ => ⟨fun _ => id, rfl⟩

theorem Agree.of_note {a b : Ty} (h : Agree u' u'' a b)
    (hs : u'.substitution = u.substitution) : Agree u u'' a b := by
  simpa only [Agree, Clean, apply, hs] using h

/-- Arrows agree if their parts do, one after the other. -/
theorem agree_fn {u₁ u₂ u₃ u₄ : Unifier} {p p' r r' : Ty} {e e' : Row} (h₂ : u₁.Advances u₂)
    (h₃ : u₂.Advances u₃) (h₄ : u₃.Advances u₄)
    (hp : Agree u₁ u₂ p p') (hr : Agree u₂ u₃ r r') (he : u₄.findRow e = u₄.findRow e')
    (hclean : ∀ t, u₃.Clean t → u₄.Clean t) : Agree u₁ u₄ (.fn p r e) (.fn p' r' e') := by
  intro ha hb
  obtain ⟨hcp, hcr⟩ := clean_fn.1 ha
  obtain ⟨hcp', hcr'⟩ := clean_fn.1 hb
  obtain ⟨hclean₂, hpeq⟩ := hp hcp hcp'
  obtain ⟨hclean₃, hreq⟩ := hr (hclean₂ r hcr) (hclean₂ r' hcr')
  refine ⟨fun t ht => hclean t (hclean₃ t (hclean₂ t ht)), ?_⟩
  rw [apply_fn, (h₃.trans h₄).apply_eq h₂.valid hpeq, h₄.apply_eq h₃.valid hreq, he, apply_fn]

/-- Whether a step of the solver on a type leaves it equal to the other side. -/
def StepSolves (again : Ty → Ty → SolveM Unit) (a : Ty) : Prop :=
  ∀ (u : Unifier) (b : Ty), u.Valid → a.Below u.rowCount → b.Below u.rowCount →
    u.Solves (solveStep again a b) (fun _ u' => Agree u u' a b)

/-- The same for a list of equations. -/
def EachSolves (again : Ty → Ty → SolveM Unit) (as : List Ty) : Prop :=
  ∀ (u : Unifier) (bs : List Ty), u.Valid → as.length = bs.length → (∀ t ∈ as, t.Below u.rowCount) →
    (∀ t ∈ bs, t.Below u.rowCount) → u.Solves (solveEach again as bs) (fun _ u' => AgreeAll u u' as bs)

/-- A type that is no variable is compared with the head of the other one. A failed part is absorbed and
a variable is bound to it. -/
theorem compare_solves (hu : u.Valid) {a b : Ty} (ha : a.Below u.rowCount) (hb : b.Below u.rowCount)
    {f : Ty → SolveM Unit} (herror : f .error = absorb a .error) (hvar : ∀ w, f (.var w) = bindVar w a)
    (hf : ∀ (b' : Ty) (u' : Unifier), u'.Valid → u.rowCount ≤ u'.rowCount → b'.Below u'.rowCount →
      b' ≠ .error → (∀ w, b' ≠ .var w) → u'.Solves (f b') (fun _ u'' => Agree u' u'' a b')) :
    u.Solves (liftM (find b) >>= f) (fun _ u' => Agree u u' a b) := by
  refine .find_bind hu hb fun b' u' hu' hle hb' hhead => ?_
  cases b' with
  | error => exact herror ▸ absorb_solves hu' a
  | var w => exact hvar w ▸ bindVar_solves_symm hu' (hhead w rfl) (ha.mono hle)
  | _ => exact hf _ u' hu' hle hb' (by simp) (by simp)

section

variable {again : Ty → Ty → SolveM Unit}

theorem error_solves : StepSolves again .error := by
  intro u b hu _ hb
  unfold solveStep
  refine .find_bind hu hb fun b' u' hu' _ _ _ => ?_
  exact .lift ((note_does hu' ..).imp fun _ _ _ _ ha => absurd ha not_clean_error)

theorem prim_solves (p : Primitive) : StepSolves again (.prim p) := by
  intro u b hu ha hb
  unfold solveStep
  refine compare_solves hu ha hb rfl (fun _ => rfl) fun b' u' hu' _ _ herror hvar => ?_
  cases b' with
  | error => exact absurd rfl herror
  | var w => exact absurd rfl (hvar w)
  | prim q =>
    dsimp only
    split
    · rename_i h
      exact .pure hu' (h ▸ agree_self _)
    · exact .throw hu' _
  | _ => exact .throw hu' _

theorem string_solves : StepSolves again .string := by
  intro u b hu ha hb
  unfold solveStep
  refine compare_solves hu ha hb rfl (fun _ => rfl) fun b' u' hu' _ _ herror hvar => ?_
  cases b' with
  | error => exact absurd rfl herror
  | var w => exact absurd rfl (hvar w)
  | string => exact .pure hu' (agree_self _)
  | _ => exact .throw hu' _

theorem unit_solves : StepSolves again .unit := by
  intro u b hu ha hb
  unfold solveStep
  refine compare_solves hu ha hb rfl (fun _ => rfl) fun b' u' hu' _ _ herror hvar => ?_
  cases b' with
  | error => exact absurd rfl herror
  | var w => exact absurd rfl (hvar w)
  | unit => exact .pure hu' (agree_self _)
  | _ => exact .throw hu' _

theorem ref_solves (k : BorrowKind) {inner : Ty} (hinner : StepSolves again inner) :
    StepSolves again (.ref k inner) := by
  intro u b hu ha hb
  unfold solveStep
  refine compare_solves hu ha hb rfl (fun _ => rfl) fun b' u' hu' hle hb' herror hvar => ?_
  cases b' with
  | error => exact absurd rfl herror
  | var w => exact absurd rfl (hvar w)
  | ref k' inner' =>
    dsimp only
    split
    · rename_i h
      refine (hinner u' inner' hu' (ha.mono hle) hb').imp fun _ u'' _ hagree ha hb => ?_
      obtain ⟨hclean, heq⟩ := hagree ha hb
      exact ⟨hclean, by rw [apply_ref, heq, apply_ref, h]⟩
    · exact .throw hu' _
  | _ => exact .throw hu' _

theorem tuple_solves {items : List Ty} (hitems : EachSolves again items) :
    StepSolves again (.tuple items) := by
  intro u b hu ha hb
  unfold solveStep
  refine compare_solves hu ha hb rfl (fun _ => rfl) fun b' u' hu' hle hb' herror hvar => ?_
  cases b' with
  | error => exact absurd rfl herror
  | var w => exact absurd rfl (hvar w)
  | tuple items' =>
    dsimp only
    split
    · rename_i h
      refine .lift_bind (note_does hu' ..) fun _ u₁ h₁ e₁ => ?_
      refine (hitems u₁ items' h₁.valid h
        (fun t ht => (Ty.below_tuple.1 ha t ht).mono (hle.trans h₁.rows))
        (fun t ht => (Ty.below_tuple.1 hb' t ht).mono h₁.rows)).imp
        fun _ u₂ _ hagree => Agree.of_note ?_ e₁
      intro ha hb
      obtain ⟨hclean, heq⟩ := hagree (clean_tuple.1 ha) (clean_tuple.1 hb)
      exact ⟨hclean, by rw [apply_tuple, heq, apply_tuple]⟩
    · exact .throw hu' _
  | _ => exact .throw hu' _

theorem named_solves (name : String) {args : List Ty} (hargs : EachSolves again args) :
    StepSolves again (.named name args) := by
  intro u b hu ha hb
  unfold solveStep
  refine compare_solves hu ha hb rfl (fun _ => rfl) fun b' u' hu' hle hb' herror hvar => ?_
  cases b' with
  | error => exact absurd rfl herror
  | var w => exact absurd rfl (hvar w)
  | named name' args' =>
    dsimp only
    split
    · rename_i h
      refine .lift_bind (note_does hu' ..) fun _ u₁ h₁ e₁ => ?_
      refine (hargs u₁ args' h₁.valid h.2
        (fun t ht => (Ty.below_named.1 ha t ht).mono (hle.trans h₁.rows))
        (fun t ht => (Ty.below_named.1 hb' t ht).mono h₁.rows)).imp
        fun _ u₂ _ hagree => Agree.of_note ?_ e₁
      intro ha hb
      obtain ⟨hclean, heq⟩ := hagree (clean_named.1 ha) (clean_named.1 hb)
      exact ⟨hclean, by rw [apply_named, heq, apply_named, h.1]⟩
    · exact .throw hu' _
  | _ => exact .throw hu' _

/-- The parts of two functions are made equal one after the other, and their rows last. -/
theorem fn_solves {p r : Ty} (e : Row) (hparam : StepSolves again p) (hresult : StepSolves again r) :
    StepSolves again (.fn p r e) := by
  intro u b hu ha hb
  unfold solveStep
  refine compare_solves hu ha hb rfl (fun _ => rfl) fun b' u' hu' hle hb' herror hvar => ?_
  cases b' with
  | error => exact absurd rfl herror
  | var w => exact absurd rfl (hvar w)
  | fn p' r' e' =>
    obtain ⟨hp, hr, he⟩ := Ty.below_fn.1 (ha.mono hle)
    obtain ⟨hp', hr', he'⟩ := Ty.below_fn.1 hb'
    refine .lift_bind (note_does hu' ..) fun _ u₁ h₁ e₁ => ?_
    refine .bind (hparam u₁ p' h₁.valid (hp.mono h₁.rows) (hp'.mono h₁.rows)) fun _ u₂ h₂ hagree₂ => ?_
    have hle₂ := h₁.rows.trans h₂.rows
    refine .bind (hresult u₂ r' h₂.valid (hr.mono hle₂) (hr'.mono hle₂)) fun _ u₃ h₃ hagree₃ => ?_
    have hle₃ := hle₂.trans h₃.rows
    refine (solveRows_solves h₃.valid (he.mono hle₃) (he'.mono hle₃)).imp fun _ u₄ h₄ heq => ?_
    refine Agree.of_note (agree_fn h₂ h₃ h₄ hagree₂ hagree₃ heq.1 ?_) e₁
    exact h₄.clean_of_types h₃.valid heq.2
  | _ => exact .throw hu' _

/-- What a variable stands for is looked up before the other side, so its head is still one then. -/
theorem var_solves (hagain : SolvesEquations again) (v : TyVar) : StepSolves again (.var v) := by
  intro u b hu ha hb
  unfold solveStep
  refine .lift_bind (find_does hu ha) fun a' u₁ h₁ hfind₁ => ?_
  obtain ⟨heq₁, hsame₁, hhead₁, hbelow₁, -⟩ := hfind₁
  refine .lift_bind (find_does h₁.valid (hb.mono h₁.rows)) fun b' u₂ h₂ hfind₂ => ?_
  obtain ⟨heq₂, hsame₂, hhead₂, hbelow₂, -⟩ := hfind₂
  have ha' := hbelow₁.mono h₂.rows
  have hheada : ∀ w, a' = .var w → u₂.substitution.type? w = none := fun w hw => by
    rw [h₂.valid.acyclic.type?_eq_none_iff]
    exact (hsame₂ (.var w)).trans (Substitution.apply_unbound (hhead₁ w hw))
  have heads : ∀ {m : SolveM Unit}, u₂.Solves m (fun _ u' => Agree u₂ u' a' b') →
      u₂.Solves m (fun _ u' => Agree u u' (.var v) b) := fun h =>
    h.imp fun _ u' hadv hagree => hagree.of_apply_eq h₂.valid hadv.toGrows
      (fun x => (hsame₂ x).trans (hsame₁ x)) (h₂.apply_eq h₁.valid heq₁) heq₂
  refine heads ?_
  split
  · rename_i v' w
    split
    · rename_i h
      exact .lift ((note_does h₂.valid ..).imp fun _ u' h' hs =>
        (h ▸ agree_self _ : Agree u' u' _ _).of_note hs)
    · exact bindVar_solves h₂.valid (hheada _ rfl) hbelow₂
  · exact absorb_solves h₂.valid _
  · exact bindVar_solves h₂.valid (hheada _ rfl) hbelow₂
  · exact hagain u₂ a' b' h₂.valid ha' hbelow₂

mutual

/-- A step of the solver solves equations if what goes on from there does. -/
theorem solveStep_solves (hagain : SolvesEquations again) : (a : Ty) → StepSolves again a
  | .error => error_solves
  | .prim p => prim_solves p
  | .string => string_solves
  | .unit => unit_solves
  | .ref k inner => ref_solves k (solveStep_solves hagain inner)
  | .tuple items => tuple_solves (solveEach_solves hagain items)
  | .named name args => named_solves name (solveEach_solves hagain args)
  | .fn p r e => fn_solves e (solveStep_solves hagain p) (solveStep_solves hagain r)
  | .var v => var_solves hagain v

theorem solveEach_solves (hagain : SolvesEquations again) : (as : List Ty) → EachSolves again as
  | [], u, bs, hu, hlen, _, _ => by
    obtain rfl := List.length_eq_zero_iff.1 hlen.symm
    exact .pure hu fun _ _ => ⟨fun _ => id, rfl⟩
  | a :: as, u, b :: bs, hu, hlen, has, hbs => by
    unfold solveEach
    simp only [List.mem_cons, forall_eq_or_imp] at has hbs
    refine .bind (solveStep_solves hagain a u b hu has.1 hbs.1) fun _ u₁ h₁ hagree => ?_
    refine (solveEach_solves hagain as u₁ bs h₁.valid (Nat.succ.inj hlen)
      (fun t ht => (has.2 t ht).mono h₁.rows) (fun t ht => (hbs.2 t ht).mono h₁.rows)).imp
      fun _ u₂ h₂ hall => ?_
    intro hca hcb
    simp only [List.mem_cons, forall_eq_or_imp] at hca hcb
    obtain ⟨hclean₁, heq⟩ := hagree hca.1 hcb.1
    obtain ⟨hclean₂, heqs⟩ := hall (fun t ht => hclean₁ t (hca.2 t ht))
      (fun t ht => hclean₁ t (hcb.2 t ht))
    refine ⟨fun t ht => hclean₂ t (hclean₁ t ht), ?_⟩
    rw [List.map_cons, List.map_cons, heqs, h₂.apply_eq h₁.valid heq]

end

end

theorem solveWithin_solves (n : Nat) : SolvesEquations (solveWithin n) := by
  induction n with
  | zero => exact fun u a b hu _ _ => .throw hu _
  | succ n ih => exact fun u a b hu ha hb => solveStep_solves ih a u b hu ha hb

/-- What solving an equation leads to, requiring it leads to unless an error is reported. -/
theorem unify_of_solves (a b : Ty) (why : Provenance) {P : Unifier → Prop}
    (h : u.Solves (solve a b) (fun _ u' => P u')) :
    u.Does (unify a b why) (fun _ u' => u'.errors = u.errors → P u') := by
  unfold unify
  refine Does.bind h fun r u₁ h₁ hp => ?_
  have failed : ∀ {u₂ : Unifier} {d : Diagnostic}, u₁.errors <+: u₂.errors →
      ¬ u₂.errors ++ [d] = u.errors := fun {u₂ d} hpre e => by
    have := (h₁.errors.trans hpre).length_le
    have := congrArg List.length e
    simp only [List.length_append, List.length_singleton] at this
    omega
  split
  · exact .pure h₁.valid fun _ => hp () rfl
  · refine .get_bind ?_
    refine (note_does h₁.valid ..).bind fun _ u₂ h₂ _ => ?_
    exact (report_does h₂.valid _).imp fun _ _ _ hr he =>
      absurd (hr.2.symm.trans he) (failed h₂.errors)
  · refine .get_bind (.get_bind ?_)
    refine (note_does h₁.valid ..).bind fun _ u₂ h₂ _ => ?_
    exact (report_does h₂.valid _).imp fun _ _ _ hr he =>
      absurd (hr.2.symm.trans he) (failed h₂.errors)

/-- An equation that is solved without an error holds, and whatever comes of it, all equations that
were solved before go on to hold. -/
theorem unify_does (hu : u.Valid) {a b : Ty} (ha : a.Below u.rowCount) (hb : b.Below u.rowCount)
    (why : Provenance) :
    u.Does (unify a b why) (fun _ u' => u'.errors = u.errors → Agree u u' a b) :=
  unify_of_solves a b why (.get_bind (solveWithin_solves _ u a b hu ha hb))

end Unifier

end RowCheck
