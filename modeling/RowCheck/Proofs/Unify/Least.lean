import Mathlib.Order.Bounds.Basic
import RowCheck.Proofs.Unify.Inclusions

/-!
The least solution of effect inclusions. Labels flow only where every solution has them, and where they
have all flowed the rows are a solution themselves. So an inclusion is refused if and only if nothing
satisfies all of them, and otherwise the rows get the labels that they must have and no others.
-/
namespace RowCheck

namespace Row

/-- The labels of a row where its tail stands for some labels. -/
def valueAt (σ : RowVar → Set String) (r : Row) : Set String :=
  {x | x ∈ r.labels ∨ ∃ v, r.tail = some v ∧ x ∈ σ v}

/-- Whether a row is made of labels and of one of some variables. -/
def Over (vs : List RowVar) (r : Row) : Prop := ∀ v, r.tail = some v → v ∈ vs

instance (vs : List RowVar) (r : Row) : Decidable (r.Over vs) :=
  inferInstanceAs (Decidable (∀ v ∈ r.tail, v ∈ vs))

variable {σ τ : RowVar → Set String} {r : Row} {vs : List RowVar}

theorem valueAt_closed (h : r.tail = none) : r.valueAt σ = {x | x ∈ r.labels} := by
  simp [valueAt, h]

theorem valueAt_open {v : RowVar} (h : r.tail = some v) :
    r.valueAt σ = {x | x ∈ r.labels ∨ x ∈ σ v} := by
  simp [valueAt, h]

theorem valueAt_ofVar (v : RowVar) : (ofVar v).valueAt σ = σ v := by
  ext x
  simp [valueAt, ofVar]

theorem valueAt_extend (r : Row) (l : SortedSet String) :
    (r.extend l).valueAt σ = {x | x ∈ l ∨ x ∈ r.valueAt σ} := by
  ext x
  simp [valueAt, or_assoc]

theorem labels_subset_valueAt (r : Row) : {x | x ∈ r.labels} ⊆ r.valueAt σ := fun _ => .inl

/-- Only what the tail of a row stands for matters. -/
theorem valueAt_congr (h : ∀ v, r.tail = some v → σ v = τ v) : r.valueAt σ = r.valueAt τ := by
  cases ht : r.tail with
  | none => rw [valueAt_closed ht, valueAt_closed ht]
  | some v => rw [valueAt_open ht, valueAt_open ht, h v ht]

theorem Over.below {n : Nat} (h : r.Over vs) (hvs : ∀ v ∈ vs, v < n) : r.Below n :=
  fun v hv => hvs v (h v hv)

theorem Over.mono {ws : List RowVar} (h : r.Over vs) (hvs : vs ⊆ ws) : r.Over ws :=
  fun v hv => hvs (h v hv)

end Row

namespace Inclusion

/-- Whether an assignment of labels to row variables satisfies an inclusion. -/
def HoldsAt (σ : RowVar → Set String) (i : Inclusion) : Prop :=
  i.row.valueAt σ ⊆ i.within.valueAt σ

/-- Whether the rows of an inclusion are made of labels and of some variables. -/
structure Over (vs : List RowVar) (i : Inclusion) : Prop where
  row : i.row.Over vs
  within : i.within.Over vs

end Inclusion

/-- The assignments of labels to row variables that satisfy some inclusions. -/
def solutions (is : List Inclusion) : Set (RowVar → Set String) := {σ | ∀ i ∈ is, i.HoldsAt σ}

namespace Unifier

variable {u u' : Unifier} {σ τ : RowVar → Set String} {vs : List RowVar} {is : List Inclusion}

/-! ## Assignments that a state accepts -/

/-- Whether an assignment gives bound row variables the labels of what they are bound to. -/
def Agrees (u : Unifier) (τ : RowVar → Set String) : Prop :=
  ∀ v b, u.substitution.row? v = some b → τ v = b.valueAt τ

/-- A row has the labels of what it stands for. -/
theorem Agrees.valueAt_findRow (h : u.Agrees τ) (hu : u.Valid) (r : Row) :
    (u.findRow r).valueAt τ = r.valueAt τ := by
  have hvar : ∀ v, (u.substitution.findRow (.ofVar v)).valueAt τ = τ v := by
    intro v
    induction v using hu.acyclic.rowInduction with
    | _ v ih =>
      cases hv : u.substitution.row? v with
      | none => rw [Substitution.findRow_unbound rfl hv, Row.valueAt_ofVar]
      | some b =>
        rw [hu.acyclic.findRow_ofVar hv, h v b hv]
        cases ht : b.tail with
        | none => rw [Substitution.findRow_closed ht]
        | some w =>
          rw [Substitution.findRow_eq_extend ht, Row.valueAt_extend, ih b w hv ht,
            Row.valueAt_open ht]
  cases ht : r.tail with
  | none => rw [findRow_closed ht]
  | some v =>
    rw [findRow, Substitution.findRow_eq_extend ht, Row.valueAt_extend, hvar v, Row.valueAt_open ht]

/-- Whether what some variables are assigned goes with a state: the variables that it has made in
addition can be assigned labels as well. -/
def Accepts (u : Unifier) (vs : List RowVar) (σ : RowVar → Set String) : Prop :=
  ∃ τ, (∀ v ∈ vs, τ v = σ v) ∧ u.Agrees τ

theorem Accepts.of_row? (h : u.Accepts vs σ)
    (hs : ∀ v, u'.substitution.row? v = u.substitution.row? v) : u'.Accepts vs σ := by
  obtain ⟨τ, hτ, hagree⟩ := h
  exact ⟨τ, hτ, fun v b hb => hagree v b (hs v ▸ hb)⟩

/-- A row has no labels but those that it is assigned. -/
theorem Accepts.labels_subset (h : u.Accepts vs σ) (hu : u.Valid) {r : Row} (hr : r.Over vs) :
    {x | x ∈ (u.findRow r).labels} ⊆ r.valueAt σ := by
  obtain ⟨τ, hτ, hagree⟩ := h
  rw [← Row.valueAt_congr fun v hv => hτ v (hr v hv), ← hagree.valueAt_findRow hu]
  exact Row.labels_subset_valueAt _

/-- A new row variable may be assigned any labels, for no row has it as its tail. -/
theorem Accepts.freshRowVar (h : u.Accepts vs σ) (hu : u.Valid) (hvs : ∀ v ∈ vs, v < u.rowCount) :
    (freshRowVar u).2.Accepts (u.rowCount :: vs) σ := by
  obtain ⟨τ, hτ, hagree⟩ := h
  refine ⟨Function.update τ u.rowCount (σ u.rowCount), ?_, fun v b hb => ?_⟩
  · simp only [List.forall_mem_cons, Function.update_self, true_and]
    intro v hv
    rw [Function.update_of_ne (hvs v hv).ne, hτ v hv]
  · replace hb := (Substitution.row?_freshRow u.substitution v).symm.trans hb
    rw [Function.update_of_ne (Substitution.lt_size_of_row? hb).ne, hagree v b hb]
    refine Row.valueAt_congr fun w hw => (Function.update_of_ne ?_ _ _).symm
    exact (hu.substitution.rowsBelow v b hb w hw).ne

/-- Where an assignment satisfies an inclusion, letting its labels flow gives the including row none
that it is not assigned, so there is nothing to refuse. -/
theorem includeLabels_accepts (hu : u.Valid) (hvs : ∀ v ∈ vs, v < u.rowCount) {i : Inclusion}
    (hi : i.Over vs) (hσ : i.HoldsAt σ) (h : u.Accepts vs σ) :
    u.Does (includeLabels i.row i.within) (fun missing u' =>
      missing.isEmpty = true ∧ u'.Accepts vs σ) := by
  obtain ⟨τ, hτ, hagree⟩ := h
  have hvalue : ∀ {r : Row}, r.Over vs → (u.findRow r).valueAt τ = r.valueAt σ := fun hr =>
    (hagree.valueAt_findRow hu _).trans (Row.valueAt_congr fun v hv => hτ v (hr v hv))
  have hsub : {x | x ∈ (u.findRow i.row).labels} ⊆ (u.findRow i.within).valueAt τ := by
    rw [hvalue hi.within]
    exact (Row.labels_subset_valueAt _).trans ((hvalue hi.row).subset.trans hσ)
  unfold includeLabels
  refine .get_bind (.get_bind ?_)
  dsimp only
  split
  · exact .pure hu ⟨rfl, τ, hτ, hagree⟩
  · rename_i hmissing
    split
    · rename_i v hv
      have hvlt := hu.substitution.findRow_below (hi.within.below hvs) v hv
      refine (freshRowVar_does hu).bind fun rest u₁ h₁ hrest => ?_
      obtain ⟨rfl, hlt, hunbound, hrows, -⟩ := hrest
      refine (bindRowVar_does h₁.valid (v := v) ?_ ?_ ?_).bind fun _ u₂ h₂ e₂ => ?_
      · rw [hrows]
        exact hu.acyclic.row?_tail_findRow hv
      · exact hvlt.trans_le h₁.rows
      · rintro x hx
        cases hx
        exact ⟨hunbound, Nat.ne_of_gt hvlt, hlt⟩
      -- the new tail is assigned all that the old one is, the missing labels included
      refine .pure h₂.valid ⟨rfl, Function.update τ u.rowCount (τ v), fun w hw => ?_,
        fun w b hb => ?_⟩
      · rw [Function.update_of_ne (hvs w hw).ne, hτ w hw]
      · rw [e₂, Substitution.row?_bindRow, hrows] at hb
        split at hb
        · rename_i hvw
          cases hb
          rw [← hvw, Function.update_of_ne hvlt.ne, Row.valueAt_open rfl, Function.update_self]
          refine Set.Subset.antisymm (fun x => .inr) ?_
          rintro x (hx | hx)
          · obtain ⟨hx, hn⟩ := SortedSet.mem_diff.1 hx
            exact ((Row.valueAt_open hv).subset (hsub hx)).resolve_left hn
          · exact hx
        · rw [Function.update_of_ne (Substitution.lt_size_of_row? hb).ne, hagree w b hb]
          refine Row.valueAt_congr fun x hx => (Function.update_of_ne ?_ _ _).symm
          exact (hu.substitution.rowsBelow w b hb x hx).ne
    · rename_i hclosed
      refine absurd (SortedSet.isEmpty_diff.2 fun x hx => ?_) hmissing
      exact (Row.valueAt_closed hclosed).subset (hsub hx)

/-- Whether an assignment satisfies some inclusions between rows over some variables. -/
def Meant (vs : List RowVar) (σ : RowVar → Set String) (is : List Inclusion) : Prop :=
  ∀ i ∈ is, i.Over vs ∧ i.HoldsAt σ

theorem flowOnce_accepts (hu : u.Valid) (hvs : ∀ v ∈ vs, v < u.rowCount) (his : Meant vs σ is)
    (h : u.Accepts vs σ) :
    u.Does (flowOnce is) (fun r u' => r.1 = is ∧ SameInclusions u u' ∧ u'.Accepts vs σ) := by
  induction is generalizing u with
  | nil => exact .pure hu ⟨rfl, refl_of SameInclusions u, h⟩
  | cons i is ih =>
    obtain ⟨hi, his⟩ := List.forall_mem_cons.1 his
    unfold flowOnce
    refine .get_bind (((includeLabels_changesRows _ _).leavesInclusions.does
      (includeLabels_accepts hu hvs hi.1 hi.2 h)).bind fun missing u₁ h₁ hflow => ?_)
    obtain ⟨hsame, hempty, haccepts⟩ := hflow
    dsimp only
    rw [if_pos hempty]
    refine .get_bind ((ih h₁.valid (fun v hv => (hvs v hv).trans_le h₁.rows) his haccepts).bind
      fun r u₂ h₂ hrest => ?_)
    obtain ⟨rfl, hsame', haccepts'⟩ := hrest
    exact .pure h₂.valid ⟨by rw [if_pos hempty], trans_of SameInclusions hsame hsame', haccepts'⟩

theorem flow_accepts (hu : u.Valid) (hvs : ∀ v ∈ vs, v < u.rowCount) (n : Nat)
    (his : Meant vs σ is) (h : u.Accepts vs σ) :
    u.Does (flow n is) (fun r u' => r = is ∧ SameInclusions u u' ∧ u'.Accepts vs σ) := by
  induction n generalizing u with
  | zero => exact .pure hu ⟨rfl, refl_of SameInclusions u, h⟩
  | succ n ih =>
    unfold flow
    refine (flowOnce_accepts hu hvs his h).bind fun r u₁ h₁ honce => ?_
    obtain ⟨hleft, hsame, haccepts⟩ := honce
    dsimp only
    rw [hleft]
    split
    · exact (ih h₁.valid (fun v hv => (hvs v hv).trans_le h₁.rows) haccepts).imp
        fun r u₂ _ hrest => ⟨hrest.1, trans_of SameInclusions hsame hrest.2.1, hrest.2.2⟩
    · exact .pure h₁.valid ⟨rfl, hsame, haccepts⟩

/-! ## The end of a pass -/

theorem includeRow_accepts (hu : u.Valid) (hvs : ∀ v ∈ vs, v < u.rowCount) {i : Inclusion}
    (hi : i.Over vs) (hσ : i.HoldsAt σ) (h : u.Accepts vs σ) :
    u.Does (includeRow i.row i.within i.why) (fun _ u' =>
      u'.mismatches = u.mismatches ∧ u'.Accepts vs σ) := by
  unfold includeRow
  refine ((includeLabels_changesRows _ _).leavesInclusions.does
    (includeLabels_accepts hu hvs hi hσ h)).bind fun missing u₁ h₁ hflow => ?_
  obtain ⟨hsame, hempty, haccepts⟩ := hflow
  rw [if_pos hempty]
  refine .get_bind ?_
  split
  · exact .pure h₁.valid ⟨hsame.mismatches, haccepts⟩
  · refine .get_bind ?_
    split
    · exact .pure h₁.valid ⟨hsame.mismatches, haccepts⟩
    · refine (defer_does h₁.valid (c := .inclusion i.row i.within i.why)
        ⟨(hi.row.below hvs).mono h₁.rows, (hi.within.below hvs).mono h₁.rows⟩).imp
        fun _ u₂ _ h₂ => ?_
      subst h₂
      exact ⟨hsame.mismatches, haccepts.of_row? fun _ => rfl⟩

/-- Identifying tails lets no label flow. -/
theorem identifyTails_labels (hu : u.Valid) {is : List Inclusion} (his : ∀ i ∈ is, u.Made i) :
    u.Does (forIn is PUnit.unit fun i _ => do
      identifyTail i
      pure (ForInStep.yield PUnit.unit)) (fun _ u' =>
        ∀ r, (u'.findRow r).labels = (u.findRow r).labels) := by
  induction is generalizing u with
  | nil => exact .pure hu fun _ => rfl
  | cons i is ih =>
    obtain ⟨hi, his⟩ := List.forall_mem_cons.1 his
    rw [List.forIn_cons]
    have hstep : u.Does (do
        identifyTail i
        pure (ForInStep.yield PUnit.unit)) (fun r u' => r = ForInStep.yield PUnit.unit ∧
          ∀ r, (u'.findRow r).labels = (u.findRow r).labels) :=
      (identifyTail_does hu hi).bind fun _ u₁ h₁ h => .pure h₁.valid ⟨rfl, h.1⟩
    refine hstep.bind fun r u₁ h₁ hident => ?_
    obtain ⟨rfl, hlabels⟩ := hident
    exact (ih h₁.valid fun j hj => (his j hj).grows h₁.toGrows).imp
      fun _ u₂ _ hrest r => (hrest r).trans (hlabels r)

/-- What waits is given back as it is where only inclusions wait. -/
theorem takePending_inclusions (is : List Inclusion) (u : Unifier) :
    takePending (is.map fun i => .inclusion i.row i.within i.why) u = (is, u) := by
  induction is with
  | nil => rfl
  | cons i is ih =>
    show (do return i :: (← takePending _) : UnifyM (List Inclusion)) u = _
    show (i :: (takePending _ u).1, (takePending _ u).2) = _
    rw [ih]

/-- The end of a pass refuses nothing that can be satisfied, and gives a row no label but those that
it must have. -/
theorem finish_accepts (hu : u.Valid) (hvs : ∀ v ∈ vs, v < u.rowCount)
    (hp : u.pending = is.map fun i => .inclusion i.row i.within i.why) (his : Meant vs σ is)
    (h : u.Accepts vs σ) :
    (finish u).2.mismatches = u.mismatches ∧
      ∀ r : Row, r.Over vs → {x | x ∈ ((finish u).2.findRow r).labels} ⊆ r.valueAt σ := by
  have h₀ : u.Grows { u with pending := [] } :=
    hu.grows_of_eq rfl (by simp) (List.prefix_refl _)
  have hdoes : Does { u with pending := [] } (do
      let left ← flow (flowBound (← get) is) is
      for i in left do
        identifyTail i) (fun _ u' => u'.mismatches = u.mismatches ∧
          ∀ r : Row, r.Over vs → {x | x ∈ (u'.findRow r).labels} ⊆ r.valueAt σ) := by
    refine .get_bind ((flow_accepts h₀.valid hvs _ his (h.of_row? fun _ => rfl)).bind
      fun left u₁ h₁ hflow => ?_)
    obtain ⟨rfl, hsame, haccepts⟩ := hflow
    have hmade : ∀ i ∈ left, u₁.Made i := fun i hi =>
      ⟨((his i hi).1.row.below hvs).mono h₁.rows, ((his i hi).1.within.below hvs).mono h₁.rows⟩
    refine ((Moves.forIn (fun i => (identifyTail_changesRows i).leavesInclusions) _).does
      (identifyTails_labels h₁.valid hmade)).imp fun _ u₂ _ hident => ?_
    refine ⟨hident.1.mismatches.trans hsame.mismatches, fun r hr => ?_⟩
    rw [hident.2 r]
    exact haccepts.labels_subset h₁.valid hr
  have hfinish : finish u = (do
      let left ← flow (flowBound (← get) is) is
      for i in left do
        identifyTail i : UnifyM Unit) { u with pending := [] } := by
    show (do
      let inclusions ← takePending u.pending
      let inclusions ← flow (flowBound (← get) inclusions) inclusions
      for i in inclusions do
        identifyTail i : UnifyM Unit) { u with pending := [] } = _
    rw [hp]
    show (fun r : List Inclusion × Unifier => (do
      let left ← flow (flowBound (← get) r.1) r.1
      for i in left do
        identifyTail i : UnifyM Unit) r.2) (takePending _ _) = _
    rw [takePending_inclusions]
  rw [hfinish]
  exact hdoes.2

/-! ## What rows come to -/

/-- The labels that rows come to. -/
def labelsOf (u : Unifier) (v : RowVar) : Set String := {x | x ∈ (u.findRow (.ofVar v)).labels}

/-- A row has its own labels and those that its tail comes to. -/
theorem valueAt_labelsOf (u : Unifier) (r : Row) :
    r.valueAt u.labelsOf = {x | x ∈ (u.findRow r).labels} := by
  ext x
  cases ht : r.tail with
  | none => rw [Row.valueAt_closed ht, findRow_closed ht]
  | some v =>
    rw [Row.valueAt_open ht, findRow, Substitution.findRow_eq_extend ht]
    exact (Row.mem_extend ..).symm

/-- What rows come to is one of the assignments that a state accepts. -/
theorem Valid.agrees_labelsOf (hu : u.Valid) : u.Agrees u.labelsOf := by
  intro v b hb
  rw [valueAt_labelsOf, labelsOf, findRow, hu.acyclic.findRow_ofVar hb]
  rfl

/-- Where an inclusion holds in a state, what rows come to satisfies it. -/
theorem Honours.holdsAt {i : Inclusion} (h : u.Honours i.row i.within) : i.HoldsAt u.labelsOf := by
  rw [Inclusion.HoldsAt, valueAt_labelsOf, valueAt_labelsOf]
  exact h.flows

/-- States in which only inclusions have been asked for, over row variables that were handed out for
them, in whatever order. -/
inductive Asked : Unifier → List RowVar → List Inclusion → Prop
  | new {u : Unifier} : u.Reachable → u.pending = [] → u.mismatches = [] → Asked u [] []
  | handOut {u : Unifier} {vs : List RowVar} {is : List Inclusion} :
    Asked u vs is → Asked (freshRowVar u).2 ((freshRowVar u).1 :: vs) is
  | ask {u : Unifier} {vs : List RowVar} {is : List Inclusion} {i : Inclusion} :
    Asked u vs is → i.Over vs → Asked (includeRow i.row i.within i.why u).2 vs (is ++ [i])

namespace Asked

theorem valid (h : Asked u vs is) : u.Valid ∧ (∀ v ∈ vs, v < u.rowCount) ∧ ∀ i ∈ is, i.Over vs := by
  induction h with
  | new hu => exact ⟨hu.valid, by simp, by simp⟩
  | @handOut u vs is _ ih =>
    obtain ⟨hu, hvs, his⟩ := ih
    obtain ⟨h₁, -, hlt, -⟩ := freshRowVar_does hu
    exact ⟨h₁.valid, List.forall_mem_cons.2 ⟨hlt, fun v hv => (hvs v hv).trans_le h₁.rows⟩,
      fun i hi => ⟨(his i hi).row.mono (by simp), (his i hi).within.mono (by simp)⟩⟩
  | @ask u vs is i _ hi ih =>
    obtain ⟨hu, hvs, his⟩ := ih
    obtain ⟨h₁, -⟩ := includeRow_does hu (hi.row.below hvs) (hi.within.below hvs) i.why
    refine ⟨h₁.valid, fun v hv => (hvs v hv).trans_le h₁.rows, ?_⟩
    simpa [or_imp, forall_and] using And.intro his hi

/-- Each inclusion that was asked for holds, or waits, or is refused. -/
theorem accounts (h : Asked u vs is) :
    ∃ held waiting refused, u.Accounts (is.map fun i => (0, i)) held waiting refused := by
  induction h with
  | new hu hp hm => exact ⟨[], [], [], .nil, by simp, hp, by simp, hm ▸ .nil⟩
  | handOut h ih =>
    obtain ⟨held, waiting, refused, hacc⟩ := ih
    exact ⟨held, waiting, refused, hacc.same h.valid.1 (freshRowVar_does h.valid.1).1.toGrows
      (freshRowVar_changesRows.leavesInclusions.moves _)⟩
  | ask h hi ih =>
    obtain ⟨held, waiting, refused, hacc⟩ := ih
    rw [List.map_append]
    exact hacc.includeRow h.valid.1 (hi.row.below h.valid.2.1) (hi.within.below h.valid.2.1) 0

/-- Only inclusions that were asked for wait. -/
theorem pending (h : Asked u vs is) :
    ∃ waiting ⊆ is, u.pending = waiting.map fun i => .inclusion i.row i.within i.why := by
  obtain ⟨held, waiting, refused, hacc⟩ := h.accounts
  refine ⟨unmarked waiting, fun i hi => ?_, by rw [hacc.waits, List.map_map]; rfl⟩
  obtain ⟨j, hj, rfl⟩ := List.mem_map.1 hi
  have hmem := hacc.perm.mem_iff.2 (List.mem_append_left _ (List.mem_append_right _ hj))
  obtain ⟨k, hk, rfl⟩ := List.mem_map.1 hmem
  exact hk

/-- Where the inclusions can be satisfied, none is refused, and no row is bound to what a solution
does not give it. -/
theorem accepts (h : Asked u vs is) (hσ : σ ∈ solutions is) :
    u.mismatches = [] ∧ u.Accepts vs σ := by
  induction h with
  | new hu _ hm => exact ⟨hm, _, by simp, hu.valid.agrees_labelsOf⟩
  | handOut h ih =>
    obtain ⟨hm, haccepts⟩ := ih hσ
    exact ⟨(freshRowVar_changesRows.leavesInclusions.moves _).mismatches.trans hm,
      haccepts.freshRowVar h.valid.1 h.valid.2.1⟩
  | ask h hi ih =>
    obtain ⟨hm, haccepts⟩ := ih fun j hj => hσ j (List.mem_append_left _ hj)
    have hdoes := (includeRow_accepts h.valid.1 h.valid.2.1 hi (hσ _ (by simp)) haccepts).2
    exact ⟨hdoes.1.trans hm, hdoes.2⟩

/-- Where the inclusions can be satisfied, the end of the pass refuses none either, and gives a row
only what every solution gives it. -/
theorem finish_le (h : Asked u vs is) (hσ : σ ∈ solutions is) :
    (finish u).2.mismatches = [] ∧
      ∀ r : Row, r.Over vs → {x | x ∈ ((finish u).2.findRow r).labels} ⊆ r.valueAt σ := by
  obtain ⟨hu, hvs, his⟩ := h.valid
  obtain ⟨waiting, hsub, hp⟩ := h.pending
  obtain ⟨hm, haccepts⟩ := h.accepts hσ
  have hend := finish_accepts hu hvs hp (fun i hi => ⟨his i (hsub hi), hσ i (hsub hi)⟩) haccepts
  exact ⟨hend.1.trans hm, hend.2⟩

/-- Where none is refused, what rows come to satisfies all of the inclusions. -/
theorem labelsOf_mem (h : Asked u vs is) (hm : (finish u).2.mismatches = []) :
    (finish u).2.labelsOf ∈ solutions is := by
  obtain ⟨held, waiting, refused, hacc⟩ := h.accounts
  obtain ⟨held, refused, hend⟩ := hacc.finish h.valid.1
  obtain rfl : refused = [] := List.forall₂_nil_right_iff.1 (hm ▸ hend.reported)
  intro i hi
  have hperm := hend.perm
  rw [List.append_nil, List.append_nil] at hperm
  exact (hend.holds _ (hperm.mem_iff.1 (List.mem_map_of_mem hi))).holdsAt

end Asked

end Unifier

/-- What the row variables are assigned, and nothing for all others. -/
def limitedTo (vs : List RowVar) (σ : RowVar → Set String) (v : RowVar) : Set String :=
  {x | v ∈ vs ∧ x ∈ σ v}

theorem Row.Over.valueAt_limitedTo {vs : List RowVar} {r : Row} (h : r.Over vs)
    (σ : RowVar → Set String) : r.valueAt (limitedTo vs σ) = r.valueAt σ := by
  refine valueAt_congr fun v hv => ?_
  ext x
  simp [limitedTo, h v hv]

/-- A row variable that no row flows into has no labels in the least solution. -/
theorem eq_empty_of_isLeast_solutions {is : List Inclusion} {σ : RowVar → Set String}
    (h : IsLeast (solutions is) σ) {v : RowVar} (hv : ∀ i ∈ is, i.within.tail ≠ some v) :
    σ v = ∅ := by
  have hmem : Function.update σ v ∅ ∈ solutions is := by
    intro i hi x hx
    rw [Row.valueAt_congr (τ := σ) fun w hw =>
      Function.update_of_ne (fun e : w = v => hv i hi (e ▸ hw)) _ _]
    refine h.1 i hi ?_
    rcases hx with hx | ⟨w, hw, hx⟩
    · exact .inl hx
    · refine .inr ⟨w, hw, ?_⟩
      by_cases he : w = v
      · subst he
        simp at hx
      · rwa [Function.update_of_ne he] at hx
  have hle := h.2 hmem v
  rw [Function.update_self] at hle
  exact Set.subset_empty_iff.1 hle

/-- An effect mismatch is reported by the end of a pass if and only if no assignment of labels to the
row variables satisfies all of the inclusions. Otherwise the labels of a row are those that it has in
the least such assignment, so none comes into a row that no row had to be included in. -/
theorem finish_isLeast {u : Unifier} {vs : List RowVar} {is : List Inclusion}
    (h : Unifier.Asked u vs is) :
    ((∃ d ∈ (Unifier.finish u).2.errors, d.category = .effectMismatch) ↔ solutions is = ∅) ∧
    ((∀ d ∈ (Unifier.finish u).2.errors, d.category ≠ .effectMismatch) →
      (∃ least, IsLeast (solutions is) least ∧ ∀ r : Row, r.Over vs →
        {x | x ∈ ((Unifier.finish u).2.findRow r).labels} = r.valueAt least) ∧
      ∀ v ∈ vs, (∀ i ∈ is, i.within.tail ≠ some v) →
        ((Unifier.finish u).2.findRow (.ofVar v)).labels = ∅) := by
  have hnone : (Unifier.finish u).2.mismatches = [] ↔
      ∀ d ∈ (Unifier.finish u).2.errors, d.category ≠ .effectMismatch := by
    simp [Unifier.mismatches, List.filter_eq_nil_iff]
  have hiff : (Unifier.finish u).2.mismatches = [] ↔ (solutions is).Nonempty :=
    ⟨fun hm => ⟨_, h.labelsOf_mem hm⟩, fun hne => hne.elim fun _ hσ => (h.finish_le hσ).1⟩
  refine ⟨?_, fun hno => ?_⟩
  · rw [← Set.not_nonempty_iff_eq_empty, ← hiff, hnone]
    push Not
    rfl
  · have hover := h.valid.2.2
    have hvalue : ∀ r : Row, r.Over vs →
        {x | x ∈ ((Unifier.finish u).2.findRow r).labels} =
          r.valueAt (limitedTo vs (Unifier.finish u).2.labelsOf) := fun r hr => by
      rw [hr.valueAt_limitedTo, Unifier.valueAt_labelsOf]
    have hleast : IsLeast (solutions is) (limitedTo vs (Unifier.finish u).2.labelsOf) := by
      refine ⟨fun i hi => ?_, fun σ hσ v x hx => ?_⟩
      · rw [Inclusion.HoldsAt, (hover i hi).row.valueAt_limitedTo,
          (hover i hi).within.valueAt_limitedTo]
        exact h.labelsOf_mem (hnone.2 hno) i hi
      · have hv : (Row.ofVar v).Over vs := fun w hw => by
          cases hw
          exact hx.1
        exact (Row.valueAt_ofVar v).subset ((h.finish_le hσ).2 _ hv hx.2)
    refine ⟨⟨_, hleast, hvalue⟩, fun v hv hin => SortedSet.ext_mem fun x => ?_⟩
    have hempty := hvalue (.ofVar v) fun w hw => by
      cases hw
      exact hv
    rw [Row.valueAt_ofVar, eq_empty_of_isLeast_solutions hleast hin] at hempty
    simpa using Set.ext_iff.1 hempty x

/-- Two rows that include each other, where one has a label in addition and the other may have one,
and an unknown row that is included in one of them. -/
def circle : List Inclusion :=
  let why := .of .synthetic .performedEffect
  [⟨⟨.ofList ["io"], some 0⟩, .ofVar 1, why⟩, ⟨.ofVar 1, ⟨.ofList ["log"], some 0⟩, why⟩,
    ⟨.ofVar 2, .ofVar 0, why⟩, ⟨⟨.ofList ["net"], some 1⟩, .closed ["io", "net"], why⟩]

/-- A state in which the inclusions of the circle have been asked for. -/
def circleAsked : Unifier :=
  circle.foldl (fun u i => (Unifier.includeRow i.row i.within i.why u).2)
    (Unifier.freshRowVar (Unifier.freshRowVar (Unifier.freshRowVar .empty).2).2).2

/-- Both rows of the circle get the label, and the unknown row gets none. -/
theorem circle_isLeast :
    (solutions circle).Nonempty ∧
    (∃ least, IsLeast (solutions circle) least ∧ least 0 = {"io"} ∧ least 1 = {"io"}) ∧
    ((Unifier.finish circleAsked).2.findRow (.ofVar 2)).labels = ∅ := by
  have h : Unifier.Asked circleAsked [2, 1, 0] circle :=
    (((((((Unifier.Asked.new .new rfl rfl).handOut).handOut).handOut).ask
      ⟨by decide, by decide⟩).ask ⟨by decide, by decide⟩).ask ⟨by decide, by decide⟩).ask
      ⟨by decide, by decide⟩
  have hno : ∀ d ∈ (Unifier.finish circleAsked).2.errors, d.category ≠ .effectMismatch := by
    decide +kernel
  obtain ⟨⟨least, hleast, hvalue⟩, hempty⟩ := (finish_isLeast h).2 hno
  have hrow : ∀ v ∈ [0, 1], least v = {"io"} := by
    intro v hv
    have hlabels : ((Unifier.finish circleAsked).2.findRow (.ofVar v)).labels = .ofList ["io"] := by
      revert v
      decide +kernel
    have hover : (Row.ofVar v).Over [2, 1, 0] := fun w hw => by
      cases hw
      exact List.mem_cons_of_mem _ (List.mem_reverse.2 hv)
    rw [← Row.valueAt_ofVar (σ := least), ← hvalue _ hover, hlabels]
    ext x
    simp
  exact ⟨⟨least, hleast.1⟩, ⟨least, hleast, hrow 0 (by simp), hrow 1 (by simp)⟩,
    hempty 2 (by simp) (by decide)⟩

end RowCheck
