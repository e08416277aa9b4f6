import RowCheck.Proofs.Ownership.Conflicts

/-!
All activations are walked. Walking an expression only adds to what is known of its activation and to
the faults, and comes back to the scope where it began. So when a closure comes to be created, its
activation has been walked from its locals on, and whatever is found on that walk is reported.
-/
namespace RowCheck

/-- Whether it is told of every local what it may hold. -/
def Flow.Aligned (f : Flow) : Prop := f.holdings.size = f.locals.size

namespace Lowering

variable {s s' s'' : Lowering} {Γ : Scope} {ν : Nat → Nat} {P : Set Trace} {T U : Traces}

/-! ## What walking keeps -/

/-- A later state of the same activation, in which all is known that was known before. -/
structure Grows (s s' : Lowering) : Prop where
  flow : s.activation.flow.Extends s'.activation.flow
  holdings : ∀ i, ∀ loan ∈ s.activation.flow.holding i, loan ∈ s'.activation.flow.holding i
  aligned : s.activation.flow.Aligned → s'.activation.flow.Aligned
  faults : s.faults <+: s'.faults

theorem Grows.refl (s : Lowering) : s.Grows s := ⟨.refl _, fun _ _ => id, id, List.prefix_refl _⟩

theorem Grows.trans (h : s.Grows s') (h' : s'.Grows s'') : s.Grows s'' where
  flow := h.flow.trans h'.flow
  holdings i loan hl := h'.holdings i loan (h.holdings i loan hl)
  aligned ha := h'.aligned (h.aligned ha)
  faults := h.faults.trans h'.faults

instance : Std.Refl Grows := ⟨Grows.refl⟩

instance : IsTrans Lowering Grows := ⟨fun _ _ _ => Grows.trans⟩

/-- A later state in the same scope. -/
structure Stays (s s' : Lowering) : Prop extends Grows s s' where
  scopes : s'.activation.scopes = s.activation.scopes
  region : s'.activation.region = s.activation.region

theorem Stays.refl (s : Lowering) : s.Stays s := ⟨.refl s, rfl, rfl⟩

theorem Stays.trans (h : s.Stays s') (h' : s'.Stays s'') : s.Stays s'' :=
  ⟨h.toGrows.trans h'.toGrows, h'.scopes.trans h.scopes, h'.region.trans h.region⟩

instance : Std.Refl Stays := ⟨Stays.refl⟩

instance : IsTrans Lowering Stays := ⟨fun _ _ _ => Stays.trans⟩

section

variable {α β : Type} {m : LowerM α} {f : α → LowerM β}

theorem Obeys.grows (h : Obeys Stays m) : Obeys Grows m := fun s => (h s).toGrows

theorem Obeys.get_bind {R : Lowering → Lowering → Prop} {f : Lowering → LowerM β}
    (h : ∀ s, Obeys R (f s)) : Obeys R (MonadState.get >>= f : LowerM β) := fun s => h s s

theorem report_stays (d : Diagnostic) : Obeys Stays (report d) := by
  intro s
  have hsame := activation_report d s
  refine ⟨⟨hsame ▸ .refl _, fun i loan hl => hsame ▸ hl, fun ha => hsame ▸ ha, ?_⟩, hsame ▸ rfl,
    hsame ▸ rfl⟩
  change s.faults <+: (if _ then s else { s with faults := s.faults ++ [d] } : Lowering).faults
  split
  · exact List.prefix_refl _
  · exact List.prefix_append _ _

theorem forIn_report_stays (ds : List Diagnostic) : Obeys Stays (do
    for d in ds do
      report d) :=
  (Obeys.forIn _ _ fun _ _ => (report_stays _).bind fun _ => .pure _).bind fun _ => .pure _

theorem point_stays (event : FlowEvent) (span : Span) : Obeys Stays (point event span) := fun s =>
  ⟨⟨s.activation.flow.extends_push _, fun _ _ => id, id, List.prefix_refl _⟩, rfl, rfl⟩

theorem reportWhen_stays (c : Prop) [Decidable c] (d : Diagnostic) (a : α) : Obeys Stays (do
    if c then report d
    return a) := by
  dsimp only
  split
  · exact (report_stays d).bind fun _ => .pure a
  · exact .pure a

theorem pointUnless_stays (c : Prop) [Decidable c] (event : FlowEvent) (span : Span) (a : α) :
    Obeys Stays (do
      unless c do point event span
      return a) := by
  dsimp only
  split
  · exact .pure a
  · exact (point_stays event span).bind fun _ => .pure a

theorem reportWhen_fst (c : Prop) [Decidable c] (d : Diagnostic) (a : α) (s : Lowering) :
    ((do
      if c then report d
      return a : LowerM α) s).1 = a := by
  change ((if c then _ else _ : LowerM α) s).1 = a
  split <;> rfl

theorem pointUnless_fst (c : Prop) [Decidable c] (event : FlowEvent) (span : Span) (a : α)
    (s : Lowering) :
    ((do
      unless c do point event span
      return a : LowerM α) s).1 = a := by
  change ((if c then _ else _ : LowerM α) s).1 = a
  split <;> rfl

theorem find?_stays (name : String) : Obeys Stays (find? name) := fun s => .refl s

theorem checkEscape_stays (value : Loans) (position : Span) :
    Obeys Stays (checkEscape value position) := by
  unfold checkEscape
  exact (Obeys.forIn _ _ fun _ _ => Obeys.get_bind fun _ => reportWhen_stays _ _ _).bind
    fun _ => .pure _

theorem checkOutlives_stays (value : Loans) (region : Region) (position : Span) :
    Obeys Stays (checkOutlives value region position) := by
  unfold checkOutlives
  exact (Obeys.forIn _ _ fun _ _ => Obeys.get_bind fun _ => reportWhen_stays _ _ _).bind
    fun _ => .pure _

theorem close_stays (value : Loans) (position : Span) : Obeys Stays (close value position) :=
  (checkEscape_stays value position).bind fun _ => Obeys.get_bind fun s =>
    (Obeys.forIn _ _ fun _ _ => (report_stays _).bind fun _ => .pure _).bind fun _ =>
      forIn_report_stays s.activation.flow.conflictFaults

theorem useVar_stays (role : Role) (name : String) (t : Ty) (span : Span) :
    Obeys Stays (useVar role name t span) := by
  refine (find?_stays name).bind fun found => ?_
  cases found with
  | none => exact .pure _
  | some i => exact (point_stays _ _).bind fun _ => Obeys.get_bind fun _ => .pure _

theorem addLoan_stays (l : Loan) (s : Lowering) : s.Stays { s with activation :=
    { s.activation with flow := { s.activation.flow with loans := s.activation.flow.loans.push l } } } := by
  refine ⟨⟨⟨List.prefix_refl _, List.prefix_refl _, ?_⟩, fun _ _ => id, id, List.prefix_refl _⟩,
    rfl, rfl⟩
  change s.activation.flow.loans.toList <+: (s.activation.flow.loans.push l).toList
  rw [Array.toList_push]
  exact List.prefix_append _ _

theorem borrowVar_stays (kind : BorrowKind) (name : String) (span : Span) :
    Obeys Stays (borrowVar kind name span) := by
  refine (find?_stays name).bind fun found => ?_
  cases found with
  | none => exact .pure _
  | some i =>
    refine Obeys.get_bind fun s => Obeys.bind (fun s => ?_) fun _ =>
      (point_stays _ _).bind fun _ => .pure _
    exact addLoan_stays _ s

theorem holding_modify (f : Flow) (i n : Nat) (value : Loans) {loan : Nat} :
    loan ∈ ({ f with holdings := f.holdings.modify i (·.union value) } : Flow).holding n ↔
      loan ∈ f.holding n ∨ i = n ∧ n < f.holdings.size ∧ loan ∈ value := by
  simpa [Flow.holding, eq_comm] using @Flow.mem_foldl_modify n loan value [i] f.holdings

theorem addHolding_stays (i : Nat) (value : Loans) (s : Lowering) : s.Stays { s with activation :=
    { s.activation with flow := { s.activation.flow with
      holdings := s.activation.flow.holdings.modify i (·.union value) } } } :=
  ⟨⟨⟨List.prefix_refl _, List.prefix_refl _, List.prefix_refl _⟩,
    fun n _ hl => (holding_modify s.activation.flow i n value).2 (.inl hl),
    fun ha => Array.size_modify.trans ha, List.prefix_refl _⟩, rfl, rfl⟩

theorem assignVar_stays (name : String) (value : Loans) (span target : Span) :
    Obeys Stays (assignVar name value span target) := by
  refine (find?_stays name).bind fun found => ?_
  cases found with
  | none => exact .pure _
  | some i =>
    refine Obeys.get_bind fun s => (checkOutlives_stays _ _ _).bind fun _ =>
      Obeys.bind (fun s => ?_) fun _ => point_stays _ _
    exact addHolding_stays i value s

theorem assignThrough_stays (reference : TExpr) (held value : Loans) (span : Span) :
    Obeys Stays (assignThrough reference held value span) := by
  have hrest : Obeys Stays (do
      for loan in held.toList do
        checkOutlives value ((← get).activation.flow.lender loan).region span) :=
    (Obeys.forIn _ _ fun _ _ => Obeys.get_bind fun _ =>
      (checkOutlives_stays _ _ _).bind fun _ => .pure _).bind fun _ => .pure _
  unfold assignThrough
  dsimp only
  split
  · exact (report_stays _).bind fun _ => hrest
  · exact hrest

theorem setFrontier_stays (points : SortedSet Nat) : Obeys Stays (setFrontier points) := fun _ =>
  ⟨⟨.refl _, fun _ _ => id, id, List.prefix_refl _⟩, rfl, rfl⟩

theorem frontier_stays : Obeys Stays frontier := fun s => .refl s

theorem enterScope_grows : Obeys Grows enterScope := fun _ =>
  ⟨.refl _, fun _ _ => id, id, List.prefix_refl _⟩

theorem addLocal_grows (name : String) (t : Ty) (span : Span) (holding : Loans) (s : Lowering) :
    s.Grows { s with activation := s.activation.addLocal name t span holding } := by
  refine ⟨s.activation.extends_addLocal name t span holding, fun i loan hl => ?_, fun ha => ?_,
    List.prefix_refl _⟩
  · have hin : i < s.activation.flow.holdings.size := by
      by_contra hout
      have hnone : s.activation.flow.holdings[i]? = none :=
        Array.getElem?_eq_none_iff.2 (Nat.not_lt.1 hout)
      rw [Flow.holding, hnone] at hl
      exact SortedSet.not_mem_empty loan hl
    rw [Flow.holding, Array.getElem?_eq_getElem hin] at hl
    change loan ∈ ((s.activation.flow.holdings.push holding)[i]?).getD ∅
    rwa [Array.getElem?_push_lt hin]
  · change (s.activation.flow.holdings.push _).size = (s.activation.flow.locals.push _).size
    rw [Array.size_push, Array.size_push, ha]

theorem declare_grows (name : String) (t : Ty) (span : Span) (holding : Loans) :
    Obeys Grows (declare name t span holding) := fun s =>
  (addLocal_grows name t span holding s).trans (point_stays _ _ _).toGrows

theorem leaveScope_grows (outer : Activation) (value : Loans) (position : Span) :
    Obeys Grows (leaveScope outer value position) :=
  (checkEscape_stays value position).grows.bind fun _ _ =>
    ⟨.refl _, fun _ _ => id, id, List.prefix_refl _⟩

theorem declarePattern_grows (p : TPattern) (held : Loans) :
    Obeys Grows (declarePattern p held) :=
  (Obeys.forIn _ _ fun _ _ => (declare_grows _ _ _ _).bind fun _ => .pure _).bind fun _ => .pure _

/-- What is done in a scope of its own leaves the scopes as they are. -/
theorem inScope_stays {body : LowerM α} (value : α → Loans) (position : Span)
    (h : Obeys Grows body) :
    Obeys Stays (do
      let outer ← enterScope
      let a ← body
      leaveScope outer (value a) position
      return a) := by
  intro s
  have hgrows : Obeys Grows (do
      let outer ← enterScope
      let a ← body
      leaveScope outer (value a) position
      return a) :=
    enterScope_grows.bind fun outer => h.bind fun a => (leaveScope_grows _ _ _).bind fun _ => .pure _
  exact ⟨hgrows s, rfl, rfl⟩

/-- So does an activation of its own. -/
theorem inActivation_stays {body : LowerM Unit} (h : Obeys Grows body) :
    Obeys Stays (inActivation body) := fun s =>
  ⟨⟨.refl _, fun _ _ => id, id, (h { s with activation := .empty }).faults⟩, rfl, rfl⟩

theorem capture_stays (span : Span) (names : List String) : Obeys Stays (capture span names) := by
  induction names with
  | nil => exact .pure _
  | cons name names ih =>
    rw [capture]
    refine (find?_stays name).bind fun found => ?_
    cases found with
    | none => exact ih
    | some i =>
      exact Obeys.get_bind fun _ => (point_stays _ _).bind fun _ => Obeys.get_bind fun _ =>
        ih.bind fun _ => .pure _

theorem closure_stays (p : Binder) (free : List String) (span : Span) {body : LowerM Unit}
    (h : Obeys Grows body) : Obeys Stays (closure p free span body) := by
  refine (capture_stays span _).bind fun taken => (inActivation_stays ?_).bind fun _ => .pure _
  exact (Obeys.forIn _ _ fun _ _ => (declare_grows _ _ _ _).bind fun _ => .pure _).bind fun _ =>
    (declare_grows _ _ _ _).bind fun _ => h

end

/-- Whether walking an expression comes back to the scope where it began, and as the result of an
activation at least only adds to what is known. -/
structure Regular (e : TExpr) : Prop where
  stays : ∀ d : Demand, Obeys Stays (lower d.role e)
  grows : Obeys Grows (lower .result e)

theorem Regular.of_stays {e : TExpr} (he : ∀ i p b, e ≠ .lam i p b)
    (h : ∀ d : Demand, Obeys Stays (lower d.role e)) : Regular e := by
  refine ⟨h, ?_⟩
  rw [lower_result he]
  exact ((h .value).bind fun _ => (close_stays _ _).bind fun _ => .pure _).grows

/-- The target of a reference that is only inspected is walked as the reference is. -/
theorem Regular.reference {i : Info} {r : TExpr} (h : Regular (.deref i r)) :
    Obeys Stays (lower .read r) := by
  have hread : ∀ span (m : LowerM Loans), closing .read span m = m := closing_role .read
  intro s
  have hs := h.stays .read s
  rw [show Demand.role .read = Role.read from rfl, lower, hread] at hs
  exact hs

section

variable {i : Info} {e a b c r v : TExpr}

attribute [local simp] lower closing_role

theorem regular_var (i : Info) (x : String) : Regular (.var i x) :=
  .of_stays nofun fun d => by
    simpa using useVar_stays d.role x i.ty i.span

theorem regular_call (hf : Regular e) (ha : Regular a) : Regular (.call i e a) := by
  refine .of_stays nofun fun d => ?_
  simp only [lower, closing_role]
  exact (hf.stays .read).bind fun held => (ha.stays .value).bind fun value =>
    pointUnless_stays _ _ _ _

theorem regular_lam (p : Binder) (hb : Regular b) : Regular (.lam i p b) where
  stays d := by
    rw [lower_lam]
    exact closure_stays p _ i.span (hb.grows.bind fun _ => .pure _)
  grows := by
    rw [lower]
    exact (declare_grows _ _ _ _).bind fun _ => hb.grows

theorem regular_letIn (x : Binder) (hv : Regular v) (hb : Regular b) :
    Regular (.letIn i x v b) := by
  refine .of_stays nofun fun d => ?_
  simp only [lower, closing_role, inner_role]
  exact (hv.stays .value).bind fun held =>
    inScope_stays id _ ((declare_grows _ _ _ held).bind fun _ => (hb.stays d).grows)

theorem regular_cond (hc : Regular c) (ha : Regular a) (hb : Regular b) :
    Regular (.cond i c a b) := by
  refine .of_stays nofun fun d => ?_
  simp only [lower, closing_role, inner_role]
  exact (hc.stays .read).bind fun _ => frontier_stays.bind fun _ => (ha.stays d).bind fun _ =>
    frontier_stays.bind fun _ => (setFrontier_stays _).bind fun _ => (hb.stays d).bind fun _ =>
      frontier_stays.bind fun _ => (setFrontier_stays _).bind fun _ => .pure _

theorem regular_binary (op : BinOp) (ha : Regular a) (hb : Regular b) :
    Regular (.binary i op a b) := by
  refine .of_stays nofun fun d => ?_
  simp only [lower, closing_role]
  exact (ha.stays .read).bind fun _ => (hb.stays .read).bind fun _ => .pure _

theorem regular_unary (op : UnOp) (ha : Regular a) : Regular (.unary i op a) := by
  refine .of_stays nofun fun d => ?_
  simp only [lower, closing_role]
  exact (ha.stays .read).bind fun _ => .pure _

theorem regular_borrow (kind : BorrowKind) (ha : Regular a) : Regular (.borrow i kind a) := by
  refine .of_stays nofun fun d => ?_
  cases a with
  | var j x =>
    simp only [lower, closing_role]
    exact borrowVar_stays kind x i.span
  | deref j r =>
    simp only [lower, closing_role]
    exact ha.reference.bind fun held => reportWhen_stays _ _ _
  | _ =>
    simp only [lower, closing_role]
    exact ha.stays .value

theorem regular_deref (hr : Regular r) : Regular (.deref i r) := by
  refine .of_stays nofun fun d => ?_
  simp only [lower, closing_role]
  exact (hr.stays .read).bind fun held => reportWhen_stays _ _ _

theorem regular_assign (ha : Regular a) (hv : Regular v) : Regular (.assign i a v) := by
  refine .of_stays nofun fun d => ?_
  cases a with
  | var j x =>
    simp only [lower, closing_role]
    exact (hv.stays .value).bind fun value => (assignVar_stays x value i.span j.span).bind fun _ =>
      .pure _
  | deref j r =>
    simp only [lower, closing_role]
    exact (hv.stays .value).bind fun value => ha.reference.bind fun held =>
      (assignThrough_stays r held value i.span).bind fun _ => .pure _
  | _ =>
    simp only [lower, closing_role]
    exact (hv.stays .value).bind fun _ => .pure _

theorem lowerAll_stays {es : List TExpr} (h : ∀ e ∈ es, Regular e) : Obeys Stays (lowerAll es) := by
  induction es with
  | nil => exact .pure _
  | cons e es ih =>
    rw [List.forall_mem_cons] at h
    rw [lowerAll]
    exact (h.1.stays .value).bind fun _ => (ih h.2).bind fun _ => .pure _

theorem lowerSeq_stays {es : List TExpr} (h : ∀ e ∈ es, Regular e) (d : Demand) :
    Obeys Stays (lowerSeq d.role es) := by
  induction es with
  | nil => exact .pure _
  | cons e es ih =>
    rw [List.forall_mem_cons] at h
    cases es with
    | nil => exact h.1.stays d
    | cons f es => exact (h.1.stays .read).bind fun _ => ih h.2

/-- Whether walking an arm in its scope only adds to what is known. -/
def RegularArm (a : TArm) : Prop :=
  ∀ (d : Demand) (held : Loans) (entry : SortedSet Nat), Obeys Grows (lowerArm d.role held entry a)

theorem regularArm_unguarded (p : TPattern) (hb : Regular b) : RegularArm (.mk p none b) :=
  fun d held _ => (declarePattern_grows p held).bind fun _ => (hb.stays d).grows.bind fun _ => .pure _

theorem regularArm_guarded (p : TPattern) (hg : Regular e) (hb : Regular b) :
    RegularArm (.mk p (some e) b) := fun d held _ =>
  (declarePattern_grows p held).bind fun _ => (hg.stays .read).grows.bind fun _ =>
    frontier_stays.grows.bind fun _ => (hb.stays d).grows.bind fun _ => .pure _

theorem lowerArms_stays {arms : List TArm} (h : ∀ a ∈ arms, RegularArm a) (d : Demand)
    (held : Loans) (entry exits : SortedSet Nat) :
    Obeys Stays (lowerArms d.role held entry exits arms) := by
  induction arms generalizing entry exits with
  | nil => exact (setFrontier_stays _).bind fun _ => .pure _
  | cons a arms ih =>
    rw [List.forall_mem_cons] at h
    have hrest : ∀ value : Loans × SortedSet Nat, Obeys Stays (do
        let exits := exits.union (← frontier)
        return value.1.union (← lowerArms d.role held value.2 exits arms)) := fun value =>
      frontier_stays.bind fun _ => (ih h.2 _ _).bind fun _ => .pure _
    refine (setFrontier_stays entry).bind fun _ => ?_
    exact (inScope_stays Prod.fst a.body.span (h.1 d held entry)).bind hrest

theorem regular_matchOn {arms : List TArm} (tree : Option DecisionTree) (he : Regular e)
    (h : ∀ a ∈ arms, RegularArm a) : Regular (.matchOn i e arms tree) := by
  refine .of_stays nofun fun d => ?_
  simp only [lower, closing_role, inner_role]
  refine (he.stays (TArm.scrutineeDemand arms)).bind fun held => frontier_stays.bind fun entry =>
    (lowerArms_stays h d held entry ∅).bind fun value => ?_
  split
  · exact (setFrontier_stays _).bind fun _ => .pure _
  · exact .pure _

end

mutual

theorem regular : (e : TExpr) → Regular e
  | .lit i _ => .of_stays nofun fun d => by
    simpa only [lower, closing_role] using Obeys.pure ∅
  | .failed i => .of_stays nofun fun d => by
    simpa only [lower, closing_role] using Obeys.pure ∅
  | .var i x => regular_var i x
  | .call _ f a => regular_call (regular f) (regular a)
  | .lam _ p b => regular_lam p (regular b)
  | .letIn _ x v b => regular_letIn x (regular v) (regular b)
  | .seq _ items => .of_stays nofun fun d => by
    simp only [lower, closing_role, inner_role]
    exact lowerSeq_stays (regularList items) d
  | .cond _ c t e => regular_cond (regular c) (regular t) (regular e)
  | .matchOn _ e arms tree => regular_matchOn tree (regular e) (regularArms arms)
  | .tuple _ items => .of_stays nofun fun d => by
    simpa only [lower, closing_role] using lowerAll_stays (regularList items)
  | .construct _ _ _ args => .of_stays nofun fun d => by
    simpa only [lower, closing_role] using lowerAll_stays (regularList args)
  | .binary _ op a b => regular_binary op (regular a) (regular b)
  | .unary _ op a => regular_unary op (regular a)
  | .borrow _ kind a => regular_borrow kind (regular a)
  | .deref _ r => regular_deref (regular r)
  | .assign _ a v => regular_assign (regular a) (regular v)

theorem regularList : (es : List TExpr) → ∀ e ∈ es, Regular e
  | [] => nofun
  | e :: es => List.forall_mem_cons.2 ⟨regular e, regularList es⟩

theorem regularArm : (a : TArm) → RegularArm a
  | .mk p (some g) b => regularArm_guarded p (regular g) (regular b)
  | .mk p none b => regularArm_unguarded p (regular b)

theorem regularArms : (arms : List TArm) → ∀ a ∈ arms, RegularArm a
  | [] => nofun
  | a :: arms => List.forall_mem_cons.2 ⟨regularArm a, regularArms arms⟩

end

/-! ## What is shown -/

/-- Whether a fault is there, or one that says the same at the same place. -/
def Shows (s : Lowering) (d : Diagnostic) : Prop :=
  ∃ e ∈ s.faults, e.category = d.category ∧ e.message = d.message ∧ e.location = d.location

theorem Shows.grows {d : Diagnostic} (h : s.Shows d) (hs : s.Grows s') : s'.Shows d := by
  obtain ⟨e, he, h⟩ := h
  exact ⟨e, hs.faults.subset he, h⟩

theorem report_shows (d : Diagnostic) (s : Lowering) : (report d s).2.Shows d := by
  change Shows (if _ then s else { s with faults := s.faults ++ [d] } : Lowering) d
  split
  · rename_i h
    simp only [List.any_eq_true, Bool.and_eq_true, decide_eq_true_eq] at h
    obtain ⟨e, he, ⟨hcode, hmessage⟩, hlocation⟩ := h
    exact ⟨e, he, Category.code_injective hcode, hmessage, hlocation⟩
  · exact ⟨d, List.mem_append_right _ (List.mem_singleton_self d), rfl, rfl, rfl⟩

theorem forIn_report_shows {ds : List Diagnostic} {d : Diagnostic} (hd : d ∈ ds) (s : Lowering) :
    (forIn ds PUnit.unit (fun d _ => do
      report d
      pure (ForInStep.yield PUnit.unit)) s).2.Shows d := by
  induction ds generalizing s with
  | nil => cases hd
  | cons d' ds ih =>
    rw [List.forIn_cons]
    rcases List.mem_cons.1 hd with rfl | hd
    · have hrest : Obeys Stays (forIn ds PUnit.unit (fun d _ => do
          report d
          pure (ForInStep.yield PUnit.unit))) :=
        Obeys.forIn _ _ fun _ _ => (report_stays _).bind fun _ => .pure _
      exact (report_shows d s).grows (hrest _).toGrows
    · exact ih hd _

/-- At the end of an activation the conflicts in its flow are shown. -/
theorem close_shows {d : Diagnostic} (value : Loans) (position : Span)
    (hd : d ∈ s.activation.flow.conflictFaults) : (close value position s).2.Shows d := by
  have hsame : (checkEscape value position s).2.activation = s.activation :=
    checkEscape_same value position s
  rw [← hsame] at hd
  exact forIn_report_shows hd _

/-! ## Activations of closures -/

/-- Whether an activation has been walked from its locals on, and all is there that was found then. -/
def Covers (s : Lowering) (g : Frame) : Prop :=
  ∃ s₀, Entered g.locals s₀ ∧ (lower .result g.body s₀).2.faults <+: s.faults

/-- Whether all activations have been walked that come to be created on some traces. -/
def Visits (s : Lowering) (T : Traces) : Prop :=
  ∀ t ∈ T, ∀ locals body, .create locals body ∈ t →
    ∀ g, (Frame.of locals body).Reaches g → s.Covers g

theorem Covers.grows {g : Frame} (h : s.Covers g) (hs : s.Grows s') : s'.Covers g := by
  obtain ⟨s₀, hentered, hfaults⟩ := h
  exact ⟨s₀, hentered, hfaults.trans hs.faults⟩

theorem Visits.grows (h : s.Visits T) (hs : s.Grows s') : s'.Visits T :=
  fun t ht locals body hmem g hg => (h t ht locals body hmem g hg).grows hs

theorem Visits.followedBy (h : s.Visits T) (h' : s.Visits U) : s.Visits (T.followedBy U) := by
  intro t ht locals body hmem
  obtain ⟨a, ha, b, hb, rfl⟩ := Traces.mem_followedBy.1 ht
  rcases List.mem_append.1 hmem with hmem | hmem
  · exact h a ha locals body hmem
  · exact h' b hb locals body hmem

theorem Visits.append (h : s.Visits T) (h' : s.Visits U) : s.Visits (T ++ U) := fun t ht =>
  (List.mem_append.1 ht).elim (h t) (h' t)

theorem visits_of_no_create (h : ∀ t ∈ T, ∀ locals body, .create locals body ∉ t) : s.Visits T :=
  fun t ht locals body hmem => absurd hmem (h t ht locals body)

theorem visits_idle : s.Visits [[]] := visits_of_no_create (by simp)

theorem visits_defines (n : Nat) : s.Visits (Γ.defines n) :=
  visits_of_no_create (by simp [Scope.defines])

theorem visits_use (x : String) (moves : Bool) (span : Span) : s.Visits [Γ.use x moves span] := by
  refine visits_of_no_create ?_
  unfold Scope.use
  cases Γ.find? x <;> simp

theorem visits_assign (x : String) : s.Visits [Γ.assign x] := by
  refine visits_of_no_create ?_
  unfold Scope.assign
  cases Γ.find? x <;> simp

section

variable {α β : Type} {m : LowerM α} {f : α → LowerM β}

/-- What has been walked stays so. -/
theorem Visits.bind (h : (m s).2.Visits T) (hf : ∀ a, Obeys Grows (f a)) :
    ((m >>= f) s).2.Visits T :=
  h.grows (hf _ _)

end

/-- Whether walking an expression walks all activations that come to be created on its traces; and as
the result of an activation, that activation too. -/
structure Visited (e : TExpr) : Prop where
  walks : ∀ (d : Demand) ⦃s : Lowering⦄ ⦃Γ : Scope⦄ ⦃ν : Nat → Nat⦄ ⦃P : Set Trace⦄,
    s.activation.Tracks Γ ν P → (lower d.role e s).2.Visits (e.traces Γ d)
  completes : ∀ Γ s, Entered Γ s → ∀ g, (Frame.of Γ e).Reaches g → (lower .result e s).2.Covers g

theorem Visited.of_walks {e : TExpr} (he : ∀ i p b, e ≠ .lam i p b)
    (h : ∀ (d : Demand) ⦃s : Lowering⦄ ⦃Γ : Scope⦄ ⦃ν : Nat → Nat⦄ ⦃P : Set Trace⦄,
      s.activation.Tracks Γ ν P → (lower d.role e s).2.Visits (e.traces Γ d)) : Visited e := by
  refine ⟨h, fun Γ s hs g hg => ?_⟩
  rw [frame_of he] at hg
  cases hg with
  | refl => exact ⟨s, hs, List.prefix_refl _⟩
  | @create _ _ t locals body ht hmem hg =>
    obtain ⟨⟨ν, hstands⟩, -⟩ := hs.stands
    rw [lower_result he]
    have hvisits := (visits_defines (Γ := []) Γ.length).followedBy (h .value hstands.tracks)
    exact (hvisits t ht locals body hmem g hg).grows
      (((close_stays _ _).bind fun _ => .pure _).grows _)

section

variable {i : Info} {e a b c r v : TExpr}

/-- What is walked after an expression begins where its traces lead. -/
theorem Visited.bind {α : Type} {f : Loans → LowerM α} {d : Demand} (h : Visited e)
    (hs : s.activation.Tracks Γ ν P) (hgrows : ∀ held, Obeys Grows (f held))
    (hf : ∀ held (s' : Lowering), s'.activation.Tracks Γ ν ((e.traces Γ d).after P) →
      (f held s').2.Visits U) :
    ((lower d.role e >>= f) s).2.Visits ((e.traces Γ d).followedBy U) :=
  ((h.walks d hs).bind hgrows).followedBy (hf _ _ ((lowers e).walks d hs).tracks)

/-- What follows may have no traces. -/
theorem Visited.ends {α : Type} {f : Loans → LowerM α} {d : Demand} (h : Visited e)
    (hs : s.activation.Tracks Γ ν P) (hgrows : ∀ held, Obeys Grows (f held)) :
    ((lower d.role e >>= f) s).2.Visits (e.traces Γ d) :=
  (h.walks d hs).bind hgrows

attribute [local simp] lower closing_role TExpr.traces

theorem visited_call (hf : Visited e) (ha : Visited a) : Visited (.call i e a) := by
  refine .of_walks nofun fun d s Γ ν P hs => ?_
  simp only [lower, closing_role, TExpr.traces]
  exact hf.bind (d := .read) hs
    (fun held => ((regular a).stays .value).grows.bind fun value => (pointUnless_stays _ _ _ _).grows)
    fun held s' hs' => ha.ends (d := .value) hs' fun value => (pointUnless_stays _ _ _ _).grows

/-- A closure is walked with the locals it takes, and the faults found so far. -/
theorem closure_visits (hs : s.activation.Tracks Γ ν P) {m : LowerM Unit} {p : Binder}
    {body : TExpr} (hm : ∀ locals s, Entered ((p.name, p.ty) :: locals) s →
      ∀ g, (Frame.of ((p.name, p.ty) :: locals) body).Reaches g → (m s).2.Covers g) (span : Span) :
    (closure p (body.free []) span m s).2.Visits [Γ.closure p body span] := by
  let names := ((SortedSet.ofList (body.free [])).filter (fun name => name != p.name)).toList
  let taken := capture span names s
  have hlocals : taken.1.1.map (fun x => (x.name, x.ty)) = (Γ.captures names).map (·.2) :=
    (capture_walking span names hs).2
  have hstart : Entered [] { taken.2 with activation := .empty } := .start taken.2.faults
  obtain ⟨hentered, -⟩ := hstart.declareLocals taken.1.1
  rw [List.append_nil, hlocals] at hentered
  intro t ht locals body' hmem g hg
  obtain rfl := List.mem_singleton.1 ht
  have hcreate : TraceEvent.create locals body' =
      .create ((p.name, p.ty) :: ((Γ.captures names).map (·.2)).reverse) body := by
    rcases List.mem_append.1 hmem with hmem | hmem
    · obtain ⟨_, -, h⟩ := List.mem_map.1 hmem
      cases h
    · exact List.mem_singleton.1 hmem
  obtain ⟨rfl, rfl⟩ := TraceEvent.create.inj hcreate
  exact hm _ _ (hentered.declare p.name p.ty p.span) g hg

theorem visited_lam (p : Binder) (hb : Visited b) : Visited (.lam i p b) where
  walks d s Γ ν P hs := by
    simp only [lower_lam, TExpr.traces]
    exact closure_visits hs (fun locals => hb.completes _) i.span
  completes Γ s hs := by
    rw [lower, Frame.of]
    exact hb.completes _ _ (hs.declare p.name p.ty p.span)

theorem visited_letIn (x : Binder) (hv : Visited v) (hb : Visited b) :
    Visited (.letIn i x v b) := by
  refine .of_walks nofun fun d s Γ ν P hs => ?_
  simp only [lower, closing_role, inner_role, TExpr.traces]
  have hbody : ∀ held, Obeys Grows (do
      declare x.name x.ty x.span held
      lower d.role b) := fun held =>
    (declare_grows _ _ _ _).bind fun _ => ((regular b).stays d).grows
  refine hv.bind (d := .value) hs
    (fun held => (inScope_stays id _ (hbody held)).grows) fun held s' hs' => ?_
  have hin := hs'.rests (enterScope_quiet s').activation
  have htracks := (declare_declares hin x.name x.ty x.span held).tracks
  refine (visits_defines 1).followedBy ?_
  exact (hb.walks d htracks).grows (((leaveScope_grows _ _ _).bind fun _ => .pure _) _)

theorem visited_cond (hc : Visited c) (ha : Visited a) (hb : Visited b) :
    Visited (.cond i c a b) := by
  refine .of_walks nofun fun d s Γ ν P hs => ?_
  simp only [lower, closing_role, inner_role, TExpr.traces]
  have hjoin : ∀ (exit : SortedSet Nat) (held : Loans), Obeys Grows (do
      setFrontier ((← frontier).union exit)
      return held) := fun exit held =>
    (frontier_stays.bind fun _ => (setFrontier_stays _).bind fun _ => .pure _).grows
  have hsecond : ∀ (entry exit : SortedSet Nat) (held : Loans), Obeys Grows (do
      setFrontier entry
      let held := held.union (← lower d.role b)
      setFrontier ((← frontier).union exit)
      return held) := fun entry exit held =>
    (setFrontier_stays _).grows.bind fun _ => ((regular b).stays d).grows.bind fun _ => hjoin exit _
  refine hc.bind (d := .read) hs (fun _ => frontier_stays.grows.bind fun entry =>
    ((regular a).stays d).grows.bind fun held => frontier_stays.grows.bind fun exit =>
      hsecond entry exit held) fun _ s' hs' => ?_
  have hback := Walks.back ((lowers a).walks d hs') hs'
  exact ((ha.walks d hs').grows (hsecond _ _ _ _)).append ((hb.walks d hback).grows (hjoin _ _ _))

theorem visited_binary (op : BinOp) (ha : Visited a) (hb : Visited b) :
    Visited (.binary i op a b) := by
  refine .of_walks nofun fun d s Γ ν P hs => ?_
  simp only [lower, closing_role, TExpr.traces]
  exact ha.bind (d := .read) hs (fun _ => ((regular b).stays .read).grows.bind fun _ => .pure _)
    fun _ s' hs' => hb.ends (d := .read) hs' fun _ => .pure _

theorem visited_unary (op : UnOp) (ha : Visited a) : Visited (.unary i op a) := by
  refine .of_walks nofun fun d s Γ ν P hs => ?_
  simp only [lower, closing_role, TExpr.traces]
  exact ha.ends (d := .read) hs fun _ => .pure _

/-- A dereference that is only inspected is walked as the reference is. -/
theorem Visited.reference (h : Visited (.deref i r)) (hs : s.activation.Tracks Γ ν P) :
    (lower .read r s).2.Visits (r.traces Γ .read) := by
  have hread : ∀ span (m : LowerM Loans), closing .read span m = m := closing_role .read
  have hvisits := h.walks .read hs
  rw [show Demand.role .read = Role.read from rfl, lower, hread, TExpr.traces] at hvisits
  exact hvisits

theorem visited_borrow (kind : BorrowKind) (ha : Visited a) : Visited (.borrow i kind a) := by
  refine .of_walks nofun fun d s Γ ν P hs => ?_
  cases a with
  | var j x =>
    simp only [TExpr.traces]
    exact visits_use x false i.span
  | deref j r =>
    simp only [lower, closing_role, TExpr.traces]
    exact (ha.reference hs).bind fun held => (reportWhen_stays _ _ _).grows
  | _ =>
    simp only [lower, closing_role, TExpr.traces]
    exact ha.walks .value hs

theorem visited_deref (hr : Visited r) : Visited (.deref i r) := by
  refine .of_walks nofun fun d s Γ ν P hs => ?_
  simp only [lower, closing_role, TExpr.traces]
  exact hr.ends (d := .read) hs fun held => (reportWhen_stays _ _ _).grows

theorem visited_assign (ha : Visited a) (hv : Visited v) : Visited (.assign i a v) := by
  refine .of_walks nofun fun d s Γ ν P hs => ?_
  cases a with
  | var j x =>
    simp only [lower, closing_role, TExpr.traces]
    exact hv.bind (d := .value) hs (fun value => ((assignVar_stays _ _ _ _).bind fun _ => .pure _).grows)
      fun _ _ _ => visits_assign x
  | deref j r =>
    have hrest : ∀ held value, Obeys Grows (do
        assignThrough r held value i.span
        return (∅ : Loans)) := fun held value =>
      ((assignThrough_stays r held value i.span).bind fun _ => .pure _).grows
    simp only [lower, closing_role, TExpr.traces]
    exact hv.bind (d := .value) hs
      (fun value => (regular (.deref j r)).reference.grows.bind fun held => hrest held value)
      fun value s' hs' => (ha.reference hs').bind fun held => hrest held value
  | _ =>
    simp only [lower, closing_role, TExpr.traces]
    exact hv.ends (d := .value) hs fun _ => .pure _

theorem lowerAll_visits {es : List TExpr} (h : ∀ e ∈ es, Visited e)
    (hs : s.activation.Tracks Γ ν P) : (lowerAll es s).2.Visits (TExpr.tracesAll Γ es) := by
  induction es generalizing s P with
  | nil => exact visits_idle
  | cons e es ih =>
    rw [List.forall_mem_cons] at h
    rw [lowerAll, TExpr.tracesAll]
    exact h.1.bind (d := .value) hs
      (fun held => ((lowerAll_stays fun e _ => regular e).bind fun _ => .pure _).grows)
      fun held s' hs' => (ih h.2 hs').bind fun _ => .pure _

theorem lowerSeq_visits {es : List TExpr} (h : ∀ e ∈ es, Visited e) (d : Demand)
    (hs : s.activation.Tracks Γ ν P) :
    (lowerSeq d.role es s).2.Visits (TExpr.tracesSeq Γ d es) := by
  induction es generalizing s P with
  | nil => exact visits_idle
  | cons e es ih =>
    rw [List.forall_mem_cons] at h
    cases es with
    | nil => exact h.1.walks d hs
    | cons f es =>
      rw [lowerSeq, TExpr.tracesSeq]
      exact h.1.bind (d := .read) hs (fun _ => (lowerSeq_stays (fun e _ => regular e) d).grows)
        fun _ s' hs' => ih h.2 hs'

/-- Whether walking an arm walks all activations that come to be created there, whether the arm is
selected or passed over. -/
def VisitedArm (a : TArm) : Prop :=
  ∀ (d : Demand) (held : Loans) ⦃s : Lowering⦄ ⦃Γ : Scope⦄ ⦃ν : Nat → Nat⦄ ⦃P : Set Trace⦄,
    s.activation.Tracks Γ ν P →
      (arm d.role held s.activation.frontier a s).2.Visits (TExpr.tracesArm Γ d a) ∧
      (arm d.role held s.activation.frontier a s).2.Visits (TExpr.tracesPassed Γ a)

theorem visitedArm_unguarded (p : TPattern) (hb : Visited b) : VisitedArm (.mk p none b) := by
  intro d held s Γ ν P hs
  have hin := hs.rests (enterScope_quiet s).activation
  obtain ⟨ν', hdecl⟩ := declarePattern_declares hin p held
  refine ⟨(visits_defines _).followedBy ((hb.walks d hdecl.tracks).grows ?_), visits_idle⟩
  exact ((leaveScope_grows _ _ _).bind fun _ => .pure _) _

theorem visitedArm_guarded (p : TPattern) (hg : Visited e) (hb : Visited b) :
    VisitedArm (.mk p (some e) b) := by
  intro d held s Γ ν P hs
  have hin := hs.rests (enterScope_quiet s).activation
  obtain ⟨ν', hdecl⟩ := declarePattern_declares hin p held
  have hguard := ((lowers e).walks .read hdecl.tracks).tracks
  let guarded := lower .read e (declarePattern p held s.enterScope.2).2
  let final := lower d.role b guarded.2
  have hleave : final.2.Grows (leaveScope s.activation final.1 b.span final.2).2 :=
    leaveScope_grows _ _ _ _
  have hbody : guarded.2.Grows final.2 := ((regular b).stays d guarded.2).toGrows
  have htried := (hg.walks .read hdecl.tracks).grows (hbody.trans hleave)
  have hselected := (hb.walks d hguard).grows hleave
  refine ⟨(visits_defines _).followedBy (htried.followedBy hselected), ?_⟩
  exact visits_idle.append ((visits_defines _).followedBy htried)

theorem lowerArms_visits {arms : List TArm} (h : ∀ a ∈ arms, VisitedArm a) (d : Demand)
    (held : Loans) {entry exits : SortedSet Nat} (hs : (s.goTo entry).activation.Tracks Γ ν P) :
    (lowerArms d.role held entry exits arms s).2.Visits (TExpr.tracesArms Γ d arms) := by
  induction arms generalizing s entry exits P with
  | nil => exact visits_of_no_create (by simp [TExpr.tracesArms])
  | cons a arms ih =>
    rw [List.forall_mem_cons] at h
    obtain ⟨hselected, hpassed⟩ := h.1 d held hs
    have hnext := (lowersArm a d held hs).next
    have hrest := lowerArms_stays (fun a (_ : a ∈ arms) => regularArm a) d held
    exact (hselected.grows (hrest _ _ _).toGrows).append
      ((hpassed.grows (hrest _ _ _).toGrows).followedBy (ih h.2 hnext))

theorem visited_matchOn {arms : List TArm} (tree : Option DecisionTree) (he : Visited e)
    (h : ∀ a ∈ arms, VisitedArm a) : Visited (.matchOn i e arms tree) := by
  refine .of_walks nofun fun d s Γ ν P hs => ?_
  simp only [lower, closing_role, inner_role, TExpr.traces]
  have hends : ∀ (value : Loans) (entry : SortedSet Nat), Obeys Grows (do
      if arms.isEmpty then setFrontier entry
      return value) := by
    intro value entry
    split
    · exact ((setFrontier_stays _).bind fun _ => .pure _).grows
    · exact .pure _
  refine he.bind (d := TArm.scrutineeDemand arms) hs (fun held =>
    frontier_stays.grows.bind fun entry => (lowerArms_stays (fun a _ => regularArm a) _ _ _ _).grows.bind
      fun value => hends value entry) fun held s' hs' => ?_
  cases arms with
  | nil => exact visits_idle
  | cons a arms => exact lowerArms_visits h d held hs'

end

mutual

theorem visited : (e : TExpr) → Visited e
  | .lit i _ => .of_walks nofun fun d s Γ ν P hs => by
    simpa only [TExpr.traces] using visits_idle
  | .failed i => .of_walks nofun fun d s Γ ν P hs => by
    simpa only [TExpr.traces] using visits_idle
  | .var i x => .of_walks nofun fun d s Γ ν P hs => by
    simpa only [TExpr.traces] using visits_use x _ i.span
  | .call _ f a => visited_call (visited f) (visited a)
  | .lam _ p b => visited_lam p (visited b)
  | .letIn _ x v b => visited_letIn x (visited v) (visited b)
  | .seq _ items => .of_walks nofun fun d s Γ ν P hs => by
    simp only [lower, closing_role, inner_role, TExpr.traces]
    exact lowerSeq_visits (visitedList items) d hs
  | .cond _ c t e => visited_cond (visited c) (visited t) (visited e)
  | .matchOn _ e arms tree => visited_matchOn tree (visited e) (visitedArms arms)
  | .tuple _ items => .of_walks nofun fun d s Γ ν P hs => by
    simpa only [lower, closing_role, TExpr.traces] using lowerAll_visits (visitedList items) hs
  | .construct _ _ _ args => .of_walks nofun fun d s Γ ν P hs => by
    simpa only [lower, closing_role, TExpr.traces] using lowerAll_visits (visitedList args) hs
  | .binary _ op a b => visited_binary op (visited a) (visited b)
  | .unary _ op a => visited_unary op (visited a)
  | .borrow _ kind a => visited_borrow kind (visited a)
  | .deref _ r => visited_deref (visited r)
  | .assign _ a v => visited_assign (visited a) (visited v)

theorem visitedList : (es : List TExpr) → ∀ e ∈ es, Visited e
  | [] => nofun
  | e :: es => List.forall_mem_cons.2 ⟨visited e, visitedList es⟩

theorem visitedArm : (a : TArm) → VisitedArm a
  | .mk p (some g) b => visitedArm_guarded p (visited g) (visited b)
  | .mk p none b => visitedArm_unguarded p (visited b)

theorem visitedArms : (arms : List TArm) → ∀ a ∈ arms, VisitedArm a
  | [] => nofun
  | a :: arms => List.forall_mem_cons.2 ⟨visitedArm a, visitedArms arms⟩

end

end Lowering

theorem Frame.of_body_ne_lam (Γ : Scope) (e : TExpr) : ∀ i p b, (of Γ e).body ≠ .lam i p b := by
  induction Γ, e using of.induct with
  | case1 Γ i p b ih => exact ih
  | case2 Γ e he => exact Lowering.frame_of he Γ ▸ he

theorem Frame.Reaches.body_ne_lam {Γ : Scope} {e : TExpr} {g : Frame} (h : (of Γ e).Reaches g) :
    ∀ i p b, g.body ≠ .lam i p b := by
  generalize hf : of Γ e = f at h
  induction h generalizing Γ e with
  | refl f => exact hf ▸ of_body_ne_lam Γ e
  | create _ _ _ ih => exact ih rfl

/-- Every activation of a function that comes to be created is walked from its locals on, and all that
is found on that walk and at its end is reported. -/
theorem TFunction.exists_entered (f : TFunction) {g : Frame} (hg : (Frame.of [] f.body).Reaches g) :
    ∃ s, Lowering.Entered g.locals s ∧
      let walked := Lowering.lower .value g.body s
      (Lowering.close walked.1 g.body.span walked.2).2.faults ⊆ f.checkOwnership.2 := by
  obtain ⟨s, hs, hfaults⟩ := (Lowering.visited f.body).completes [] _ (.start []) g hg
  rw [Lowering.lower_result hg.body_ne_lam] at hfaults
  exact ⟨s, hs, hfaults.subset⟩

end RowCheck
