import RowCheck.Proofs.Ownership.Arrives

/-!
Walking expressions along their runs. Walking an expression goes on with each of its runs, as long as the
types of calls, and of what is read through references, show what they contain.
-/
namespace RowCheck

namespace Lowering

variable {s s' s₀ : Lowering} {env : Names} {ν ν' : List Nat} {S : List Step} {t : List Nat}
  {L L' : Loans} {R P : Set Pointer} {o : Run}

variable (holds : Ty → Prop)

/-- Whether walking an expression goes on with each of its runs. -/
def TakesRuns (e : TExpr) : Prop :=
  ∀ (d : Demand) ⦃s : Lowering⦄ ⦃env : Names⦄ ⦃ν : List Nat⦄ ⦃S : List Step⦄ ⦃t : List Nat⦄,
    s.Arrives env ν S t → ∀ o ∈ e.runs holds env d (Memory.after [] S),
      Takes (lower d.role e s) env ν S o

variable {holds} {i : Info} {e a b c r v : TExpr} {F : Memory → Set Pointer → Set Run}

/-- What is walked behind an expression goes on from where its runs have led. -/
theorem TakesRuns.bind (h : TakesRuns holds e) (hs : s.Arrives env ν S t) {d : Demand}
    {f : Loans → LowerM Loans}
    (hf : ∀ L s' ν' t' S' P, s.Stays s' → ν <+: ν' → s'.Arrives env ν' S' t' →
      s'.activation.flow.Carries ν' L P → ∀ o ∈ F (Memory.after [] S') P,
        Takes (f L s') env ν' S' o) :
    ∀ o ∈ Run.next (Memory.after [] S) (e.runs holds env d (Memory.after [] S)) F,
      Takes ((lower d.role e >>= f) s) env ν S o := by
  rintro o ⟨p, hp, q, hq, rfl⟩
  refine (h d hs p hp).next q fun ν' t' hν harrives hvalue => ?_
  rw [← Memory.after_append] at hq
  exact hf _ _ ν' t' _ _ ((regular e).stays d s) hν harrives hvalue q hq

/-- The value of an expression may be of no use. -/
theorem TakesRuns.drops (h : TakesRuns holds e) (hs : s.Arrives env ν S t) {d : Demand}
    {f : Loans → LowerM Loans} (hstays : ∀ L, Obeys Stays (f L)) (hsteady : ∀ L, Steady (f L)) :
    ∀ o ∈ Run.drop '' e.runs holds env d (Memory.after [] S),
      Takes ((lower d.role e >>= f) s) env ν S o := by
  rintro _ ⟨o, ho, rfl⟩
  let walked := lower d.role e s
  refine ((h d hs o ho).drop ∅).stays (hstays walked.1 walked.2) (fun i hi => ?_) fun _ hl =>
    absurd hl (SortedSet.not_mem_empty _)
  exact (hsteady walked.1 walked.2).frontier.symm ▸ hi

/-! ## Expressions -/

theorem takesRuns_lit (i : Info) (value : Literal) : TakesRuns holds (.lit i value) := by
  rintro d s env ν S t hs o ho
  simp only [TExpr.runs] at ho
  obtain rfl := ho
  simp only [lower, closing_role]
  exact hs.idle ∅

theorem takesRuns_failed (i : Info) : TakesRuns holds (.failed i) := by
  rintro d s env ν S t hs o ho
  simp only [TExpr.runs] at ho
  obtain rfl := ho
  simp only [lower, closing_role]
  exact hs.idle ∅

theorem takesRuns_var (i : Info) (x : String) : TakesRuns holds (.var i x) := by
  rintro d s env ν S t hs o ho
  simp only [TExpr.runs] at ho
  obtain rfl := ho
  simpa only [lower, closing_role] using useVar_takes hs d.role x i.ty i.span

theorem takesRuns_call (hshows : TExpr.ShowsReferences holds (.call i e a)) (hf : TakesRuns holds e)
    (ha : TakesRuns holds a) : TakesRuns holds (.call i e a) := by
  intro d s env ν S t hs
  simp only [lower, closing_role, TExpr.runs]
  refine hf.bind (d := .read) hs fun held s₁ ν₁ t₁ S₁ P _ _ hs₁ hP => ?_
  refine ha.bind (d := .value) hs₁ fun value s₂ ν₂ t₂ S₂ Q hstays hν hs₂ hQ => ?_
  rintro o rfl
  have hboth := (hP.gains (hstays.gains hν)).union hQ
  have hresult : s₂.activation.flow.Carries ν₂ (if i.ty.carriesLoans then held.union value else ∅)
      {p ∈ P ∪ Q | holds i.ty} := by
    rintro p ⟨hp, hholds⟩
    rw [if_pos (hshows hholds)]
    exact hboth p hp
  exact consume_takes hs₂ hboth hresult i.span

theorem takesRuns_lam (i : Info) (p : Binder) (b : TExpr) : TakesRuns holds (.lam i p b) := by
  rintro d s env ν S t hs o ho
  simp only [TExpr.runs] at ho
  obtain rfl := ho
  rw [lower_lam]
  -- The activation of the closure leaves this one as it is.
  obtain ⟨ν', t', hν, harrives, hvalue⟩ := capture_takes hs i.span
    ((SortedSet.ofList (b.free [])).filter (fun name => name != p.name)).toList
  exact ⟨ν', t', hν, ⟨harrives.stores, harrives.executes, harrives.ends⟩, hvalue⟩

theorem takesRuns_letIn (i : Info) (x : Binder) (hv : TakesRuns holds v) (hb : TakesRuns holds b) :
    TakesRuns holds (.letIn i x v b) := by
  intro d s env ν S t hs
  simp only [lower, closing_role, inner_role, TExpr.runs]
  refine hv.bind (d := .value) hs fun held s₁ ν₁ t₁ S₁ P _ _ hs₁ hP => ?_
  rintro o ⟨_, rfl, q, hq, rfl⟩
  have hin := enterScope_arrives hs₁
  have hdeclared := declare_arrives hin
    (hP.gains ((enterScope_grows s₁).gains (List.prefix_refl ν₁))) x.name x.ty x.span
  rw [← Memory.after_append] at hq
  exact (hb d hdeclared q hq).leave hs₁ (List.prefix_append _ _)
    (leaveScope_grows _ _ _ _) rfl fun i hi => (leaveScope_steady _ _ _ _).frontier.symm ▸ hi

theorem takesRuns_cond (i : Info) (hc : TakesRuns holds c) (ha : TakesRuns holds a)
    (hb : TakesRuns holds b) : TakesRuns holds (.cond i c a b) := by
  intro d s env ν S t hs
  simp only [lower, closing_role, inner_role, TExpr.runs]
  refine hc.bind (d := .read) hs fun _ s₁ ν₁ t₁ S₁ P _ _ hs₁ _ => ?_
  let first := lower d.role a s₁
  let back := (setFrontier s₁.activation.frontier first.2).2
  let second := lower d.role b back
  let joined := (setFrontier (second.2.activation.frontier.union first.2.activation.frontier)
    second.2).2
  have hback : first.2.Stays back := setFrontier_stays _ _
  have hsecond : back.Stays second.2 := (regular b).stays d back
  have hjoined : second.2.Stays joined := setFrontier_stays _ _
  rintro o (ho | ho)
  · exact (ha d hs₁ o ho).stays (hback.trans (hsecond.trans hjoined))
      (fun i hi => SortedSet.mem_union.2 (.inr hi)) fun _ hl => SortedSet.mem_union.2 (.inl hl)
  · have hagain : back.Arrives env ν₁ S₁ t₁ :=
      hs₁.stays (((regular a).stays d s₁).trans hback) fun _ => id
    exact (hb d hagain o ho).stays hjoined
      (fun i hi => SortedSet.mem_union.2 (.inl hi)) fun _ hl => SortedSet.mem_union.2 (.inr hl)

theorem takesRuns_binary (i : Info) (op : BinOp) (ha : TakesRuns holds a) (hb : TakesRuns holds b) :
    TakesRuns holds (.binary i op a b) := by
  intro d s env ν S t hs
  simp only [lower, closing_role, TExpr.runs]
  exact ha.bind (d := .read) hs fun _ s₁ ν₁ t₁ S₁ P _ _ hs₁ _ =>
    hb.drops (d := .read) hs₁ (fun _ => .pure _) fun _ => .pure _

theorem takesRuns_unary (i : Info) (op : UnOp) (ha : TakesRuns holds a) :
    TakesRuns holds (.unary i op a) := by
  intro d s env ν S t hs
  simp only [lower, closing_role, TExpr.runs]
  exact ha.drops (d := .read) hs (fun _ => .pure _) fun _ => .pure _

/-- A pointer that is derived from another one has the loans of that one. -/
theorem takesRuns_borrow (i : Info) (kind : BorrowKind) (ha : TakesRuns holds a)
    (hr : ∀ j r, a = .deref j r → TakesRuns holds r) : TakesRuns holds (.borrow i kind a) := by
  intro d s env ν S t hs
  cases a with
  | var j x =>
    simp only [lower, closing_role, TExpr.runs]
    rintro o rfl
    exact borrowVar_takes hs kind x i.span
  | deref j r =>
    simp only [lower, closing_role, TExpr.runs]
    exact fun o ho => (hr j r rfl .read hs o ho).reportWhen
  | _ =>
    simp only [lower, closing_role, TExpr.runs]
    exact ha .value hs

theorem takesRuns_deref (hshows : TExpr.ShowsReferences holds (.deref i r)) (hr : TakesRuns holds r) :
    TakesRuns holds (.deref i r) := by
  intro d s env ν S t hs
  simp only [lower, closing_role, TExpr.runs]
  refine hr.bind (d := .read) hs fun held s₁ ν₁ t₁ S₁ P _ _ hs₁ hP => ?_
  rintro o rfl
  have hresult : s₁.activation.flow.Carries ν₁ (if isRef i.ty then held else ∅)
      {p ∈ P | holds i.ty} := by
    rintro p ⟨hp, hholds⟩
    rw [if_pos (hshows hholds)]
    exact hP p hp
  exact (hs₁.takes hresult).reportWhen

theorem takesRuns_assign (hv : TakesRuns holds v) (hr : ∀ j r, a = .deref j r → TakesRuns holds r) :
    TakesRuns holds (.assign i a v) := by
  intro d s env ν S t hs
  cases a with
  | var j x =>
    simp only [lower, closing_role, TExpr.runs]
    refine hv.bind (d := .value) hs fun value s₁ ν₁ t₁ S₁ P _ _ hs₁ hP => ?_
    rintro o rfl
    exact assignVar_takes hs₁ hP x i.span j.span
  | deref j r =>
    simp only [lower, closing_role, TExpr.runs]
    refine hv.bind (d := .value) hs fun value s₁ ν₁ t₁ S₁ P _ _ hs₁ _ => ?_
    exact (hr j r rfl).drops (d := .read) hs₁
      (fun held => (assignThrough_stays r held value i.span).bind fun _ => .pure _)
      fun held => (assignThrough_steady r held value i.span).bind fun _ => .pure _
  | _ =>
    simp only [lower, closing_role, TExpr.runs]
    exact hv.drops (d := .value) hs (fun _ => .pure _) fun _ => .pure _

theorem lowerAll_takes {es : List TExpr} (h : ∀ e ∈ es, TakesRuns holds e)
    (hs : s.Arrives env ν S t) : ∀ o ∈ TExpr.runsAll holds env (Memory.after [] S) es,
      Takes (lowerAll es s) env ν S o := by
  induction es generalizing s ν S t with
  | nil =>
    rintro o rfl
    exact hs.idle ∅
  | cons e es ih =>
    rw [List.forall_mem_cons] at h
    rw [lowerAll, TExpr.runsAll]
    refine h.1.bind (d := .value) hs fun held s₁ ν₁ t₁ S₁ P _ _ hs₁ hP => ?_
    rintro o ⟨q, hq, _, rfl, rfl⟩
    have hrest := (ih h.2 hs₁ q hq).union hP (lowerAll_stays (fun e _ => regular e) s₁).toGrows
    rw [List.append_nil]
    exact hrest

theorem lowerSeq_takes {es : List TExpr} (h : ∀ e ∈ es, TakesRuns holds e) (d : Demand)
    (hs : s.Arrives env ν S t) : ∀ o ∈ TExpr.runsSeq holds env d (Memory.after [] S) es,
      Takes (lowerSeq d.role es s) env ν S o := by
  induction es generalizing s ν S t with
  | nil =>
    rintro o rfl
    exact hs.idle ∅
  | cons e es ih =>
    rw [List.forall_mem_cons] at h
    cases es with
    | nil => exact h.1 d hs
    | cons f es =>
      rw [lowerSeq, TExpr.runsSeq]
      exact h.1.bind (d := .read) hs fun _ s₁ ν₁ t₁ S₁ P _ _ hs₁ _ => ih h.2 hs₁

/-! ## Arms -/

variable (holds) in
/-- Whether walking an arm goes on with each of its runs, to the points behind it if it is selected, and
to those from which the next arm is entered if it is passed over. -/
def TakesArm (a : TArm) : Prop :=
  ∀ (d : Demand) ⦃s : Lowering⦄ ⦃env : Names⦄ ⦃ν : List Nat⦄ ⦃S : List Step⦄ ⦃t : List Nat⦄ ⦃L : Loans⦄
    ⦃P : Set Pointer⦄, s.Arrives env ν S t → s.activation.flow.Carries ν L P →
      let walked := arm d.role L s.activation.frontier a s
      (∀ o ∈ TExpr.runsArm holds env d P (Memory.after [] S) a,
        Takes (walked.1.1, walked.2) env ν S o) ∧
      ∀ o ∈ TExpr.runsPassed holds env P (Memory.after [] S) a,
        Takes (∅, (setFrontier walked.1.2 walked.2).2) env ν S o

theorem takesArm_unguarded (p : TPattern) (hb : TakesRuns holds b) :
    TakesArm holds (.mk p none b) := by
  intro d s env ν S t L P hs hP
  obtain ⟨ν₁, t₁, hν, hdeclared⟩ := declarePattern_arrives (enterScope_arrives hs)
    (hP.gains ((enterScope_grows s).gains (List.prefix_refl ν))) p
  constructor
  · rintro o ⟨_, rfl, q, hq, rfl⟩
    rw [← Memory.after_append] at hq
    exact (hb d hdeclared q hq).leave hs hν (leaveScope_grows _ _ _ _) rfl fun i hi =>
      (leaveScope_steady _ _ _ _).frontier.symm ▸ hi
  · rintro o rfl
    refine Arrives.idle (hs.stays ((arm_stays d L _ (.mk p none b) s).trans (setFrontier_stays _ _))
      fun _ => id) ∅

theorem takesArm_guarded (p : TPattern) (hg : TakesRuns holds e) (hb : TakesRuns holds b) :
    TakesArm holds (.mk p (some e) b) := by
  intro d s env ν S t L P hs hP
  obtain ⟨ν₁, t₁, hν, hdeclared⟩ := declarePattern_arrives (enterScope_arrives hs)
    (hP.gains ((enterScope_grows s).gains (List.prefix_refl ν))) p
  constructor
  · rintro o ⟨_, rfl, _, ⟨g, hfirst, f, hsecond, rfl⟩, rfl⟩
    rw [← Memory.after_append] at hfirst
    have htried := (hg .read hdeclared g hfirst).next f fun ν₂ t₂ _ harrives _ =>
      hb d harrives f (by rwa [Memory.after_append, Memory.after_append])
    exact htried.leave hs hν (leaveScope_grows _ _ _ _) rfl fun i hi =>
      (leaveScope_steady _ _ _ _).frontier.symm ▸ hi
  · rintro o (rfl | ⟨_, rfl, _, ⟨g, hg', rfl⟩, rfl⟩)
    · exact Arrives.idle (hs.stays ((arm_stays d L _ (.mk p (some e) b) s).trans
        (setFrontier_stays _ _)) fun i hi => SortedSet.mem_union.2 (.inl hi)) ∅
    · rw [← Memory.after_append] at hg'
      have htried := (hg .read hdeclared g hg').drop ∅
      exact htried.leave hs hν ((((regular b).stays d _).toGrows.trans (leaveScope_grows _ _ _ _)).trans
        (setFrontier_stays _ _).toGrows) rfl fun i hi => SortedSet.mem_union.2 (.inr hi)

theorem lowerArms_frontier (d : Demand) (L : Loans) (entry exits : SortedSet Nat) (arms : List TArm) :
    ∀ i ∈ exits, i ∈ (lowerArms d.role L entry exits arms s).2.activation.frontier := by
  induction arms generalizing s entry exits with
  | nil => exact fun _ => id
  | cons a arms ih => exact fun i hi => ih _ _ i (SortedSet.mem_union.2 (.inl hi))

theorem lowerArms_takes {arms : List TArm} (h : ∀ a ∈ arms, TakesArm holds a) (d : Demand)
    (entry exits : SortedSet Nat) (hs : (setFrontier entry s).2.Arrives env ν S t)
    (hP : s.activation.flow.Carries ν L P) :
    ∀ o ∈ TExpr.runsArms holds env d P (Memory.after [] S) arms,
      Takes (lowerArms d.role L entry exits arms s) env ν S o := by
  induction arms generalizing s ν S t entry exits with
  | nil => nofun
  | cons a arms ih =>
    rw [List.forall_mem_cons] at h
    obtain ⟨hselected, hpassed⟩ := h.1 d hs hP
    let walked := arm d.role L entry a (setFrontier entry s).2
    let left := exits.union walked.2.activation.frontier
    have hwalked : s.Stays walked.2 := (setFrontier_stays entry s).trans (arm_stays d L entry a _)
    have hrest := lowerArms_stays (fun a (_ : a ∈ arms) => regularArm a) d L walked.1.2 left walked.2
    rintro o (ho | ⟨p, hp, q, hq, rfl⟩)
    · exact (hselected o ho).stays hrest (fun i hi => lowerArms_frontier d L walked.1.2 left arms i
        (SortedSet.mem_union.2 (.inr hi))) fun _ hl => SortedSet.mem_union.2 (.inl hl)
    · have hrun := (hpassed p hp).next q fun ν₁ t₁ hν harrives _ =>
        ih h.2 walked.1.2 left harrives (hP.gains (hwalked.toGrows.gains hν)) q
          (by rwa [Memory.after_append])
      exact hrun.stays (.refl _) (fun _ => id) fun _ hl => SortedSet.mem_union.2 (.inr hl)

theorem takesRuns_matchOn {arms : List TArm} (i : Info) (tree : Option DecisionTree)
    (he : TakesRuns holds e) (h : ∀ a ∈ arms, TakesArm holds a) :
    TakesRuns holds (.matchOn i e arms tree) := by
  intro d s env ν S t hs
  simp only [lower, closing_role, inner_role, TExpr.runs]
  refine he.bind (d := TArm.scrutineeDemand arms) hs fun held s₁ ν₁ t₁ S₁ P _ _ hs₁ hP => ?_
  cases arms with
  | nil =>
    rintro o rfl
    exact Arrives.idle (hs₁.stays ((setFrontier_stays ∅ s₁).trans (setFrontier_stays _ _))
      fun _ => id) ∅
  | cons a arms =>
    exact lowerArms_takes h d _ ∅ (hs₁.stays (setFrontier_stays _ s₁) fun _ => id) hP

mutual

/-- Walking an expression goes on with each of its runs, if the types of its nodes show which of them
contain references. -/
theorem takesRuns : (e : TExpr) → (∀ n ∈ e.nodes, n.ShowsReferences holds) →
    TakesRuns holds e ∧ ∀ j r, e = .deref j r → TakesRuns holds r
  | .lit i value, _ => ⟨takesRuns_lit i value, nofun⟩
  | .failed i, _ => ⟨takesRuns_failed i, nofun⟩
  | .var i x, _ => ⟨takesRuns_var i x, nofun⟩
  | .call i f a, h => by
    simp only [TExpr.nodes, List.forall_mem_cons, List.forall_mem_append] at h
    exact ⟨takesRuns_call h.1 (takesRuns f h.2.1).1 (takesRuns a h.2.2).1, nofun⟩
  | .lam i p b, _ => ⟨takesRuns_lam i p b, nofun⟩
  | .letIn i x v b, h => by
    simp only [TExpr.nodes, List.forall_mem_cons, List.forall_mem_append] at h
    exact ⟨takesRuns_letIn i x (takesRuns v h.2.1).1 (takesRuns b h.2.2).1, nofun⟩
  | .seq i items, h => by
    simp only [TExpr.nodes, List.forall_mem_cons] at h
    exact ⟨fun d s env ν S t hs => by
      simpa only [lower, closing_role, inner_role, TExpr.runs] using
        lowerSeq_takes (takesRunsList items h.2) d hs, nofun⟩
  | .cond i c t e, h => by
    simp only [TExpr.nodes, List.forall_mem_cons, List.forall_mem_append] at h
    exact ⟨takesRuns_cond i (takesRuns c h.2.1.1).1 (takesRuns t h.2.1.2).1 (takesRuns e h.2.2).1,
      nofun⟩
  | .matchOn i e arms tree, h => by
    simp only [TExpr.nodes, List.forall_mem_cons, List.forall_mem_append] at h
    exact ⟨takesRuns_matchOn i tree (takesRuns e h.2.1).1 (takesArms arms h.2.2), nofun⟩
  | .tuple i items, h => by
    simp only [TExpr.nodes, List.forall_mem_cons] at h
    exact ⟨fun d s env ν S t hs => by
      simpa only [lower, closing_role, TExpr.runs] using
        lowerAll_takes (takesRunsList items h.2) hs, nofun⟩
  | .construct i _ _ args, h => by
    simp only [TExpr.nodes, List.forall_mem_cons] at h
    exact ⟨fun d s env ν S t hs => by
      simpa only [lower, closing_role, TExpr.runs] using
        lowerAll_takes (takesRunsList args h.2) hs, nofun⟩
  | .binary i op a b, h => by
    simp only [TExpr.nodes, List.forall_mem_cons, List.forall_mem_append] at h
    exact ⟨takesRuns_binary i op (takesRuns a h.2.1).1 (takesRuns b h.2.2).1, nofun⟩
  | .unary i op a, h => by
    simp only [TExpr.nodes, List.forall_mem_cons] at h
    exact ⟨takesRuns_unary i op (takesRuns a h.2).1, nofun⟩
  | .borrow i kind a, h => by
    simp only [TExpr.nodes, List.forall_mem_cons] at h
    exact ⟨takesRuns_borrow i kind (takesRuns a h.2).1 (takesRuns a h.2).2, nofun⟩
  | .deref i r, h => by
    simp only [TExpr.nodes, List.forall_mem_cons] at h
    have hr := (takesRuns r h.2).1
    exact ⟨takesRuns_deref h.1 hr, fun j r' heq => (TExpr.deref.inj heq).2 ▸ hr⟩
  | .assign i a v, h => by
    simp only [TExpr.nodes, List.forall_mem_cons, List.forall_mem_append] at h
    exact ⟨takesRuns_assign (takesRuns v h.2.2).1 (takesRuns a h.2.1).2, nofun⟩

theorem takesRunsList : (es : List TExpr) → (∀ n ∈ TExpr.nodesList es, n.ShowsReferences holds) →
    ∀ e ∈ es, TakesRuns holds e
  | [], _ => nofun
  | e :: es, h => by
    simp only [TExpr.nodesList, List.forall_mem_append] at h
    exact List.forall_mem_cons.2 ⟨(takesRuns e h.1).1, takesRunsList es h.2⟩

theorem takesArm : (a : TArm) → (∀ n ∈ TExpr.nodesArm a, n.ShowsReferences holds) →
    TakesArm holds a
  | .mk p (some g) b, h => by
    simp only [TExpr.nodesArm, List.forall_mem_append] at h
    exact takesArm_guarded p (takesRuns g h.1).1 (takesRuns b h.2).1
  | .mk p none b, h => takesArm_unguarded p (takesRuns b h).1

theorem takesArms : (arms : List TArm) → (∀ n ∈ TExpr.nodesArms arms, n.ShowsReferences holds) →
    ∀ a ∈ arms, TakesArm holds a
  | [], _ => nofun
  | a :: arms, h => by
    simp only [TExpr.nodesArms, List.forall_mem_append] at h
    exact List.forall_mem_cons.2 ⟨takesArm a h.1, takesArms arms h.2⟩

end

end Lowering
end RowCheck
