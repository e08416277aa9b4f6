import RowCheck.Check
import RowCheck.Proofs.Ownership.References
import RowCheck.Proofs.Typing.Uses

/-!
References that leave the scope of their local. Walking an expression gets as far as all of its
runs: the loans of its value include one for each reference in it, and what has got out of the scope
of its local is told of, as long as the types of calls and of what is read through references show
what they contain. The fields of a type that is defined do not show in it.
-/
namespace RowCheck

namespace Lowering

variable {s s' : Lowering} {k n : Nat} {σ : Slots} {L L' : Loans} {R : Set Reference} {o p : Ending}
  {q : Reference} {loan : Nat}

/-! ## Endings -/

/-- Whether a state and the loans of a value are as far as a run that has ended so. -/
structure Meets (s : Lowering) (L : Loans) (k : Nat) (o : Ending) : Prop where
  hosts : s.activation.Hosts k o.slots
  carries : s.activation.Carries L o.value
  told : ∀ q ∈ o.dangling, s.TellsOf q

theorem Meets.stays (h : s.Meets L k o) (hs : s.Stays s') (hL : ∀ loan ∈ L, loan ∈ L') :
    s'.Meets L' k o :=
  ⟨hs.hosts h.hosts, (hs.carries h.carries).mono hL subset_rfl,
    fun q hq => (h.told q hq).grows hs.toGrows⟩

theorem Meets.reportWhen (h : s.Meets L k o) {c : Prop} [Decidable c] {d : Diagnostic} :
    let r := (do
      if c then report d
      return L : LowerM Loans) s
    r.2.Meets r.1 k o :=
  h.stays (reportWhen_stays c d L s) fun _ hl => by rwa [reportWhen_fst]

theorem Meets.pointUnless (h : s.Meets L k o) {c : Prop} [Decidable c] {event : FlowEvent}
    {span : Span} :
    let r := (do
      unless c do point event span
      return L : LowerM Loans) s
    r.2.Meets r.1 k o :=
  h.stays (pointUnless_stays c event span L s) fun _ hl => by rwa [pointUnless_fst]

/-- What one run has let go stays told of when another one goes on from it. -/
theorem Meets.next (hp : s.Meets L k p) (hs : s.Grows s') (ho : s'.Meets L' k o) :
    s'.Meets L' k { o with dangling := p.dangling ∪ o.dangling } := by
  refine ⟨ho.hosts, ho.carries, ?_⟩
  rintro q (hq | hq)
  · exact (hp.told q hq).grows hs
  · exact ho.told q hq

theorem Meets.drop (h : s.Meets L k o) (L' : Loans) : s.Meets L' k o.drop :=
  ⟨h.hosts, Activation.carries_empty L', h.told⟩

/-- When a scope is left, what refers to its locals is told of. -/
theorem Meets.leave (h : s'.Meets L (k + 1) o) (hw : s.Within s' n) (hs : s.activation.Hosts k σ)
    (position : Span) : (leaveScope s.activation L position s').2.Meets L k (o.leave n k) := by
  refine ⟨hw.leave_hosts hs h.hosts L position, ?_, ?_⟩
  · exact (h.carries.mono (fun _ => id) (Set.sep_subset _ _)).continues
      (hw.leave_continues L position) fun q hq => hs.depth ▸ hq.2
  · rintro q (hq | ⟨hq, hdepth⟩)
    · exact (h.told q hq).grows (leaveScope_grows s.activation L position s')
    · obtain ⟨loan, hl, hstands⟩ := h.carries q hq
      have hinnermost : s'.activation.region.length = q.depth :=
        (h.hosts.depth.trans_le hdepth).antisymm hstands.depth_le
      exact checkEscape_tells hstands hl position hinnermost

/-- Whether a state and the loans of a value are as far as each of some runs. -/
def Yields (r : Loans × Lowering) (k : Nat) (O : Set Ending) : Prop := ∀ o ∈ O, r.2.Meets r.1 k o

variable (holds : Ty → Prop)

/-- Whether walking an expression gets as far as all of its runs. -/
def Follows (e : TExpr) : Prop :=
  ∀ (d : Demand) ⦃k : Nat⦄ ⦃σ : Slots⦄ ⦃s : Lowering⦄, s.activation.Hosts k σ →
    Yields (lower d.role e s) k (e.endings holds k σ)

variable {holds} {O : Set Ending} {F : Ending → Set Ending} {i : Info} {e a b c r v : TExpr}

/-- What is walked after an expression goes on from where its runs have ended. -/
theorem Follows.bind (h : Follows holds e) (hs : s.activation.Hosts k σ) {d : Demand}
    {f : Loans → LowerM Loans} (hgrows : ∀ L, Obeys Grows (f L))
    (hf : ∀ L s' p, s.Stays s' → s'.Meets L k p → Yields (f L s') k (F p)) :
    Yields ((lower d.role e >>= f) s) k (Ending.next (e.endings holds k σ) F) := by
  rintro o ⟨p, hp, q, hq, rfl⟩
  have hmeets := h d hs p hp
  exact hmeets.next (hgrows _ _) (hf _ _ p ((regular e).stays d s) hmeets q hq)

theorem yields_idle (hs : s.activation.Hosts k σ) (L : Loans) : Yields (L, s) k {⟨∅, σ, ∅⟩} := by
  rintro o rfl
  exact ⟨hs, Activation.carries_empty L, nofun⟩

/-- A value may be of no use. -/
theorem Follows.drops (h : Follows holds e) (hs : s.activation.Hosts k σ) {d : Demand}
    {f : Loans → LowerM Loans} (hstays : ∀ L, Obeys Stays (f L)) :
    Yields ((lower d.role e >>= f) s) k (Ending.drop '' e.endings holds k σ) := by
  rintro o ⟨p, hp, rfl⟩
  have hafter := hstays (lower d.role e s).1 (lower d.role e s).2
  exact ((h d hs p hp).stays hafter fun _ => id).drop _

/-! ## Expressions -/

section

variable {α : Type} {f : Option Nat → LowerM α} {x : String}

theorem find?_bind_of_some {y : String × Nat}
    (h : s.activation.scopes.find? (fun s => decide (s.1 = x)) = some y) :
    (find? x >>= f) s = f (some y.2) s := by
  change f ((s.activation.scopes.find? (fun s => decide (s.1 = x))).map (·.2)) s = _
  rw [h]
  rfl

theorem find?_bind_of_none
    (h : s.activation.scopes.find? (fun s => decide (s.1 = x)) = none) :
    (find? x >>= f) s = f none s := by
  change f ((s.activation.scopes.find? (fun s => decide (s.1 = x))).map (·.2)) s = _
  rw [h]
  rfl

end

attribute [local simp] lower closing_role TExpr.endings

theorem follows_lit (i : Info) (value : Literal) : Follows holds (.lit i value) := by
  intro d k σ s hs
  simp only [lower, closing_role, TExpr.endings]
  exact yields_idle hs ∅

theorem follows_failed (i : Info) : Follows holds (.failed i) := by
  intro d k σ s hs
  simp only [lower, closing_role, TExpr.endings]
  exact yields_idle hs ∅

theorem follows_var (i : Info) (x : String) : Follows holds (.var i x) := by
  rintro d k σ s hs o rfl
  simp only [lower, closing_role, useVar]
  obtain ⟨y, c, hy, hc, hslot⟩ | ⟨hy, hc⟩ := hs.find? x
  · rw [find?_bind_of_some hy, Slots.held_of_some hc]
    have hstays := point_stays (.use y.2 (useKind d.role i.ty)) i.span s
    exact ⟨hstays.hosts hs, hstays.carries hslot.carries, nofun⟩
  · rw [find?_bind_of_none hy, Slots.held_of_none hc]
    exact ⟨hs, Activation.carries_empty _, nofun⟩

theorem follows_call (hshows : TExpr.ShowsReferences holds (.call i e a)) (hf : Follows holds e)
    (ha : Follows holds a) : Follows holds (.call i e a) := by
  intro d k σ s hs
  simp only [lower, closing_role, TExpr.endings]
  refine hf.bind (d := .read) hs
    (fun held => ((regular a).stays .value).grows.bind fun value => (pointUnless_stays _ _ _ _).grows)
    fun held s₁ p _ hp => ?_
  refine ha.bind (d := .value) hp.hosts (fun value => (pointUnless_stays _ _ _ _).grows)
    fun value s₂ q hstays hq => ?_
  rintro o rfl
  have hcarries : s₂.activation.Carries (if i.ty.carriesLoans then held.union value else ∅)
      {r ∈ p.value ∪ q.value | holds i.ty} := by
    rintro r ⟨hr, hholds⟩
    rw [if_pos (hshows hholds)]
    exact ((hstays.carries hp.carries).union hq.carries) r hr
  have hmeets : s₂.Meets _ k ⟨_, q.slots, ∅⟩ := ⟨hq.hosts, hcarries, nofun⟩
  exact hmeets.pointUnless

/-- A closure takes what the locals that it uses hold. -/
theorem capture_carries (span : Span) (names : List String) (hs : s.activation.Hosts k σ) :
    ∀ x ∈ names,
      (capture span names s).2.activation.Carries (capture span names s).1.2 (σ.held x) := by
  induction names generalizing s with
  | nil => nofun
  | cons name names ih =>
    rw [capture]
    obtain ⟨y, c, hy, hc, hslot⟩ | ⟨hy, hc⟩ := hs.find? name
    · rw [find?_bind_of_some hy]
      let s₁ := (point (.use y.2 (useKind .value (s.activation.flow.localAt y.2).ty)) span s).2
      have hstays : s.Stays s₁ := point_stays _ _ s
      have hrest := ih (hstays.hosts hs)
      have hall : s.Stays (capture span names s₁).2 := hstays.trans (capture_stays span names s₁)
      rintro x hx
      rcases List.mem_cons.1 hx with rfl | hx
      · rw [Slots.held_of_some hc]
        exact (hall.carries hslot.carries).inl _
      · exact (hrest x hx).inr _
    · rw [find?_bind_of_none hy]
      rintro x hx
      rcases List.mem_cons.1 hx with rfl | hx
      · rw [Slots.held_of_none hc]
        exact Activation.carries_empty _
      · exact ih hs x hx

theorem follows_lam (i : Info) (p : Binder) (b : TExpr) : Follows holds (.lam i p b) := by
  rintro d k σ s hs o rfl
  rw [lower_lam]
  have hstays : s.Stays (closure p (b.free []) i.span (do let _ ← lower .result b) s).2 :=
    closure_stays p _ i.span ((regular b).grows.bind fun _ => .pure _) s
  refine ⟨hstays.hosts hs, ?_, nofun⟩
  rintro q ⟨x, hx, hne, hq⟩
  have hname : x ∈ ((SortedSet.ofList (b.free [])).filter (fun name => name != p.name)).toList := by
    rw [← SortedSet.mem_def]
    simp [hx, hne]
  exact capture_carries i.span _ hs x hname q hq

theorem follows_letIn (i : Info) (x : Binder) (hv : Follows holds v) (hb : Follows holds b) :
    Follows holds (.letIn i x v b) := by
  intro d k σ s hs
  simp only [lower, closing_role, inner_role, TExpr.endings]
  have hgrows : ∀ held, Obeys Grows (do
      declare x.name x.ty x.span held
      lower d.role b) := fun held =>
    (declare_grows _ _ _ _).bind fun _ => ((regular b).stays d).grows
  refine hv.bind (d := .value) hs (fun held => (inScope_stays id _ (hgrows held)).grows)
    fun held s₁ p _ hp => ?_
  rintro o ⟨q, hq, rfl⟩
  have hdeclared := declare_hosts (enterScope_hosts hp.hosts) (enterScope_carries hp.carries)
    x.name x.ty x.span
  have hin : s₁.Within _ 1 := (enterScope_within s₁).declare x.name x.ty x.span held
  exact (hb d hdeclared q hq).leave (hin.stays ((regular b).stays d _)) hp.hosts i.span

theorem follows_cond (i : Info) (hc : Follows holds c) (ha : Follows holds a)
    (hb : Follows holds b) : Follows holds (.cond i c a b) := by
  intro d k σ s hs
  simp only [lower, closing_role, inner_role, TExpr.endings]
  have hjoin : ∀ (exit : SortedSet Nat) (held : Loans), Obeys Stays (do
      setFrontier ((← frontier).union exit)
      return held) := fun exit held =>
    frontier_stays.bind fun _ => (setFrontier_stays _).bind fun _ => .pure _
  have hsecond : ∀ (entry exit : SortedSet Nat) (held : Loans), Obeys Stays (do
      setFrontier entry
      let held := held.union (← lower d.role b)
      setFrontier ((← frontier).union exit)
      return held) := fun entry exit held =>
    (setFrontier_stays _).bind fun _ => ((regular b).stays d).bind fun _ => hjoin exit _
  refine hc.bind (d := .read) hs (fun _ => (frontier_stays.bind fun entry =>
    ((regular a).stays d).bind fun held => frontier_stays.bind fun exit =>
      hsecond entry exit held).grows) fun _ s₁ p _ hp => ?_
  rintro o (ho | ho)
  · exact (ha d hp.hosts o ho).stays (hsecond _ _ _ _) fun _ hl => SortedSet.mem_union.2 (.inl hl)
  · have hback : s₁.Stays (setFrontier s₁.activation.frontier (lower d.role a s₁).2).2 :=
      ((regular a).stays d s₁).trans (setFrontier_stays _ _)
    exact (hb d (hback.hosts hp.hosts) o ho).stays (hjoin _ _ _) fun _ hl =>
      SortedSet.mem_union.2 (.inr hl)

theorem follows_binary (i : Info) (op : BinOp) (ha : Follows holds a) (hb : Follows holds b) :
    Follows holds (.binary i op a b) := by
  intro d k σ s hs
  simp only [lower, closing_role, TExpr.endings]
  exact ha.bind (d := .read) hs (fun _ => ((regular b).stays .read).grows.bind fun _ => .pure _)
    fun _ s₁ p _ hp => hb.drops (d := .read) hp.hosts fun _ => .pure _

theorem follows_unary (i : Info) (op : UnOp) (ha : Follows holds a) :
    Follows holds (.unary i op a) := by
  intro d k σ s hs
  simp only [lower, closing_role, TExpr.endings]
  exact ha.drops (d := .read) hs fun _ => .pure _

/-- A borrow makes a loan that stands for the reference. -/
theorem follows_borrowVar (i j : Info) (kind : BorrowKind) (x : String) :
    Follows holds (.borrow i kind (.var j x)) := by
  rintro d k σ s hs o rfl
  simp only [lower, closing_role]
  have hstays := borrowVar_stays kind x i.span s
  refine ⟨hstays.hosts hs, ?_, nofun⟩
  rintro q ⟨c, hc, rfl⟩
  obtain ⟨y, c', hy, hc', hslot⟩ | ⟨-, hnone⟩ := hs.find? x
  · obtain rfl : c = c' := Option.some.inj (hc.symm.trans hc')
    obtain ⟨z, hz, hin⟩ := hslot.place
    have hname : c.name = x := by simpa using List.find?_some hc
    unfold borrowVar at hstays ⊢
    rw [find?_bind_of_some hy] at hstays ⊢
    refine ⟨s.activation.flow.loans.size, SortedSet.mem_ofList.2 (List.mem_singleton_self _),
      ⟨y.2, kind, i.span⟩, z, Array.getElem?_push_size, rfl, ?_, ?_⟩
    · exact getElem?_of_begins hstays.flow.locals hz
    · exact hname ▸ hin.continues (hstays.continues c.depth) le_rfl
  · cases hnone.symm.trans hc

/-- A reference that is derived from another one carries the loans of that one. -/
theorem follows_reborrow (i j : Info) (kind : BorrowKind) (hr : Follows holds r) :
    Follows holds (.borrow i kind (.deref j r)) := by
  intro d k σ s hs o ho
  simp only [lower, closing_role]
  exact (hr .read hs o ho).reportWhen

theorem follows_borrow (i : Info) (kind : BorrowKind) (ha : Follows holds a)
    (hr : ∀ j r, a = .deref j r → Follows holds r) : Follows holds (.borrow i kind a) := by
  cases a with
  | var j x => exact follows_borrowVar i j kind x
  | deref j r => exact follows_reborrow i j kind (hr j r rfl)
  | _ =>
    intro d k σ s hs
    simp only [lower, closing_role, TExpr.endings]
    exact ha .value hs

theorem follows_deref (hshows : TExpr.ShowsReferences holds (.deref i r)) (hr : Follows holds r) :
    Follows holds (.deref i r) := by
  intro d k σ s hs
  simp only [lower, closing_role, TExpr.endings]
  refine hr.bind (d := .read) hs (fun held => (reportWhen_stays _ _ _).grows)
    fun held s₁ p _ hp => ?_
  rintro o rfl
  have hcarries : s₁.activation.Carries (if isRef i.ty then held else ∅)
      {r ∈ p.value | holds i.ty} := by
    rintro r ⟨hr, hholds⟩
    rw [if_pos (hshows hholds)]
    exact hp.carries r hr
  have hmeets : s₁.Meets _ k ⟨_, p.slots, ∅⟩ := ⟨hp.hosts, hcarries, nofun⟩
  exact hmeets.reportWhen

theorem mem_holding_assignVar {x : String} {y : String × Nat} (ha : s.activation.flow.Aligned)
    (hy : s.activation.scopes.find? (fun s => decide (s.1 = x)) = some y)
    (hlt : y.2 < s.activation.flow.locals.size) (hl : loan ∈ L) (span target : Span) :
    loan ∈ (assignVar x L span target s).2.activation.flow.holding y.2 := by
  unfold assignVar
  rw [find?_bind_of_some hy]
  let s₁ := (checkOutlives L (s.activation.flow.localAt y.2).region span s).2
  have hstays : s.Stays s₁ := checkOutlives_stays _ _ _ s
  have hlt : y.2 < s₁.activation.flow.holdings.size :=
    (hlt.trans_le hstays.flow.size_locals).trans_eq (hstays.aligned ha).symm
  exact (holding_modify s₁.activation.flow y.2 y.2 L).2 (.inr ⟨rfl, hlt, hl⟩)

theorem assignVar_tells {x : String} {y : String × Nat} {c : Slot} (hL : s.activation.Carries L R)
    (hy : s.activation.scopes.find? (fun s => decide (s.1 = x)) = some y)
    (hslot : s.activation.HostsSlot y c) (hq : q ∈ R) (hdepth : c.depth < q.depth)
    (span target : Span) : (assignVar x L span target s).2.TellsOf q := by
  unfold assignVar
  rw [find?_bind_of_some hy]
  obtain ⟨loan, hl, hstands⟩ := hL q hq
  obtain ⟨z, hz, hin⟩ := hslot.place
  have hregion : (s.activation.flow.localAt y.2).region.length < q.depth := by
    rwa [Flow.localAt, hz, Option.getD_some, hin.depth]
  exact checkOutlives_tells hstands hl span hregion

/-- An assignment puts a value into a local, and tells of what does not live as long. -/
theorem assignVar_meets (hp : s.Meets L k p) (x : String) (span target : Span) :
    (assignVar x L span target s).2.Meets ∅ k
      ⟨∅, p.slots.put x p.value, p.slots.outlived x p.value⟩ := by
  have hstays := assignVar_stays x L span target s
  have hhosts := hstays.hosts hp.hosts
  refine ⟨⟨hhosts.depth, hhosts.aligned, Activation.put_hosts hhosts.slots fun y c hy hslot => ?_⟩,
    Activation.carries_empty _, ?_⟩
  · rw [hstays.scopes] at hy
    obtain ⟨z, hz, -⟩ := hp.hosts.depth_of_mem y (List.mem_of_find?_eq_some hy)
    have hlt : y.2 < s.activation.flow.locals.size := (Array.getElem?_eq_some_iff.1 hz).1
    refine ⟨hslot.name, hslot.place, ?_, fun q hq => hq.2⟩
    exact (hstays.carries hp.carries).mono
      (fun loan hl => mem_holding_assignVar hp.hosts.aligned hy hlt hl span target)
      (Set.sep_subset _ _)
  · rintro q ⟨hq, c, hc, hdepth⟩
    obtain ⟨y, c', hy, hc', hslot⟩ | ⟨-, hnone⟩ := hp.hosts.find? x
    · obtain rfl : c = c' := Option.some.inj (hc.symm.trans hc')
      exact assignVar_tells hp.carries hy hslot hq hdepth span target
    · cases hnone.symm.trans hc

/-- An assignment through a reference tells of what does not live as long as what it refers to. -/
theorem assignThrough_tells (hL : s.activation.Carries L R) {held : Loans} {targets : Set Reference}
    (hheld : s.activation.Carries held targets) (span : Span) {target : Reference}
    (ht : target ∈ targets) (hq : q ∈ R) (hdepth : target.depth < q.depth) :
    (assignThrough r held L span s).2.TellsOf q := by
  obtain ⟨loan, hl, hstands⟩ := hheld target ht
  obtain ⟨loan', hl', hstands'⟩ := hL q hq
  have hloop : ∀ s₁, s.Stays s₁ → (forIn held.toList PUnit.unit (fun loan _ => do
      checkOutlives L ((← get).activation.flow.lender loan).region span
      pure (ForInStep.yield PUnit.unit)) s₁).2.TellsOf q := by
    intro s₁ hs₁
    obtain ⟨s₂, hs₂, htaken⟩ := forIn_takes hl (s := s₁) (f := fun loan _ => do
        checkOutlives L ((← get).activation.flow.lender loan).region span
        pure (ForInStep.yield PUnit.unit))
      (fun _ => Obeys.get_bind fun _ => (checkOutlives_stays _ _ _).bind fun _ => .pure _)
      (fun _ _ => rfl)
    have hstays := hs₁.trans hs₂
    have hin := lender_inScope (hstays.stands hstands)
    exact (checkOutlives_tells (hstays.stands hstands') hl' span (hin.depth ▸ hdepth)).grows
      htaken.toGrows
  unfold assignThrough
  dsimp only
  split
  · exact hloop _ (report_stays _ s)
  · exact hloop s (.refl s)

theorem follows_assign (hv : Follows holds v) (hr : ∀ j r, a = .deref j r → Follows holds r) :
    Follows holds (.assign i a v) := by
  intro d k σ s hs
  cases a with
  | var j x =>
    simp only [lower, closing_role, TExpr.endings]
    refine hv.bind (d := .value) hs
      (fun value => ((assignVar_stays x value i.span j.span).bind fun _ => .pure _).grows)
      fun value s₁ p _ hp => ?_
    rintro o rfl
    exact assignVar_meets hp x i.span j.span
  | deref j r =>
    simp only [lower, closing_role, TExpr.endings]
    have hstore : ∀ held value : Loans, Obeys Stays (do
        assignThrough r held value i.span
        return (∅ : Loans)) := fun held value =>
      (assignThrough_stays r held value i.span).bind fun _ => .pure _
    refine hv.bind (d := .value) hs
      (fun value => (((regular r).stays .read).bind fun held => hstore held value).grows)
      fun value s₁ p _ hp => ?_
    refine (hr j r rfl).bind (d := .read) hp.hosts (fun held => (hstore held value).grows)
      fun held s₂ q hstays hq => ?_
    rintro o rfl
    refine ⟨(hstore held value s₂).hosts hq.hosts, Activation.carries_empty _, ?_⟩
    rintro t ⟨ht, target, htarget, hdepth⟩
    exact assignThrough_tells (hstays.carries hp.carries) hq.carries i.span htarget ht hdepth
  | _ =>
    simp only [lower, closing_role, TExpr.endings]
    exact hv.drops (d := .value) hs fun _ => .pure _

theorem lowerAll_follows {es : List TExpr} (h : ∀ e ∈ es, Follows holds e)
    (hs : s.activation.Hosts k σ) : Yields (lowerAll es s) k (TExpr.endingsAll holds k es σ) := by
  induction es generalizing s σ with
  | nil => exact yields_idle hs ∅
  | cons e es ih =>
    rw [List.forall_mem_cons] at h
    rw [lowerAll, TExpr.endingsAll]
    refine h.1.bind (d := .value) hs
      (fun held => ((lowerAll_stays fun e _ => regular e).bind fun _ => .pure _).grows)
      fun held s₁ p _ hp => ?_
    rintro o ⟨q, hq, _, rfl, rfl⟩
    have hstays := lowerAll_stays (fun e (_ : e ∈ es) => regular e) s₁
    have hmeets := ih h.2 hp.hosts q hq
    refine ⟨hmeets.hosts, (hstays.carries hp.carries).union hmeets.carries, ?_⟩
    rintro r (hr | hr)
    · exact hmeets.told r hr
    · cases hr

theorem lowerSeq_follows {es : List TExpr} (h : ∀ e ∈ es, Follows holds e) (d : Demand)
    (hs : s.activation.Hosts k σ) :
    Yields (lowerSeq d.role es s) k (TExpr.endingsSeq holds k es σ) := by
  induction es generalizing s σ with
  | nil => exact yields_idle hs ∅
  | cons e es ih =>
    rw [List.forall_mem_cons] at h
    cases es with
    | nil => exact h.1 d hs
    | cons f es =>
      rw [lowerSeq, TExpr.endingsSeq]
      exact h.1.bind (d := .read) hs (fun _ => (lowerSeq_stays (fun e _ => regular e) d).grows)
        fun _ s₁ p _ hp => ih h.2 hp.hosts

/-- Whether walking an arm gets as far as all of its runs, whether it is selected or passed over. -/
def FollowsArm (holds : Ty → Prop) (a : TArm) : Prop :=
  ∀ (d : Demand) (entry : SortedSet Nat) ⦃k : Nat⦄ ⦃σ : Slots⦄ ⦃s : Lowering⦄ ⦃L : Loans⦄
    ⦃R : Set Reference⦄, s.activation.Hosts k σ → s.activation.Carries L R →
      let walked := arm d.role L entry a s
      Yields (walked.1.1, walked.2) k (TExpr.endingsArm holds k R a σ) ∧
      Yields (walked.1.1, walked.2) k (TExpr.endingsPassed holds k R a σ)

theorem arm_stays (d : Demand) (L : Loans) (entry : SortedSet Nat) (a : TArm) :
    Obeys Stays (arm d.role L entry a) :=
  inScope_stays Prod.fst a.body.span (regularArm a d L entry)

theorem followsArm_unguarded (p : TPattern) (hb : Follows holds b) :
    FollowsArm holds (.mk p none b) := by
  intro d entry k σ s L R hs hR
  obtain ⟨hdeclared, hin⟩ := declarePattern_hosts (enterScope_hosts hs) (enterScope_carries hR)
    (enterScope_within s) p
  rw [Nat.zero_add] at hin
  constructor
  · rintro o ⟨q, hq, rfl⟩
    exact (hb d hdeclared q hq).leave (hin.stays ((regular b).stays d _)) hs b.span
  · exact yields_idle ((arm_stays d L entry (.mk p none b) s).hosts hs) _

theorem followsArm_guarded (p : TPattern) (hg : Follows holds e) (hb : Follows holds b) :
    FollowsArm holds (.mk p (some e) b) := by
  intro d entry k σ s L R hs hR
  obtain ⟨hdeclared, hin⟩ := declarePattern_hosts (enterScope_hosts hs) (enterScope_carries hR)
    (enterScope_within s) p
  rw [Nat.zero_add] at hin
  have hguard := hin.stays ((regular e).stays .read _)
  have hbody := hguard.stays ((regular b).stays d _)
  constructor
  · rintro o ⟨q, ⟨g, hfirst, f, hsecond, rfl⟩, rfl⟩
    have htried := hg .read hdeclared g hfirst
    have hstays := (regular b).stays d (lower .read e (declarePattern p L s.enterScope.2).2).2
    exact (htried.next hstays.toGrows (hb d htried.hosts f hsecond)).leave hbody hs b.span
  · rintro o (rfl | ⟨g, hfirst, rfl⟩)
    · exact yields_idle ((arm_stays d L entry (.mk p (some e) b) s).hosts hs) _ _ rfl
    · have htried := hg .read hdeclared g hfirst
      have hstays := (regular b).stays d (lower .read e (declarePattern p L s.enterScope.2).2).2
      exact ((htried.stays hstays fun _ => id).drop _).leave hbody hs b.span

theorem lowerArms_follows {arms : List TArm} (h : ∀ a ∈ arms, FollowsArm holds a) (d : Demand)
    (entry exits : SortedSet Nat) (hs : s.activation.Hosts k σ) (hR : s.activation.Carries L R) :
    Yields (lowerArms d.role L entry exits arms s) k (TExpr.endingsArms holds k R arms σ) := by
  induction arms generalizing s σ entry exits with
  | nil => nofun
  | cons a arms ih =>
    rw [List.forall_mem_cons] at h
    have hentry := setFrontier_stays entry s
    let s₁ := (setFrontier entry s).2
    obtain ⟨hselected, hpassed⟩ := h.1 d entry (hentry.hosts hs) (hentry.carries hR)
    let walked := arm d.role L entry a s₁
    have hwalked : s.Stays walked.2 := hentry.trans (arm_stays d L entry a s₁)
    have hrest : Obeys Stays (do
        let exits := exits.union (← frontier)
        return walked.1.1.union (← lowerArms d.role L walked.1.2 exits arms)) :=
      frontier_stays.bind fun _ =>
        (lowerArms_stays (fun a _ => regularArm a) d L _ _).bind fun _ => .pure _
    rintro o (ho | ⟨p, hp, q, hq, rfl⟩)
    · exact (hselected o ho).stays (hrest walked.2) fun _ hl => SortedSet.mem_union.2 (.inl hl)
    · have hmeets := hpassed p hp
      have hlast := ih h.2 walked.1.2 (exits.union walked.2.activation.frontier) hmeets.hosts
        (hwalked.carries hR) q hq
      exact hmeets.next (hrest walked.2).toGrows
        (hlast.stays (.refl _) fun _ hl => SortedSet.mem_union.2 (.inr hl))

theorem follows_matchOn {arms : List TArm} (i : Info) (tree : Option DecisionTree)
    (he : Follows holds e) (h : ∀ a ∈ arms, FollowsArm holds a) : Follows holds (.matchOn i e arms tree) := by
  intro d k σ s hs
  simp only [lower, closing_role, inner_role, TExpr.endings]
  have hend : ∀ (value : Loans) (entry : SortedSet Nat), Obeys Stays (do
      if arms.isEmpty then setFrontier entry
      return value) := by
    intro value entry
    split
    · exact (setFrontier_stays _).bind fun _ => .pure _
    · exact .pure _
  refine he.bind (d := TArm.scrutineeDemand arms) hs (fun held => (frontier_stays.bind fun entry =>
    (lowerArms_stays (fun a _ => regularArm a) d held entry ∅).bind fun value =>
      hend value entry).grows) fun held s₁ p _ hp => ?_
  cases arms with
  | nil =>
    have hstays : s₁.Stays (setFrontier s₁.activation.frontier (setFrontier ∅ s₁).2).2 :=
      (setFrontier_stays _ s₁).trans (setFrontier_stays _ _)
    exact yields_idle (hstays.hosts hp.hosts) ∅
  | cons a arms => exact lowerArms_follows h d _ _ hp.hosts hp.carries

mutual

/-- Walking an expression gets as far as all of its runs, if the types of its nodes show which of them
contain references. -/
theorem follows : (e : TExpr) → (∀ n ∈ e.nodes, n.ShowsReferences holds) →
    Follows holds e ∧ ∀ j r, e = .deref j r → Follows holds r
  | .lit i value, _ => ⟨follows_lit i value, nofun⟩
  | .failed i, _ => ⟨follows_failed i, nofun⟩
  | .var i x, _ => ⟨follows_var i x, nofun⟩
  | .call i f a, h => by
    simp only [TExpr.nodes, List.forall_mem_cons, List.forall_mem_append] at h
    exact ⟨follows_call h.1 (follows f h.2.1).1 (follows a h.2.2).1, nofun⟩
  | .lam i p b, _ => ⟨follows_lam i p b, nofun⟩
  | .letIn i x v b, h => by
    simp only [TExpr.nodes, List.forall_mem_cons, List.forall_mem_append] at h
    exact ⟨follows_letIn i x (follows v h.2.1).1 (follows b h.2.2).1, nofun⟩
  | .seq i items, h => by
    simp only [TExpr.nodes, List.forall_mem_cons] at h
    exact ⟨fun d k σ s hs => by
      simpa only [lower, closing_role, inner_role, TExpr.endings] using
        lowerSeq_follows (followsList items h.2) d hs, nofun⟩
  | .cond i c t e, h => by
    simp only [TExpr.nodes, List.forall_mem_cons, List.forall_mem_append] at h
    exact ⟨follows_cond i (follows c h.2.1.1).1 (follows t h.2.1.2).1 (follows e h.2.2).1, nofun⟩
  | .matchOn i e arms tree, h => by
    simp only [TExpr.nodes, List.forall_mem_cons, List.forall_mem_append] at h
    exact ⟨follows_matchOn i tree (follows e h.2.1).1 (followsArms arms h.2.2), nofun⟩
  | .tuple i items, h => by
    simp only [TExpr.nodes, List.forall_mem_cons] at h
    exact ⟨fun d k σ s hs => by
      simpa only [lower, closing_role, TExpr.endings] using
        lowerAll_follows (followsList items h.2) hs, nofun⟩
  | .construct i _ _ args, h => by
    simp only [TExpr.nodes, List.forall_mem_cons] at h
    exact ⟨fun d k σ s hs => by
      simpa only [lower, closing_role, TExpr.endings] using
        lowerAll_follows (followsList args h.2) hs, nofun⟩
  | .binary i op a b, h => by
    simp only [TExpr.nodes, List.forall_mem_cons, List.forall_mem_append] at h
    exact ⟨follows_binary i op (follows a h.2.1).1 (follows b h.2.2).1, nofun⟩
  | .unary i op a, h => by
    simp only [TExpr.nodes, List.forall_mem_cons] at h
    exact ⟨follows_unary i op (follows a h.2).1, nofun⟩
  | .borrow i kind a, h => by
    simp only [TExpr.nodes, List.forall_mem_cons] at h
    exact ⟨follows_borrow i kind (follows a h.2).1 (follows a h.2).2, nofun⟩
  | .deref i r, h => by
    simp only [TExpr.nodes, List.forall_mem_cons] at h
    have hr := (follows r h.2).1
    exact ⟨follows_deref h.1 hr, fun j r' heq => (TExpr.deref.inj heq).2 ▸ hr⟩
  | .assign i a v, h => by
    simp only [TExpr.nodes, List.forall_mem_cons, List.forall_mem_append] at h
    exact ⟨follows_assign (follows v h.2.2).1 (follows a h.2.1).2, nofun⟩

theorem followsList : (es : List TExpr) → (∀ n ∈ TExpr.nodesList es, n.ShowsReferences holds) →
    ∀ e ∈ es, Follows holds e
  | [], _ => nofun
  | e :: es, h => by
    simp only [TExpr.nodesList, List.forall_mem_append] at h
    exact List.forall_mem_cons.2 ⟨(follows e h.1).1, followsList es h.2⟩

theorem followsArm : (a : TArm) → (∀ n ∈ TExpr.nodesArm a, n.ShowsReferences holds) →
    FollowsArm holds a
  | .mk p (some g) b, h => by
    simp only [TExpr.nodesArm, List.forall_mem_append] at h
    exact followsArm_guarded p (follows g h.1).1 (follows b h.2).1
  | .mk p none b, h => followsArm_unguarded p (follows b h).1

theorem followsArms : (arms : List TArm) → (∀ n ∈ TExpr.nodesArms arms, n.ShowsReferences holds) →
    ∀ a ∈ arms, FollowsArm holds a
  | [], _ => nofun
  | a :: arms, h => by
    simp only [TExpr.nodesArms, List.forall_mem_append] at h
    exact List.forall_mem_cons.2 ⟨followsArm a h.1, followsArms arms h.2⟩

end

/-- At the end of an activation, what refers to its locals is told of. -/
theorem Meets.close (h : s.Meets L 0 o) (position : Span) :
    ∀ q, q ∈ o.dangling ∨ q ∈ o.value → (close L position s).2.TellsOf q := by
  rintro q (hq | hq)
  · exact (h.told q hq).grows (close_stays L position s).toGrows
  · obtain ⟨loan, hl, hstands⟩ := h.carries q hq
    have hdepth : s.activation.region.length = q.depth :=
      h.hosts.depth.trans (Nat.le_zero.1 (hstands.depth_le.trans_eq h.hosts.depth)).symm
    have hrest : Obeys Stays (do
        let f := (← get).activation.flow
        for d in f.moveFaults do
          report d
        for d in f.conflictFaults do
          report d) :=
      Obeys.get_bind fun _ => (forIn_report_stays _).bind fun _ => forIn_report_stays _
    exact (checkEscape_tells hstands hl position hdepth).grows (hrest _).toGrows

/-- The locals of an activation hold nothing of it when it begins. -/
theorem Entered.hosts {Γ : Scope} (h : Entered Γ s) :
    s.activation.Hosts 0 (Γ.map fun x => ⟨x.1, 0, ∅⟩) := by
  induction h with
  | start faults => exact ⟨rfl, rfl, .nil⟩
  | declare name t span _ ih => exact declare_hosts ih (Activation.carries_empty ∅) name t span

end Lowering

/-- If a run of an activation of a function lets a reference out of the scope of its local, that is
reported, as long as types show which values contain references. -/
theorem TFunction.checkOwnership_tellsDangling (f : TFunction) {g : Frame} {holds : Ty → Prop}
    {q : Reference} (hg : (Frame.of [] f.body).Reaches g)
    (hshows : ∀ n ∈ g.body.nodes, n.ShowsReferences holds) (hq : g.LetsOut holds q) :
    ∃ d ∈ f.checkOwnership.2, d.TellsDangling q := by
  obtain ⟨s, hs, hfaults⟩ := f.exists_entered hg
  obtain ⟨o, ho, hout⟩ := hq
  have hmeets := (Lowering.follows g.body hshows).1 .value hs.hosts o ho
  obtain ⟨d, hd, htells⟩ := hmeets.close g.body.span q hout
  exact ⟨d, hfaults hd, htells⟩

/-- A function whose result refers to its local, in what a call returns:
`fn lending(f: &String -> (&String, s32)) { let y = "a"; f(&y) }`. -/
def lending : TFunction :=
  let info := fun span t => Info.mk span t .pure none
  let reference := Ty.ref .shared .string
  let pair := Ty.tuple [reference, .prim .s32]
  let arrow := Ty.fn reference pair .pure
  ⟨"lending", .synthetic, .fn arrow pair .pure, .pure,
    .lam (info .synthetic (.fn arrow pair .pure)) ⟨"f", .synthetic, arrow, none⟩
      (.letIn (info .synthetic pair) ⟨"y", .synthetic, .string, none⟩
        (.lit (info .synthetic .string) (.string "a"))
        (.call (info .synthetic pair) (.var (info .synthetic arrow) "f")
          (.borrow (info ⟨0, 24, 26⟩ reference) .shared (.var (info .synthetic .string) "y"))))⟩

theorem lending_tellsDangling :
    (∀ n ∈ (Frame.of [] lending.body).body.nodes, n.ShowsReferences (·.carriesLoans = true)) ∧
    (Frame.of [] lending.body).LetsOut (·.carriesLoans = true) ⟨1, "y", ⟨0, 24, 26⟩⟩ ∧
    ∃ d ∈ lending.checkOwnership.2, d.TellsDangling ⟨1, "y", ⟨0, 24, 26⟩⟩ := by
  have hshows : ∀ n ∈ (Frame.of [] lending.body).body.nodes,
      n.ShowsReferences (·.carriesLoans = true) := by
    simp [lending, Frame.of, TExpr.nodes, TExpr.ShowsReferences]
  have hout : (Frame.of [] lending.body).LetsOut (·.carriesLoans = true) ⟨1, "y", ⟨0, 24, 26⟩⟩ := by
    simp [lending, Frame.of, Frame.LetsOut, TExpr.endings, Ending.next, Ending.leave, Slots.held,
      Slots.find?, Ty.carriesLoans, Ty.anyCarriesLoans]
  exact ⟨hshows, hout, lending.checkOwnership_tellsDangling (.refl _) hshows hout⟩

/-- A module whose last function returns something that it makes of a borrow of its local: `type
Holder = Hold(&String); fn wrap(r: &String) { Hold(r) }; fn leak() { let y = "a"; make(&y) }`. -/
def leaking (make : Expr → Expr) : Module :=
  let name := Name.mk .synthetic
  let var := Expr.var .synthetic
  let string := TypeExpr.ref .synthetic false (.named .synthetic "String" [])
  [.type ⟨.synthetic, name "Holder", [], [⟨name "Hold", [string]⟩]⟩,
    .fn ⟨.synthetic, name "wrap", [⟨name "r", some string⟩], none, none,
      .construct .synthetic (name "Hold") [var "r"]⟩,
    .fn ⟨.synthetic, name "leak", [], none, none,
      .letIn .synthetic (name "y") none (.lit .synthetic (.string "a"))
        (make (.borrow ⟨0, 15, 16⟩ false (var "y")))⟩]

/-- The diagnostics of its functions. -/
def leakingFaults (make : Expr → Expr) : List Diagnostic :=
  let m := leaking make
  (Module.checkLevels m (Module.registries m).1 .default [[[1]], [[2]]] ∅).flatMap (·.diagnostics)

/-- What is put together of a reference keeps it, but what a call returns keeps it only if references
show in its type by themselves, and not in the fields of a type that is defined. -/
theorem leaking_wrapped :
    (Module.registries (leaking id)).2 = [] ∧
    (∃ d ∈ leakingFaults fun r => .construct .synthetic ⟨.synthetic, "Hold"⟩ [r],
      d.category = .danglingBorrow ∧ d.location = some ⟨0, 15, 16⟩) ∧
    leakingFaults (fun r => .call .synthetic (.var .synthetic "wrap") [r]) = [] :=
  ⟨by decide +kernel, by decide +kernel, by decide +kernel⟩

end RowCheck
