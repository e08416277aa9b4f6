import RowCheck.Ownership.Check
import RowCheck.Proofs.Ownership.Walk

/-!
Each form of expressions is walked as its traces say. So what is told of a function is just what one
of its runs misuses, or a run of one of its closures.
-/
namespace RowCheck

/-- Whether an expression is walked by itself. A lambda that is a result goes on with its body, and
what is around a dereference may go on with the reference. -/
def TExpr.isPlain : TExpr → Bool
  | .lam .. | .deref .. => false
  | _ => true

namespace Lowering

variable {s s' s'' : Lowering} {Γ : Scope} {ν : Nat → Nat} {P : Set Trace} {T U : Traces}

/-- Whether an action goes on by some traces, wherever it begins. -/
def Traverses {α : Type} (m : LowerM α) (T : Scope → Traces) : Prop :=
  ∀ ⦃s : Lowering⦄ ⦃Γ : Scope⦄ ⦃ν : Nat → Nat⦄ ⦃P : Set Trace⦄,
    s.activation.Tracks Γ ν P → s.Walking m Γ ν P (T Γ)

/-- Whether an expression is walked as its traces say, as a part of an activation and as its result.
If it leads through a reference, that is so of the reference too. -/
structure Lowers (e : TExpr) : Prop where
  walks : ∀ d : Demand, Traverses (lower d.role e) (e.traces · d)
  completes : ∀ Γ, Completes (lower .result e) Γ (Frame.of Γ e)
  reference : ∀ i r, e = .deref i r → Traverses (lower .read r) (r.traces · .read)

/-! ## Results -/

-- what each form does, and what its traces are, is read off the equations of its own
attribute [local simp] lower TExpr.traces

@[local simp] theorem closing_role (d : Demand) (span : Span) (m : LowerM Loans) :
    closing d.role span m = m := by
  cases d <;> simp [closing, Demand.role]

theorem inner_role (d : Demand) : d.role.inner = d.role := by
  cases d <;> rfl

/-- Apart from the result of an activation, a lambda is a closure. -/
theorem lower_lam (d : Demand) (i : Info) (p : Binder) (b : TExpr) :
    lower d.role (.lam i p b) = closure p (b.free []) i.span (do
      let _ ← lower .result b) := by
  cases d <;> simp only [Demand.role, lower]

/-- The result of an activation is walked as a value that is handed over; then the activation ends.
Only a lambda goes on with its body. -/
theorem lower_result {e : TExpr} (he : ∀ i p b, e ≠ .lam i p b) :
    lower .result e = do
      let value ← lower .value e
      close value e.span
      return value := by
  have hvalue : ∀ span (m : LowerM Loans), closing .value span m = m := closing_role .value
  have hresult : ∀ span (m : LowerM Loans), closing .result span m = (do
      let value ← m
      close value span
      return value) := fun _ _ => rfl
  cases e with
  | lam i p b => exact absurd rfl (he i p b)
  | borrow i k target => cases target <;> simp only [lower, hvalue, hresult] <;> rfl
  | assign i target v => cases target <;> simp only [lower, hvalue, hresult] <;> rfl
  | _ => simp only [lower, hvalue, hresult]; rfl

theorem frame_of {e : TExpr} (he : ∀ i p b, e ≠ .lam i p b) (Γ : Scope) :
    Frame.of Γ e = ⟨Γ, e⟩ := by
  cases e with
  | lam i p b => exact absurd rfl (he i p b)
  | _ => rfl

/-- The runs of an activation are those of its body once its locals are there. -/
theorem misusedBy_entered {e : TExpr} {x : String} {span : Span} :
    MisusedBy ((e.traces Γ .value).after (entered Γ)) x span ↔
      ∃ t ∈ Frame.traces ⟨Γ, e⟩, t.Misuses x span := by
  rw [entered, ← Traces.after_followedBy]
  simp only [MisusedBy, Traces.mem_after_start, Frame.traces]

theorem creates_entered {e : TExpr} (he : e.traces Γ .value ≠ []) {x : String} {span : Span} :
    Traces.Creates (Frame.traces ⟨Γ, e⟩) x span ↔ (e.traces Γ .value).Creates x span := by
  rw [Frame.traces, Traces.creates_followedBy (by simp [Scope.defines]) he]
  exact or_iff_right (not_creates (by simp))

/-- All that an activation misuses has been found at its end. -/
theorem completes_of_walks {e : TExpr} (he : ∀ i p b, e ≠ .lam i p b)
    (h : Traverses (lower .value e) (e.traces · .value)) :
    Completes (lower .result e) Γ (Frame.of Γ e) := by
  intro s ν hs hclean x span
  have hwalks := h hs
  have hfound : (lower .value e s).2.activation.flow.Misused x span ↔
      ∃ t ∈ Frame.traces ⟨Γ, e⟩, t.Misuses x span := by
    rw [hwalks.misused, or_iff_right (hclean x span), misusedBy_entered]
  rw [lower_result he, frame_of he, Frame.misuses_iff, creates_entered hwalks.runs, ← hfound,
    or_comm (a := Flow.Misused _ x span), ← or_assoc, ← hwalks.tells x span]
  exact tells_close _ _ _ hwalks.tracks.bounded x span

theorem Lowers.of_walks {e : TExpr} (he : e.isPlain = true)
    (h : ∀ d : Demand, Traverses (lower d.role e) (e.traces · d)) : Lowers e where
  walks := h
  completes Γ := by
    refine completes_of_walks ?_ (h .value)
    rintro i p b rfl
    cases he
  reference := by
    rintro i r rfl
    cases he

/-! ## Forms -/

section

variable {i : Info} {e a b c r v : TExpr}

theorem lowers_lit (i : Info) (value : Literal) : Lowers (.lit i value) := by
  refine .of_walks rfl fun d s Γ ν P hs => ?_
  simpa using (Quiet.pure ∅).walking hs

theorem lowers_failed (i : Info) : Lowers (.failed i) := by
  refine .of_walks rfl fun d s Γ ν P hs => ?_
  simpa using (Quiet.pure ∅).walking hs

theorem lowers_var (i : Info) (x : String) : Lowers (.var i x) := by
  refine .of_walks rfl fun d s Γ ν P hs => ?_
  simp only [lower, closing_role, TExpr.traces, ← decide_useKind]
  exact useVar_walking hs d.role x i.ty i.span

theorem lowers_call (hf : Lowers e) (ha : Lowers a) : Lowers (.call i e a) := by
  refine .of_walks rfl fun d s Γ ν P hs => ?_
  simp only [lower, closing_role, TExpr.traces]
  refine (hf.walks .read hs).bind fun held s' hs' => ?_
  refine (ha.walks .value hs').ends fun value s'' hs'' => ?_
  -- the loans that a call carries are accessed by it, but no local is
  dsimp only
  split
  · exact (Quiet.pure _).walking hs''
  · exact (consume_walking hs'' _ i.span).quiet fun _ => .pure _

theorem lowers_lam (p : Binder) (hb : Lowers b) : Lowers (.lam i p b) where
  walks d s Γ ν P hs := by
    simp only [lower_lam, TExpr.traces]
    exact closure_walking hs (fun locals => hb.completes _) i.span
  completes Γ := by
    rw [lower, Frame.of]
    exact (hb.completes _).declareParam
  reference := by
    intro i r h
    cases h

theorem lowers_letIn (x : Binder) (hv : Lowers v) (hb : Lowers b) : Lowers (.letIn i x v b) := by
  refine .of_walks rfl fun d s Γ ν P hs => ?_
  simp only [lower, closing_role, inner_role, TExpr.traces]
  refine (hv.walks .value hs).bind fun held s' hs' => ?_
  refine .rests_bind hs' (enterScope_quiet s') fun hin => ?_
  have hdecl := declare_declares hin x.name x.ty x.span held
  have hbody := hb.walks d hdecl.tracks
  exact hdecl.walks hbody (leaveScope_leaves s' _ _ _) hin

theorem lowers_cond (hc : Lowers c) (ha : Lowers a) (hb : Lowers b) : Lowers (.cond i c a b) := by
  refine .of_walks rfl fun d s Γ ν P hs => ?_
  simp only [lower, closing_role, inner_role, TExpr.traces]
  refine (hc.walks .read hs).bind fun _ s' hs' => ?_
  have hfirst := ha.walks d hs'
  have hsecond := hb.walks d (Walks.back hfirst hs')
  exact Walks.join hfirst hsecond

theorem lowers_binary (op : BinOp) (ha : Lowers a) (hb : Lowers b) :
    Lowers (.binary i op a b) := by
  refine .of_walks rfl fun d s Γ ν P hs => ?_
  simp only [lower, closing_role, TExpr.traces]
  refine (ha.walks .read hs).bind fun _ s' hs' => ?_
  exact (hb.walks .read hs').quiet fun _ => .pure _

theorem lowers_unary (op : UnOp) (ha : Lowers a) : Lowers (.unary i op a) := by
  refine .of_walks rfl fun d s Γ ν P hs => ?_
  simp only [lower, closing_role, TExpr.traces]
  exact (ha.walks .read hs).quiet fun _ => .pure _

/-- A local is borrowed under its name; what a reference leads to is borrowed through it; and any
other value is handed over first. -/
theorem lowers_borrow (kind : BorrowKind) (ha : Lowers a) : Lowers (.borrow i kind a) := by
  refine .of_walks rfl fun d s Γ ν P hs => ?_
  cases a with
  | var j x =>
    simp only [lower, closing_role, TExpr.traces]
    exact borrowVar_walking hs kind x i.span
  | deref j r =>
    simp only [lower, closing_role, TExpr.traces]
    refine (ha.reference j r rfl hs).quiet fun held => ?_
    split
    · exact (report_quiet .aliasedMutation rfl nofun).bind fun _ => .pure _
    · exact .pure _
  | _ =>
    simp only [lower, closing_role, TExpr.traces]
    exact ha.walks .value hs

theorem lowers_deref (hr : Lowers r) : Lowers (.deref i r) := by
  have hwalks : ∀ d : Demand,
      Traverses (lower d.role (.deref i r)) (TExpr.traces · d (.deref i r)) := by
    intro d s Γ ν P hs
    simp only [lower, closing_role, TExpr.traces]
    refine (hr.walks .read hs).quiet fun held => ?_
    split
    · exact (report_quiet .moveOutOfBorrow rfl nofun).bind fun _ => .pure _
    · exact .pure _
  refine ⟨hwalks, fun Γ => completes_of_walks nofun (hwalks .value), fun j r' h => ?_⟩
  cases h
  exact hr.walks .read

theorem lowers_assign (ha : Lowers a) (hv : Lowers v) : Lowers (.assign i a v) := by
  refine .of_walks rfl fun d s Γ ν P hs => ?_
  cases a with
  | var j x =>
    simp only [lower, closing_role, TExpr.traces]
    refine (hv.walks .value hs).bind fun value s' hs' => ?_
    exact (assignVar_walking hs' x value i.span j.span).quiet fun _ => .pure _
  | deref j r =>
    simp only [lower, closing_role, TExpr.traces]
    refine (hv.walks .value hs).bind fun value s' hs' => ?_
    exact (ha.reference j r rfl hs').quiet fun held =>
      (assignThrough_quiet r held value i.span).bind fun _ => .pure _
  | _ =>
    simp only [lower, closing_role, TExpr.traces]
    exact (hv.walks .value hs).quiet fun _ => .pure _

theorem lowerAll_walking {es : List TExpr} (h : ∀ e ∈ es, Lowers e)
    (hs : s.activation.Tracks Γ ν P) :
    s.Walking (lowerAll es) Γ ν P (TExpr.tracesAll Γ es) := by
  induction es generalizing s P with
  | nil => exact (Quiet.pure _).walking hs
  | cons e es ih =>
    simp only [List.mem_cons, forall_eq_or_imp] at h
    rw [lowerAll, TExpr.tracesAll]
    refine (h.1.walks .value hs).bind fun held s' hs' => ?_
    exact (ih h.2 hs').quiet fun _ => .pure _

theorem lowerSeq_walking {es : List TExpr} (h : ∀ e ∈ es, Lowers e) (d : Demand)
    (hs : s.activation.Tracks Γ ν P) :
    s.Walking (lowerSeq d.role es) Γ ν P (TExpr.tracesSeq Γ d es) := by
  induction es generalizing s P with
  | nil => exact (Quiet.pure _).walking hs
  | cons e es ih =>
    simp only [List.mem_cons, forall_eq_or_imp] at h
    cases es with
    | nil =>
      rw [lowerSeq, TExpr.tracesSeq]
      exact h.1.walks d hs
    | cons f es =>
      rw [lowerSeq, TExpr.tracesSeq]
      exact (h.1.walks .read hs).bind fun _ s' hs' => ih (by simpa using h.2) hs'

theorem lowers_seq {items : List TExpr} (h : ∀ e ∈ items, Lowers e) : Lowers (.seq i items) := by
  refine .of_walks rfl fun d s Γ ν P hs => ?_
  simp only [lower, closing_role, inner_role, TExpr.traces]
  exact lowerSeq_walking h d hs

theorem lowers_tuple {items : List TExpr} (h : ∀ e ∈ items, Lowers e) :
    Lowers (.tuple i items) := by
  refine .of_walks rfl fun d s Γ ν P hs => ?_
  simp only [lower, closing_role, TExpr.traces]
  exact lowerAll_walking h hs

theorem lowers_construct (typeName variant : String) {args : List TExpr}
    (h : ∀ e ∈ args, Lowers e) : Lowers (.construct i typeName variant args) := by
  refine .of_walks rfl fun d s Γ ν P hs => ?_
  simp only [lower, closing_role, TExpr.traces]
  exact lowerAll_walking h hs

end

/-! ## Arms -/

/-- The walk over an arm in a scope of its own. The answer is its value, and the points from which
the next arm may be entered. -/
def arm (role : Role) (held : Loans) (entry : SortedSet Nat) (a : TArm) :
    LowerM (Loans × SortedSet Nat) := do
  let outer ← enterScope
  let (value, entry) ← lowerArm role held entry a
  leaveScope outer value a.body.span
  return (value, entry)

/-- A state behind an arm: the runs that select it end there, and `entry` is where those go on that
pass it over. -/
structure WalksArm (s s' : Lowering) (entry : SortedSet Nat) (Γ : Scope) (ν : Nat → Nat)
    (P : Set Trace) (T passed : Traces) : Prop where
  walks : s.Walks s' Γ ν P T
  next : (s'.goTo entry).activation.Tracks Γ ν (passed.after P)
  creates : ∀ x span, passed.Creates x span → T.Creates x span

/-- Whether an arm is walked as its traces say. -/
def LowersArm (a : TArm) : Prop :=
  ∀ (d : Demand) (held : Loans) {s : Lowering} {Γ : Scope} {ν : Nat → Nat} {P : Set Trace},
    s.activation.Tracks Γ ν P →
      s.WalksArm (arm d.role held s.activation.frontier a s).2
        (arm d.role held s.activation.frontier a s).1.2 Γ ν P (TExpr.tracesArm Γ d a)
        (TExpr.tracesPassed Γ a)

theorem lowersArm_unguarded (p : TPattern) {b : TExpr} (hb : Lowers b) :
    LowersArm (.mk p none b) := by
  intro d held s Γ ν P hs
  have hwalks : s.Walking (arm d.role held s.activation.frontier (.mk p none b)) Γ ν P
      (TExpr.tracesArm Γ d (.mk p none b)) := by
    refine .rests_bind hs (enterScope_quiet s) fun hin => ?_
    obtain ⟨ν', hdecl⟩ := declarePattern_declares hin p held
    exact hdecl.walks (hb.walks d hdecl.tracks) (leaveScope_leaves s _ _ _) hin
  refine ⟨hwalks, ?_, fun x span hx => absurd hx not_creates_nil⟩
  rw [TExpr.tracesPassed, Traces.after_nil]
  exact Walks.back hwalks hs

/-- When a guard fails, it has been evaluated. -/
theorem lowersArm_guarded (p : TPattern) {g b : TExpr} (hg : Lowers g) (hb : Lowers b) :
    LowersArm (.mk p (some g) b) := by
  intro d held s Γ ν P hs
  have hin := hs.rests (enterScope_quiet s).activation
  obtain ⟨ν', hdecl⟩ := declarePattern_declares hin p held
  have hguard := hg.walks .read hdecl.tracks
  have hbody := hb.walks d hguard.tracks
  let final := lower d.role b (lower .read g (declarePattern p held s.enterScope.2).2).2
  have hleave := leaveScope_leaves s final.2 final.1 b.span
  have hwalks : s.Walking (arm d.role held s.activation.frontier (.mk p (some g) b)) Γ ν P
      (TExpr.tracesArm Γ d (.mk p (some g) b)) :=
    .rests_bind hs (enterScope_quiet s) fun hin =>
      hdecl.walks (Walks.trans hguard hbody) hleave hin
  -- the runs in which the guard fails are those that the selected ones go on with
  have hpassed : Traces.after (TExpr.tracesPassed Γ (.mk p (some g) b)) P =
      P ∪ (g.traces (Γ.bindNames p.bindings) .read).after
        ((Γ.defines p.bindings.length).after P) := by
    rw [TExpr.tracesPassed, ← List.singleton_append, Traces.after_append, Traces.after_nil,
      Traces.after_followedBy]
  have hfailed := (hguard.tracks.reflects.restrict hdecl.length hdecl.agree).later
    (hbody.later.trans hleave.activation.extends)
  refine ⟨hwalks, ?_, fun x span hx => ?_⟩
  · rw [hpassed]
    refine Walks.tracks_goTo hwalks ((hs.reflects.later hwalks.later).union hfailed)
      hs.nonempty.inl fun x span hx => (hwalks.misused x span).2 ?_
    obtain ⟨t, ht | ht, hx⟩ := hx
    · exact .inl (hs.found x span ⟨t, ht, hx⟩)
    · rw [TExpr.tracesArm, Traces.after_followedBy, Traces.after_followedBy]
      exact .inr (MisusedBy.after ⟨t, ht, hx⟩ hbody.runs)
  · rw [TExpr.tracesPassed, ← List.singleton_append, Traces.creates_append,
      or_iff_right not_creates_nil, Traces.creates_followedBy hdecl.runs hguard.runs] at hx
    rw [TExpr.tracesArm, Traces.creates_followedBy hdecl.runs (Walks.trans hguard hbody).runs,
      Traces.creates_followedBy hguard.runs hbody.runs]
    exact hx.imp_right .inl

/-- A state behind some arms: besides the runs that have come there already, it is reached by those
that select one of the arms. -/
structure WalksArms (s s' : Lowering) (Γ : Scope) (ν : Nat → Nat) (done P : Set Trace)
    (T : Traces) : Prop where
  later : s.activation.flow.Extends s'.activation.flow
  places : s'.activation.Places Γ ν
  bounded : s'.activation.flow.Bounded
  reflects : s'.activation.flow.Reflects s'.activation.frontier Γ.length ν (done ∪ T.after P)
  misused : ∀ x span, s'.activation.flow.Misused x span ↔
    s.activation.flow.Misused x span ∨ MisusedBy (T.after P) x span
  tells : ∀ x span, s'.Tells x span ↔ s.Tells x span ∨ T.Creates x span

/-- Behind no more arms there are only the runs that have come there already. -/
theorem walksArms_nil {entry exits : SortedSet Nat} {done : Set Trace}
    (hs : (s.goTo entry).activation.Tracks Γ ν P)
    (hexits : s.activation.flow.Reflects exits Γ.length ν done) :
    s.WalksArms (s.goTo exits) Γ ν done P [] where
  later := .refl _
  places := hs.places.later (.refl _) rfl
  bounded := hs.bounded
  reflects := by
    rw [Traces.nil_after, Set.union_empty]
    exact hexits
  misused x span := by simp [MisusedBy, goTo]
  tells x span := by simp [Traces.Creates, goTo, Tells]

/-- The runs that pass over an arm go on to the next ones. -/
theorem WalksArm.cons {entry next : SortedSet Nat} {done : Set Trace} {passed : Traces}
    (h : (s.goTo entry).WalksArm s' next Γ ν P T passed)
    (h' : s'.WalksArms s'' Γ ν (done ∪ T.after P) (passed.after P) U) :
    s.WalksArms s'' Γ ν done P (T ++ passed.followedBy U) where
  later := h.walks.later.trans h'.later
  places := h'.places
  bounded := h'.bounded
  reflects := by
    rw [Traces.after_append, Traces.after_followedBy, ← Set.union_assoc]
    exact h'.reflects
  misused x span := by
    rw [h'.misused, h.walks.misused, or_assoc, Traces.after_append, Traces.after_followedBy,
      misusedBy_union]
    rfl
  tells x span := by
    rw [h'.tells, h.walks.tells, or_assoc, Traces.creates_append]
    refine or_congr_right ?_
    rcases eq_or_ne U [] with rfl | hU
    · rw [Traces.followedBy_none]
    · have hpassed : passed ≠ [] := by
        rintro rfl
        exact Set.not_nonempty_empty (Traces.nil_after P ▸ h.next.nonempty)
      rw [Traces.creates_followedBy hpassed hU, ← or_assoc, or_iff_left_of_imp (h.creates x span)]

/-- If there are arms at all, one of them is selected. -/
theorem WalksArms.walks (h : s.WalksArms s' Γ ν ∅ P T) (hT : T ≠ []) (hP : P.Nonempty) :
    s.Walks s' Γ ν P T where
  runs := hT
  later := h.later
  tracks := by
    have hreflects := h.reflects
    rw [Set.empty_union] at hreflects
    exact ⟨h.places, h.bounded, hreflects, fun x span hx => (h.misused x span).2 (.inr hx),
      Traces.after_nonempty hP hT⟩
  misused := h.misused
  tells := h.tells

theorem lowerArms_walks {arms : List TArm} (h : ∀ a ∈ arms, LowersArm a) (d : Demand)
    (held : Loans) {entry exits : SortedSet Nat} {done : Set Trace}
    (hs : (s.goTo entry).activation.Tracks Γ ν P)
    (hexits : s.activation.flow.Reflects exits Γ.length ν done) :
    s.WalksArms (lowerArms d.role held entry exits arms s).2 Γ ν done P
      (TExpr.tracesArms Γ d arms) := by
  induction arms generalizing s entry exits done P with
  | nil => exact walksArms_nil hs hexits
  | cons a arms ih =>
    simp only [List.mem_cons, forall_eq_or_imp] at h
    have hfirst := h.1 d held hs
    have hexit := (hexits.later hfirst.walks.later).union hfirst.walks.tracks.reflects
    exact hfirst.cons (ih h.2 hfirst.next hexit)

theorem lowers_matchOn {i : Info} {e : TExpr} {arms : List TArm} (tree : Option DecisionTree)
    (he : Lowers e) (h : ∀ a ∈ arms, LowersArm a) : Lowers (.matchOn i e arms tree) := by
  refine .of_walks rfl fun d s Γ ν P hs => ?_
  simp only [lower, closing_role, inner_role, TExpr.traces]
  refine (he.walks (TArm.scrutineeDemand arms) hs).bind fun held s' hs' => ?_
  cases arms with
  | nil =>
    have hrests : s'.Rests ((s'.goTo ∅).goTo s'.activation.frontier) :=
      ⟨⟨rfl, rfl, List.prefix_refl _, rfl, rfl⟩, fun _ _ => Iff.rfl⟩
    exact hrests.walks hs'
  | cons a arms =>
    have harms := lowerArms_walks h d held hs' (.empty _ _ _)
    have hruns : TExpr.tracesArms Γ d (a :: arms) ≠ [] := by
      rw [TExpr.tracesArms]
      exact List.append_ne_nil_of_left_ne_nil (h a List.mem_cons_self d held hs').walks.runs _
    exact harms.walks hruns hs'.nonempty

/-! ## Functions -/

mutual

/-- Every expression is walked as its traces say. -/
theorem lowers : (e : TExpr) → Lowers e
  | .lit i value => lowers_lit i value
  | .var i x => lowers_var i x
  | .call _ f a => lowers_call (lowers f) (lowers a)
  | .lam _ p b => lowers_lam p (lowers b)
  | .letIn _ x v b => lowers_letIn x (lowers v) (lowers b)
  | .seq _ items => lowers_seq (lowersList items)
  | .cond _ c t e => lowers_cond (lowers c) (lowers t) (lowers e)
  | .matchOn _ e arms tree => lowers_matchOn tree (lowers e) (lowersArms arms)
  | .tuple _ items => lowers_tuple (lowersList items)
  | .construct _ t v args => lowers_construct t v (lowersList args)
  | .binary _ op a b => lowers_binary op (lowers a) (lowers b)
  | .unary _ op a => lowers_unary op (lowers a)
  | .borrow _ kind a => lowers_borrow kind (lowers a)
  | .deref _ r => lowers_deref (lowers r)
  | .assign _ a v => lowers_assign (lowers a) (lowers v)
  | .failed i => lowers_failed i

theorem lowersList : (es : List TExpr) → ∀ e ∈ es, Lowers e
  | [] => nofun
  | e :: es => List.forall_mem_cons.2 ⟨lowers e, lowersList es⟩

theorem lowersArm : (a : TArm) → LowersArm a
  | .mk p (some g) b => lowersArm_guarded p (lowers g) (lowers b)
  | .mk p none b => lowersArm_unguarded p (lowers b)

theorem lowersArms : (arms : List TArm) → ∀ a ∈ arms, LowersArm a
  | [] => nofun
  | a :: arms => List.forall_mem_cons.2 ⟨lowersArm a, lowersArms arms⟩

end

/-- Walking the body of a function as its result tells what the function and its closures misuse. -/
theorem tells_iff (e : TExpr) (name : String) (span : Span) :
    (lower .result e ⟨.empty, []⟩).2.Tells name span ↔ (Frame.of [] e).Misuses name span := by
  have hstart : Activation.empty.Tracks [] id (entered []) := by
    simpa [entered, Scope.defines, Traces.after_nil] using empty_tracks id
  rw [(lowers e).completes [] ⟨.empty, []⟩ id hstart (fun _ _ => not_misused_empty) name span]
  exact or_iff_right (by simp [Tells])

end Lowering

/-- The check of a function tells that a local is used at some place after it has been moved just if
a run of the function, or of one of the closures that come to be created, has moved it there without
a new value since. -/
theorem TFunction.checkOwnership_tellsMisuse_iff (f : TFunction) (name : String) (span : Span) :
    (∃ d ∈ f.checkOwnership.2, d.TellsMisuse name span) ↔
      (Frame.of [] f.body).Misuses name span :=
  Lowering.tells_iff f.body name span

end RowCheck
