import RowCheck.Infer.Definitions
import RowCheck.Infer.Group
import RowCheck.Proofs.Ownership.Blame
import RowCheck.Proofs.Ownership.Lower

/-!
Conflicts of borrows in a function. Whatever conflict is reported is found in the flow of the function
or of a closure that comes to be created, between an access and a loan of which a run of that flow goes
on to a use. What a local may carry there are the loans of all values that it is given anywhere, so
the loan need not have been made before the access.
-/
namespace RowCheck
namespace Lowering

variable {s s' s'' : Lowering} {Γ : Scope} {ν : Nat → Nat} {P : Set Trace} {T U : Traces}

/-! ## Activations -/

/-- Whatever locals are in scope, runs come there. -/
theorem exists_tracks (Γ : Scope) :
    ∃ (s : Lowering) (ν : Nat → Nat) (P : Set Trace), s.activation.Tracks Γ ν P := by
  induction Γ with
  | nil => exact ⟨⟨.empty, []⟩, id, {[]}, empty_tracks id⟩
  | cons x Γ ih =>
    obtain ⟨s, ν, P, hs⟩ := ih
    exact ⟨_, _, _, (declare_declares hs x.1 x.2 default ∅).tracks⟩

theorem defines_ne_nil (Γ : Scope) (count : Nat) : Γ.defines count ≠ [] := by
  simp [Scope.defines]

theorem traces_ne_nil (Γ : Scope) (d : Demand) (e : TExpr) : e.traces Γ d ≠ [] := by
  obtain ⟨s, ν, P, hs⟩ := exists_tracks Γ
  exact ((lowers e).walks d hs).runs

theorem tracesAll_ne_nil (Γ : Scope) (es : List TExpr) : TExpr.tracesAll Γ es ≠ [] := by
  obtain ⟨s, ν, P, hs⟩ := exists_tracks Γ
  exact (lowerAll_walking (fun e _ => lowers e) hs).runs

theorem tracesSeq_ne_nil (Γ : Scope) (d : Demand) (es : List TExpr) :
    TExpr.tracesSeq Γ d es ≠ [] := by
  obtain ⟨s, ν, P, hs⟩ := exists_tracks Γ
  exact (lowerSeq_walking (fun e _ => lowers e) d hs).runs

theorem tracesArm_ne_nil (Γ : Scope) (d : Demand) (a : TArm) : TExpr.tracesArm Γ d a ≠ [] := by
  obtain ⟨s, ν, P, hs⟩ := exists_tracks Γ
  exact (lowersArm a d ∅ hs).walks.runs

theorem tracesPassed_ne_nil (Γ : Scope) (a : TArm) : TExpr.tracesPassed Γ a ≠ [] := by
  rcases a with ⟨p, _ | g, b⟩ <;> simp [TExpr.tracesPassed]

/-- If there are no arms, a match ends behind its scrutinee. -/
theorem tracesArms_ne_nil (Γ : Scope) (d : Demand) (arms : List TArm) :
    (if arms.isEmpty then [[]] else TExpr.tracesArms Γ d arms) ≠ [] := by
  cases arms with
  | nil => simp
  | cons a arms =>
    rw [List.isEmpty_cons, if_neg Bool.false_ne_true, TExpr.tracesArms]
    exact List.append_ne_nil_of_left_ne_nil (tracesArm_ne_nil Γ d a) _

theorem Blames.realizes (h : s.Blames s' P T) (hT : T ≠ []) (hs : s.Led P)
    (hruns : s.activation.flow.Realizes P) : s'.activation.flow.Realizes (T.after P) := by
  intro t ht
  rcases h.runs t ht with hold | hnew
  · obtain ⟨u, hu, hpasses⟩ := hruns t (h.later.isRun ht hold)
    obtain ⟨w, hw⟩ := List.exists_mem_of_ne_nil T hT
    exact ⟨u ++ w, ⟨u, hu, w, hw, rfl⟩, (hpasses.later h.later hs.bounded).append w⟩
  · exact hnew

theorem led_start (faults : List Diagnostic) : Led ⟨.empty, faults⟩ {[]} where
  bounded := (empty_tracks id).bounded
  forward := by
    intro j p hj
    simp [Activation.empty, Flow.empty] at hj
  within := (empty_tracks id).reflects.within
  ends := Flow.ends_empty _
  idle _ := ⟨[], rfl, .nil⟩

theorem realizes_start : Flow.empty.Realizes {[]} := by
  intro t ht
  cases t with
  | nil => exact ⟨[], rfl, Flow.Follows.nil.passes⟩
  | cons i t => exact absurd (ht.lt_size i List.mem_cons_self) (Nat.not_lt_zero i)

/-- The runs that have got to the body of an activation have got as far as a state in which nothing
but its locals is there. -/
theorem Entered.stands (h : Entered Γ s) :
    (∃ ν, s.Stands Γ ν (entered Γ)) ∧ s.activation.flow.Realizes (entered Γ) := by
  induction h with
  | start faults =>
    have hentered : entered [] = {[]} := by simp [entered, Scope.defines]
    rw [hentered]
    exact ⟨⟨id, empty_tracks id, led_start faults⟩, realizes_start⟩
  | @declare Γ s name t span _ ih =>
    obtain ⟨⟨ν, hs⟩, hruns⟩ := ih
    have hblames := declare_blames hs.led Γ name t span ∅
    rw [entered_cons]
    exact ⟨⟨_, (declare_declares hs.tracks name t span ∅).tracks, hblames.led⟩,
      hblames.realizes (by simp [Scope.defines]) hs.led hruns⟩

/-- The locals of a closure come into scope in the order in which they were taken. -/
def declareLocals (xs : List Local) : LowerM Unit := do
  for x in xs do
    declare x.name x.ty x.span ∅

theorem Entered.declareLocals (xs : List Local) (h : Entered Γ s) :
    Entered ((xs.map fun x => (x.name, x.ty)).reverse ++ Γ) (declareLocals xs s).2 ∧
      (declareLocals xs s).2.faults = s.faults := by
  induction xs generalizing s Γ with
  | nil => exact ⟨h, rfl⟩
  | cons x xs ih =>
    have hsame : Lowering.declareLocals (x :: xs) s =
        Lowering.declareLocals xs (Lowering.declare x.name x.ty x.span ∅ s).2 := by
      rw [Lowering.declareLocals, List.forIn_cons]
      rfl
    rw [hsame, List.map_cons, List.reverse_cons, List.append_assoc]
    exact ih (h.declare x.name x.ty x.span)

/-- Whether an action walks the rest of an activation, once some locals of it have come into scope:
all conflicts it finds are those of the activation. -/
def Blaming {α : Type} (m : LowerM α) (Γ : Scope) (g : Frame) : Prop :=
  ∀ s, Entered Γ s → ∀ d ∈ (m s).2.faults, d.category = .conflictingBorrow →
    d ∈ s.faults ∨ g.Conflicts d

theorem Blaming.declareParam {α : Type} {m : LowerM α} {p : Binder} {g : Frame}
    (h : Blaming m ((p.name, p.ty) :: Γ) g) : Blaming (do Lowering.declareParam p; m) Γ g :=
  fun _ hs => h _ (hs.declare p.name p.ty p.span)

/-- Whether two states are in the same activation. -/
def SameActivation (s s' : Lowering) : Prop := s'.activation = s.activation

instance : Std.Refl SameActivation := ⟨fun _ => rfl⟩

instance : IsTrans Lowering SameActivation := ⟨fun _ _ _ h h' => Eq.trans h' h⟩

theorem checkEscape_same (value : Loans) (position : Span) :
    Obeys SameActivation (checkEscape value position) := by
  unfold checkEscape
  refine (Obeys.forIn _ _ fun _ _ => Obeys.get.bind fun _ => ?_).bind fun _ => .pure _
  dsimp only
  split
  · exact Obeys.bind (activation_report _) fun _ => .pure _
  · exact .pure _

theorem mem_faults_forIn_report (ds : List Diagnostic) {d : Diagnostic}
    (h : d ∈ (forIn ds PUnit.unit (fun d _ => do
      report d
      pure (ForInStep.yield PUnit.unit)) s).2.faults) : d ∈ s.faults ∨ d ∈ ds := by
  induction ds generalizing s with
  | nil => exact .inl h
  | cons e ds ih =>
    rw [List.forIn_cons] at h
    rcases ih h with h | h
    · rcases mem_faults_report h with h | rfl
      · exact .inl h
      · exact .inr List.mem_cons_self
    · exact .inr (List.mem_cons_of_mem _ h)

/-- At the end of an activation the conflicts in its flow are reported. -/
theorem conflicts_close {d : Diagnostic} (value : Loans) (position : Span)
    (h : d ∈ (close value position s).2.faults) (hc : d.category = .conflictingBorrow) :
    d ∈ s.faults ∨ d ∈ s.activation.flow.conflictFaults := by
  have hsame : (checkEscape value position s).2.activation = s.activation :=
    checkEscape_same value position s
  have hrun : d ∈ (forIn (checkEscape value position s).2.activation.flow.conflictFaults PUnit.unit
      (fun d _ => do
        report d
        pure (ForInStep.yield PUnit.unit))
      (forIn (checkEscape value position s).2.activation.flow.moveFaults PUnit.unit (fun d _ => do
        report d
        pure (ForInStep.yield PUnit.unit)) (checkEscape value position s).2).2).2.faults := h
  rcases mem_faults_forIn_report _ hrun with hrun | hrun
  · rcases mem_faults_forIn_report _ hrun with hrun | hrun
    · exact .inl ((checkEscape_steady value position s).conflicts d hrun hc)
    · exact absurd (hc.symm.trans (Flow.category_of_mem_moveFaults hrun)) nofun
  · rw [hsame] at hrun
    exact .inr hrun

/-! ## Walking -/

/-- Whether walking an expression adds to the flow what its traces say, and finds no conflicts but
those of closures that come to be created there; and those of the activation, if the expression is
its result. -/
structure Blamed (e : TExpr) : Prop where
  walks : ∀ (d : Demand) ⦃s : Lowering⦄ ⦃Γ : Scope⦄ ⦃ν : Nat → Nat⦄ ⦃P : Set Trace⦄,
    s.Stands Γ ν P → s.Blames (lower d.role e s).2 P (e.traces Γ d)
  completes : ∀ Γ, Blaming (lower .result e) Γ (Frame.of Γ e)

theorem Blamed.stands {e : TExpr} (h : Blamed e) (d : Demand) (hs : s.Stands Γ ν P) :
    (lower d.role e s).2.Stands Γ ν ((e.traces Γ d).after P) :=
  ⟨((lowers e).walks d hs.tracks).tracks, (h.walks d hs).led⟩

/-- The traces of an activation are those of its body, gone on with from where its locals are. -/
theorem after_entered (Γ : Scope) (e : TExpr) :
    (e.traces Γ .value).after (entered Γ) = {u | u ∈ Frame.traces ⟨Γ, e⟩} := by
  ext u
  rw [entered, ← Traces.after_followedBy]
  exact Traces.mem_after_start

/-- All conflicts in an activation are found at its end. -/
theorem blaming_of_walks {e : TExpr} (he : ∀ i p b, e ≠ .lam i p b)
    (h : ∀ ⦃s : Lowering⦄ ⦃ν : Nat → Nat⦄ ⦃P : Set Trace⦄, s.Stands Γ ν P →
      s.Blames (lower .value e s).2 P (e.traces Γ .value)) :
    Blaming (lower .result e) Γ (Frame.of Γ e) := by
  intro s hs d hd hc
  obtain ⟨⟨ν, hstands⟩, hruns⟩ := hs.stands
  have hblames := h hstands
  have hrealizes := hblames.realizes (traces_ne_nil Γ .value e) hstands.led hruns
  rw [after_entered] at hrealizes
  rw [lower_result he] at hd
  rw [frame_of he]
  rcases conflicts_close _ _ hd hc with hd | hd
  · refine (hblames.conflicts d hd hc).imp_right fun hd => Frame.conflicts_of_traces ?_
    exact hd.following (by simp [Scope.defines])
  · exact .inr ⟨_, .refl _, _, ⟨s, hs, rfl⟩, hblames.led.forward, hrealizes, hd⟩

theorem Blamed.of_walks {e : TExpr} (he : ∀ i p b, e ≠ .lam i p b)
    (h : ∀ (d : Demand) ⦃s : Lowering⦄ ⦃Γ : Scope⦄ ⦃ν : Nat → Nat⦄ ⦃P : Set Trace⦄,
      s.Stands Γ ν P → s.Blames (lower d.role e s).2 P (e.traces Γ d)) : Blamed e :=
  ⟨h, fun _ => blaming_of_walks he fun _ _ _ hs => h .value hs⟩

section

variable {i : Info} {e a b c r v : TExpr}

-- what each form does, and what its traces are, is read off the equations of its own
attribute [local simp] lower TExpr.traces

/-- What is walked by itself leads on to what follows, with the traces of both. -/
theorem Blamed.bind {α : Type} {f : Loans → LowerM α} {d : Demand} (h : Blamed e)
    (hs : s.Stands Γ ν P) (hU : U ≠ [])
    (hf : ∀ held (s' : Lowering), s'.Stands Γ ν ((e.traces Γ d).after P) →
      s'.Blames (f held s').2 ((e.traces Γ d).after P) U) :
    s.Blames ((lower d.role e >>= f) s).2 P ((e.traces Γ d).followedBy U) :=
  (h.walks d hs).trans (hf _ _ (h.stands d hs)) (traces_ne_nil Γ d e) hU

/-- What follows may have no traces. -/
theorem Blamed.ends {α : Type} {f : Loans → LowerM α} {d : Demand} (h : Blamed e)
    (hs : s.Stands Γ ν P) (hf : ∀ held (s' : Lowering), s'.Stands Γ ν ((e.traces Γ d).after P) →
      s'.Blames (f held s').2 ((e.traces Γ d).after P) [[]]) :
    s.Blames ((lower d.role e >>= f) s).2 P (e.traces Γ d) := by
  have := h.bind hs (List.cons_ne_nil _ _) hf
  rwa [Traces.followedBy_nil] at this

theorem Blamed.steady {α : Type} {f : Loans → LowerM α} {d : Demand} (h : Blamed e)
    (hs : s.Stands Γ ν P) (hf : ∀ held, Steady (f held)) :
    s.Blames ((lower d.role e >>= f) s).2 P (e.traces Γ d) :=
  (h.walks d hs).steady (hf _)

theorem blamed_lit (i : Info) (value : Literal) : Blamed (.lit i value) :=
  .of_walks nofun fun d _ _ _ _ hs => by
    simpa [closing_role] using Steady.blames (.pure ∅) hs.led

theorem blamed_failed (i : Info) : Blamed (.failed i) :=
  .of_walks nofun fun d _ _ _ _ hs => by
    simpa [closing_role] using Steady.blames (.pure ∅) hs.led

theorem blamed_var (i : Info) (x : String) : Blamed (.var i x) := by
  refine .of_walks nofun fun d s Γ ν P hs => ?_
  simp only [lower, closing_role, TExpr.traces, ← decide_useKind]
  exact useVar_blames hs d.role x i.ty i.span

theorem blamed_call (hf : Blamed e) (ha : Blamed a) : Blamed (.call i e a) := by
  refine .of_walks nofun fun d s Γ ν P hs => ?_
  simp only [lower, closing_role, TExpr.traces]
  refine hf.bind (d := .read) hs (traces_ne_nil Γ .value a) fun held s' hs' => ?_
  refine ha.ends (d := .value) hs' fun value s'' hs'' => ?_
  split
  · exact Steady.blames (.pure _) hs''.led
  · exact (consume_blames hs''.led _ i.span).steady (.pure _)

/-- Each local that a closure takes is used once. -/
theorem capture_blames (span : Span) (names : List String) (hs : s.Stands Γ ν P) :
    s.Blames (capture span names s).2 P
      [(Γ.captures names).map fun c => .use c.1 c.2.1 (!c.2.2.isCopy) span] := by
  induction names generalizing s P with
  | nil => exact .refl hs.led
  | cons name names ih =>
    rw [capture, find?_bind hs.tracks]
    cases hx : Γ.find? name with
    | none =>
      rw [Scope.captures, List.filterMap_cons_none (by rw [hx]; rfl)]
      exact ih hs
    | some found =>
      have hty := (hs.tracks.places.named name found.1 found.2 hx).2
      let used := point (.use (ν found.1)
        (useKind .value (s.activation.flow.localAt (ν found.1)).ty)) span
      have hmove : (!found.2.isCopy) = decide (useKind .value found.2 = .move) :=
        (decide_useKind .value found.2).symm
      have huse : s.Blames (used s).2 P [[.use found.1 name (!found.2.isCopy) span]] := by
        rw [hmove, ← hty]
        exact use_blames hs hx _ span
      have hwalks : s.Walking used Γ ν P [[.use found.1 name (!found.2.isCopy) span]] := by
        rw [hmove, ← hty]
        exact point_walking hs.tracks (Flow.mirrors_use hs.tracks.places hx _ span) (by simp)
      rw [Scope.captures, List.filterMap_cons_some (by rw [hx]; rfl)]
      exact huse.trans (ih ⟨hwalks.tracks, huse.led⟩) (List.cons_ne_nil _ _) (List.cons_ne_nil _ _)

/-- The creation of a closure adds no points. -/
theorem create_blames (hs : s.Led P) {faults : List Diagnostic} {locals : Scope} {body : TExpr}
    (h : ∀ d ∈ faults, d.category = .conflictingBorrow →
      d ∈ s.faults ∨ (Frame.of locals body).Conflicts d) :
    s.Blames { s with faults } P [[.create locals body]] where
  conflicts d hd hc := (h d hd hc).imp_right fun hd =>
    ⟨_, List.mem_singleton_self _, locals, body, List.mem_singleton_self _, hd⟩
  later := .refl _
  led := by
    refine ⟨hs.bounded, hs.forward, hs.within, fun t i hi ht => ?_, fun hidle => ?_⟩
    · obtain ⟨u, hu, hfollows⟩ := hs.ends t i hi ht
      exact ⟨_, Traces.mem_after_singleton.2 ⟨u, hu, rfl⟩, hfollows.create⟩
    · obtain ⟨u, hu, hfollows⟩ := hs.idle hidle
      exact ⟨_, Traces.mem_after_singleton.2 ⟨u, hu, rfl⟩, hfollows.create⟩
  runs _ ht := .inl ht.lt_size

theorem closure_blames (hs : s.Stands Γ ν P) {m : LowerM Unit} {p : Binder} {body : TExpr}
    (hm : ∀ locals, Blaming m ((p.name, p.ty) :: locals)
      (Frame.of ((p.name, p.ty) :: locals) body)) (span : Span) :
    s.Blames (closure p (body.free []) span m s).2 P [Γ.closure p body span] := by
  let names := ((SortedSet.ofList (body.free [])).filter (fun name => name != p.name)).toList
  let taken := capture span names s
  have hlocals : taken.1.1.map (fun x => (x.name, x.ty)) = (Γ.captures names).map (·.2) :=
    (capture_walking span names hs.tracks).2
  have htaken := capture_blames span names hs
  -- the activation of the closure begins with the faults that have been found so far
  have hstart : Entered [] { taken.2 with activation := .empty } := .start taken.2.faults
  obtain ⟨hentered, hfaults⟩ := hstart.declareLocals taken.1.1
  rw [List.append_nil, hlocals] at hentered
  refine htaken.trans (create_blames htaken.led fun d hd hc => ?_) (List.cons_ne_nil _ _)
    (List.cons_ne_nil _ _)
  exact ((hm _).declareParam _ hentered d hd hc).imp_left fun hd => hfaults ▸ hd

theorem blamed_lam (p : Binder) (hb : Blamed b) : Blamed (.lam i p b) where
  walks d s Γ ν P hs := by
    simp only [lower_lam, TExpr.traces]
    exact closure_blames hs (fun locals => hb.completes _) i.span
  completes Γ := by
    rw [lower, Frame.of]
    exact (hb.completes _).declareParam

theorem blamed_letIn (x : Binder) (hv : Blamed v) (hb : Blamed b) : Blamed (.letIn i x v b) := by
  refine .of_walks nofun fun d s Γ ν P hs => ?_
  simp only [lower, closing_role, inner_role, TExpr.traces]
  have hdefines := defines_ne_nil Γ 1
  have hbody := traces_ne_nil ((x.name, x.ty) :: Γ) d b
  refine hv.bind (d := .value) hs (Traces.followedBy_ne_nil hdefines hbody) ?_
  intro held s' hs'
  have hin := hs'.tracks.rests (enterScope_quiet s').activation
  have hled := (enterScope_steady s').led hs'.led
  have hdecl := declare_blames hled Γ x.name x.ty x.span held
  have htracks := (declare_declares hin x.name x.ty x.span held).tracks
  refine (enterScope_steady s').blames (hdecl.trans ?_ hdefines hbody)
  exact hb.steady ⟨htracks, hdecl.led⟩ fun value => (leaveScope_steady _ value _).bind fun _ => .pure _

theorem blamed_cond (hc : Blamed c) (ha : Blamed a) (hb : Blamed b) : Blamed (.cond i c a b) := by
  refine .of_walks nofun fun d s Γ ν P hs => ?_
  simp only [lower, closing_role, inner_role, TExpr.traces]
  have hruns : a.traces Γ d ++ b.traces Γ d ≠ [] :=
    List.append_ne_nil_of_left_ne_nil (traces_ne_nil Γ d a) _
  refine hc.bind (d := .read) hs hruns fun _ s' hs' => ?_
  have hfirst := ha.walks d hs'
  have htracks := Walks.back ((lowers a).walks d hs'.tracks) hs'.tracks
  exact hfirst.join (hb.walks d ⟨htracks, hfirst.back hs'.led⟩)

theorem blamed_binary (op : BinOp) (ha : Blamed a) (hb : Blamed b) : Blamed (.binary i op a b) := by
  refine .of_walks nofun fun d s Γ ν P hs => ?_
  simp only [lower, closing_role, TExpr.traces]
  exact ha.bind (d := .read) hs (traces_ne_nil Γ .read b) fun _ s' hs' =>
    hb.steady (d := .read) hs' fun _ => .pure _

theorem blamed_unary (op : UnOp) (ha : Blamed a) : Blamed (.unary i op a) := by
  refine .of_walks nofun fun d s Γ ν P hs => ?_
  simp only [lower, closing_role, TExpr.traces]
  exact ha.steady (d := .read) hs fun _ => .pure _

/-- A dereference that is only inspected is walked as the reference is. -/
theorem Blamed.reference {α : Type} {f : Loans → LowerM α} (h : Blamed (.deref i r))
    (hs : s.Stands Γ ν P) (hf : ∀ held, Steady (f held)) :
    s.Blames ((lower .read r >>= f) s).2 P (r.traces Γ .read) := by
  have hread : ∀ span (m : LowerM Loans), closing .read span m = m := closing_role .read
  have hwalks : s.Blames (lower .read r s).2 P (r.traces Γ .read) := by
    have := h.walks .read hs
    rw [show Demand.role .read = Role.read from rfl, lower, hread, TExpr.traces] at this
    exact this
  exact hwalks.steady (hf _)

theorem blamed_borrow (kind : BorrowKind) (ha : Blamed a) : Blamed (.borrow i kind a) := by
  refine .of_walks nofun fun d s Γ ν P hs => ?_
  cases a with
  | var j x =>
    simp only [lower, closing_role, TExpr.traces]
    exact borrowVar_blames hs kind x i.span
  | deref j r =>
    simp only [lower, closing_role, TExpr.traces]
    refine ha.reference hs fun held => ?_
    split
    · exact (report_steady .aliasedMutation rfl nofun).bind fun _ => .pure _
    · exact .pure _
  | _ =>
    simp only [lower, closing_role, TExpr.traces]
    exact ha.walks .value hs

theorem blamed_deref (hr : Blamed r) : Blamed (.deref i r) := by
  refine .of_walks nofun fun d s Γ ν P hs => ?_
  simp only [lower, closing_role, TExpr.traces]
  refine hr.steady (d := .read) hs fun held => ?_
  split
  · exact (report_steady .moveOutOfBorrow rfl nofun).bind fun _ => .pure _
  · exact .pure _

theorem blamed_assign (ha : Blamed a) (hv : Blamed v) : Blamed (.assign i a v) := by
  refine .of_walks nofun fun d s Γ ν P hs => ?_
  cases a with
  | var j x =>
    simp only [lower, closing_role, TExpr.traces]
    exact hv.bind (d := .value) hs (List.cons_ne_nil _ _) fun value s' hs' =>
      (assignVar_blames hs' x value i.span j.span).steady (.pure _)
  | deref j r =>
    simp only [lower, closing_role, TExpr.traces]
    exact hv.bind (d := .value) hs (traces_ne_nil Γ .read r) fun value s' hs' =>
      ha.reference hs' fun held =>
        (assignThrough_steady r held value i.span).bind fun _ => .pure _
  | _ =>
    simp only [lower, closing_role, TExpr.traces]
    exact hv.steady (d := .value) hs fun _ => .pure _

theorem lowerAll_blames {es : List TExpr} (h : ∀ e ∈ es, Blamed e) (hs : s.Stands Γ ν P) :
    s.Blames (lowerAll es s).2 P (TExpr.tracesAll Γ es) := by
  induction es generalizing s P with
  | nil => exact .refl hs.led
  | cons e es ih =>
    simp only [List.mem_cons, forall_eq_or_imp] at h
    rw [lowerAll, TExpr.tracesAll]
    exact h.1.bind (d := .value) hs (tracesAll_ne_nil Γ es) fun held s' hs' =>
      (ih h.2 hs').steady (.pure _)

theorem lowerSeq_blames {es : List TExpr} (h : ∀ e ∈ es, Blamed e) (d : Demand)
    (hs : s.Stands Γ ν P) : s.Blames (lowerSeq d.role es s).2 P (TExpr.tracesSeq Γ d es) := by
  induction es generalizing s P with
  | nil => exact .refl hs.led
  | cons e es ih =>
    simp only [List.mem_cons, forall_eq_or_imp] at h
    cases es with
    | nil =>
      rw [lowerSeq, TExpr.tracesSeq]
      exact h.1.walks d hs
    | cons f es =>
      rw [lowerSeq, TExpr.tracesSeq]
      exact h.1.bind (d := .read) hs (tracesSeq_ne_nil Γ d (f :: es)) fun _ s' hs' =>
        ih (by simpa using h.2) hs'

theorem blamed_seq {items : List TExpr} (h : ∀ e ∈ items, Blamed e) : Blamed (.seq i items) := by
  refine .of_walks nofun fun d s Γ ν P hs => ?_
  simp only [lower, closing_role, inner_role, TExpr.traces]
  exact lowerSeq_blames h d hs

theorem blamed_tuple {items : List TExpr} (h : ∀ e ∈ items, Blamed e) :
    Blamed (.tuple i items) := by
  refine .of_walks nofun fun d s Γ ν P hs => ?_
  simp only [lower, closing_role, TExpr.traces]
  exact lowerAll_blames h hs

theorem blamed_construct (typeName variant : String) {args : List TExpr}
    (h : ∀ e ∈ args, Blamed e) : Blamed (.construct i typeName variant args) := by
  refine .of_walks nofun fun d s Γ ν P hs => ?_
  simp only [lower, closing_role, TExpr.traces]
  exact lowerAll_blames h hs

end

/-! ## Arms -/

/-- Whether walking an arm adds to the flow what its traces say. The runs that pass it over go on from
the points that are the answer. -/
def BlamedArm (a : TArm) : Prop :=
  ∀ (d : Demand) (held : Loans) ⦃s : Lowering⦄ ⦃Γ : Scope⦄ ⦃ν : Nat → Nat⦄ ⦃P : Set Trace⦄,
    s.Stands Γ ν P →
      s.Blames (arm d.role held s.activation.frontier a s).2 P (TExpr.tracesArm Γ d a) ∧
      ((arm d.role held s.activation.frontier a s).2.goTo
        (arm d.role held s.activation.frontier a s).1.2).Led ((TExpr.tracesPassed Γ a).after P)

/-- The names of a pattern come into scope from left to right. -/
theorem declarePattern_stands (hs : s.Stands Γ ν P) (p : TPattern) (held : Loans) :
    ∃ ν', (declarePattern p held s).2.Stands (Γ.bindNames p.bindings) ν'
        ((Γ.defines p.bindings.length).after P) ∧
      s.Blames (declarePattern p held s).2 P (Γ.defines p.bindings.length) := by
  suffices h : ∀ (names : List (String × Ty × Span)) (s : Lowering) (Γ : Scope) (P : Set Trace),
      s.Led P → s.Blames (forIn names PUnit.unit (fun (b : String × Ty × Span) _ => do
          declare b.1 b.2.1 b.2.2 held
          pure (ForInStep.yield PUnit.unit)) s).2 P (Γ.defines names.length) by
    have hblames := h p.bindings s Γ P hs.led
    obtain ⟨ν', hdecl⟩ := declarePattern_declares hs.tracks p held
    exact ⟨ν', ⟨hdecl.tracks, hblames.led⟩, hblames⟩
  intro names
  induction names with
  | nil => exact fun s Γ P hs => .refl hs
  | cons n names ih =>
    intro s Γ P hs
    have hfirst := declare_blames hs Γ n.1 n.2.1 n.2.2 held
    have := hfirst.trans (ih _ ((n.1, n.2.1) :: Γ) _ hfirst.led) (by simp [Scope.defines])
      (by simp [Scope.defines])
    rw [defines_succ] at this
    rw [List.forIn_cons]
    exact this

theorem blamedArm_unguarded (p : TPattern) {b : TExpr} (hb : Blamed b) :
    BlamedArm (.mk p none b) := by
  intro d held s Γ ν P hs
  have hin : s.enterScope.2.Stands Γ ν P :=
    ⟨hs.tracks.rests (enterScope_quiet s).activation, (enterScope_steady s).led hs.led⟩
  obtain ⟨ν', hstands, hdecl⟩ := declarePattern_stands hin p held
  let final := lower d.role b (declarePattern p held s.enterScope.2).2
  have hbody := hdecl.trans (hb.walks d hstands) (by simp [Scope.defines]) (traces_ne_nil _ d b)
  have hwalks : s.Blames (arm d.role held s.activation.frontier (.mk p none b) s).2 P
      (TExpr.tracesArm Γ d (.mk p none b)) :=
    (enterScope_steady s).blames (hbody.steady (leaveScope_steady s.enterScope.1 final.1 b.span))
  refine ⟨hwalks, ?_⟩
  rw [TExpr.tracesPassed, Traces.after_nil]
  exact hwalks.back hs.led

/-- When a guard fails, it has been evaluated. -/
theorem blamedArm_guarded (p : TPattern) {g b : TExpr} (hg : Blamed g) (hb : Blamed b) :
    BlamedArm (.mk p (some g) b) := by
  intro d held s Γ ν P hs
  have hin : s.enterScope.2.Stands Γ ν P :=
    ⟨hs.tracks.rests (enterScope_quiet s).activation, (enterScope_steady s).led hs.led⟩
  obtain ⟨ν', hstands, hdecl⟩ := declarePattern_stands hin p held
  have hguarded := hg.stands .read hstands
  have hbody := hb.walks d hguarded
  let final := lower d.role b (lower .read g (declarePattern p held s.enterScope.2).2).2
  have hleave := leaveScope_steady s.enterScope.1 final.1 b.span
  have hruns := traces_ne_nil (Γ.bindNames p.bindings)
  have hselected := (hg.walks .read hstands).trans hbody (hruns .read g) (hruns d b)
  have hwalks : s.Blames (arm d.role held s.activation.frontier (.mk p (some g) b) s).2 P
      (TExpr.tracesArm Γ d (.mk p (some g) b)) :=
    (enterScope_steady s).blames ((hdecl.trans hselected (by simp [Scope.defines])
      (Traces.followedBy_ne_nil (hruns .read g) (hruns d b))).steady hleave)
  -- the runs in which the guard fails are those that the selected ones go on with
  have hpassed : Traces.after (TExpr.tracesPassed Γ (.mk p (some g) b)) P =
      P ∪ (g.traces (Γ.bindNames p.bindings) .read).after
        ((Γ.defines p.bindings.length).after P) := by
    rw [TExpr.tracesPassed, ← List.singleton_append, Traces.after_append, Traces.after_nil,
      Traces.after_followedBy]
  refine ⟨hwalks, ?_⟩
  rw [hpassed]
  exact hs.led.goTo_union hguarded.led hwalks.later (hbody.later.trans (hleave final.2).later)
    hwalks.led.bounded hwalks.led.forward

/-- A state behind some arms: besides the runs that have come there already, it is reached by those
that select one of the arms. -/
structure BlamesArms (s s' : Lowering) (exits : SortedSet Nat) (done P : Set Trace) (T : Traces) :
    Prop where
  conflicts : ∀ d ∈ s'.faults, d.category = .conflictingBorrow → d ∈ s.faults ∨ T.Conflicts d
  later : s.activation.flow.Extends s'.activation.flow
  bounded : s'.activation.flow.Bounded
  forward : s'.activation.flow.Forward
  within : ∀ i ∈ s'.activation.frontier, i < s'.activation.flow.points.size
  exits : ∀ i ∈ exits, i ∈ s'.activation.frontier
  ends : s'.activation.flow.Ends s'.activation.frontier (done ∪ T.after P)
  idle : s'.activation.frontier = ∅ → T = [] ∨ ∃ u ∈ T.after P, s'.activation.flow.Follows [] u
  runs : ∀ t, s'.activation.flow.IsRun t → (∀ i ∈ t, i < s.activation.flow.points.size) ∨
    ∃ u ∈ T.after P, s'.activation.flow.Passes t u

/-- The runs that pass over an arm go on to the next ones. -/
theorem Blames.cons {entry exits : SortedSet Nat} {done : Set Trace} {passed : Traces}
    (h : (s.goTo entry).Blames s' P T) (hpassed : passed ≠ [])
    (h' : s'.BlamesArms s'' (exits.union s'.activation.frontier) (done ∪ T.after P)
      (passed.after P) U) : s.BlamesArms s'' exits done P (T ++ passed.followedBy U) where
  conflicts d hd hc := (h'.conflicts d hd hc).elim
    (fun hd => (h.conflicts d hd hc).imp_right (·.mono (List.subset_append_left _ _)))
    fun hd => .inr ((hd.following hpassed).mono (List.subset_append_right _ _))
  later := h.later.trans h'.later
  bounded := h'.bounded
  forward := h'.forward
  within := h'.within
  exits i hi := h'.exits i (SortedSet.mem_union.2 (.inl hi))
  ends := by
    rw [Traces.after_append, Traces.after_followedBy, ← Set.union_assoc]
    exact h'.ends
  idle hidle := by
    have hfirst : s'.activation.frontier = ∅ := SortedSet.ext_mem fun i => by
      simpa using fun hi => SortedSet.not_mem_empty i
        (hidle ▸ h'.exits i (SortedSet.mem_union.2 (.inr hi)))
    obtain ⟨u, hu, hfollows⟩ := h.led.idle hfirst
    exact .inr ⟨u, Traces.after_mono (List.subset_append_left _ _) P hu,
      hfollows.later h'.later h.led.bounded⟩
  runs t ht := by
    rw [Traces.after_append, Traces.after_followedBy]
    rcases h'.runs t ht with hold | ⟨u, hu, hpasses⟩
    · refine (h.runs t (h'.later.isRun ht hold)).imp_right fun ⟨u, hu, hpasses⟩ => ?_
      exact ⟨u, .inl hu, hpasses.later h'.later h.led.bounded⟩
    · exact .inr ⟨u, .inr hu, hpasses⟩

/-- If there are arms at all, one of them is selected. -/
theorem BlamesArms.blames (h : s.BlamesArms s' ∅ ∅ P T) (hT : T ≠ []) : s.Blames s' P T where
  conflicts := h.conflicts
  later := h.later
  led := ⟨h.bounded, h.forward, h.within, Set.empty_union (T.after P) ▸ h.ends,
    fun hidle => (h.idle hidle).resolve_left hT⟩
  runs := h.runs

theorem lowerArms_blames {arms : List TArm} (h : ∀ a ∈ arms, BlamedArm a) (d : Demand)
    (held : Loans) {entry exits : SortedSet Nat} {done : Set Trace}
    (hs : (s.goTo entry).Stands Γ ν P) (hexits : s.activation.flow.Ends exits done)
    (hwithin : ∀ i ∈ exits, i < s.activation.flow.points.size) :
    s.BlamesArms (lowerArms d.role held entry exits arms s).2 exits done P
      (TExpr.tracesArms Γ d arms) := by
  induction arms generalizing s entry exits done P with
  | nil =>
    exact ⟨fun _ hd _ => .inl hd, .refl _, hs.led.bounded, hs.led.forward, hwithin, fun _ hi => hi,
      hexits.mono Set.subset_union_left, fun _ => .inl rfl, fun _ ht => .inl ht.lt_size⟩
  | cons a arms ih =>
    simp only [List.mem_cons, forall_eq_or_imp] at h
    obtain ⟨hfirst, hnext⟩ := h.1 d held hs
    have hlater := hexits.later hfirst.later hs.led.bounded hfirst.led.forward hwithin
    refine hfirst.cons (tracesPassed_ne_nil Γ a) (ih h.2 ⟨(lowersArm a d held hs.tracks).next, hnext⟩
      (hlater.union hfirst.led.ends) fun i hi => ?_)
    rcases SortedSet.mem_union.1 hi with hi | hi
    · exact Nat.lt_of_lt_of_le (hwithin i hi) hfirst.later.size_points
    · exact hfirst.led.within i hi

theorem blamed_matchOn {i : Info} {e : TExpr} {arms : List TArm} (tree : Option DecisionTree)
    (he : Blamed e) (h : ∀ a ∈ arms, BlamedArm a) : Blamed (.matchOn i e arms tree) := by
  refine .of_walks nofun fun d s Γ ν P hs => ?_
  simp only [lower, closing_role, inner_role, TExpr.traces]
  have hruns := tracesArms_ne_nil Γ d arms
  refine he.bind (d := TArm.scrutineeDemand arms) hs hruns fun held s' hs' => ?_
  have hnone : ∀ i ∈ (∅ : SortedSet Nat), i < s'.activation.flow.points.size := fun i hi =>
    absurd hi (SortedSet.not_mem_empty i)
  cases arms with
  | nil => exact .refl hs'.led
  | cons a arms => exact (lowerArms_blames h d held hs' (Flow.ends_empty _) hnone).blames hruns

/-! ## Functions -/

mutual

/-- The conflicts that walking an expression finds are founded. -/
theorem blamed : (e : TExpr) → Blamed e
  | .lit i value => blamed_lit i value
  | .var i x => blamed_var i x
  | .call _ f a => blamed_call (blamed f) (blamed a)
  | .lam _ p b => blamed_lam p (blamed b)
  | .letIn _ x v b => blamed_letIn x (blamed v) (blamed b)
  | .seq _ items => blamed_seq (blamedList items)
  | .cond _ c t e => blamed_cond (blamed c) (blamed t) (blamed e)
  | .matchOn _ e arms tree => blamed_matchOn tree (blamed e) (blamedArms arms)
  | .tuple _ items => blamed_tuple (blamedList items)
  | .construct _ t v args => blamed_construct t v (blamedList args)
  | .binary _ op a b => blamed_binary op (blamed a) (blamed b)
  | .unary _ op a => blamed_unary op (blamed a)
  | .borrow _ kind a => blamed_borrow kind (blamed a)
  | .deref _ r => blamed_deref (blamed r)
  | .assign _ a v => blamed_assign (blamed a) (blamed v)
  | .failed i => blamed_failed i

theorem blamedList : (es : List TExpr) → ∀ e ∈ es, Blamed e
  | [] => nofun
  | e :: es => List.forall_mem_cons.2 ⟨blamed e, blamedList es⟩

theorem blamedArm : (a : TArm) → BlamedArm a
  | .mk p (some g) b => blamedArm_guarded p (blamed g) (blamed b)
  | .mk p none b => blamedArm_unguarded p (blamed b)

theorem blamedArms : (arms : List TArm) → ∀ a ∈ arms, BlamedArm a
  | [] => nofun
  | a :: arms => List.forall_mem_cons.2 ⟨blamedArm a, blamedArms arms⟩

end

end Lowering

/-- Whether a fault is a conflict between an access in the flow of an activation and a loan that this
would disturb: some trace of the activation makes the access, and goes on to use a value that may carry
the loan before that is made anew. -/
def Frame.Overlaps (g : Frame) (d : Diagnostic) : Prop :=
  ∃ flow, g.Flows flow ∧ ∃ u ∈ g.traces, ∃ before i after j p loan,
    flow.IsRun (before ++ i :: (after ++ [j])) ∧ flow.Passes (before ++ i :: (after ++ [j])) u ∧
    flow.points[i]? = some p ∧ flow.TellsConflict d p loan ∧ flow.Disturbs p.event loan ∧
    flow.Uses loan j ∧ ∀ k ∈ after, ¬ flow.Makes loan k

theorem Frame.overlaps_of_mem_conflictFaults {g : Frame} {flow : Flow} (hflow : g.Flows flow)
    (hforward : flow.Forward) (hrealizes : flow.Realizes {u | u ∈ g.traces}) {d : Diagnostic}
    (hd : d ∈ flow.conflictFaults) : g.Overlaps d := by
  obtain ⟨i, p, loan, hp, htells, hdisturbs, hneeds⟩ := flow.needs_of_mem_conflictFaults hd
  obtain ⟨before, hrun⟩ := hforward.exists_isRun i hp
  obtain ⟨after, j, hrun, huses, hmakes⟩ := hneeds.exists_isRun hrun
  obtain ⟨u, hu, hpasses⟩ := hrealizes _ hrun
  exact ⟨flow, hflow, u, hu, before, i, after, j, p, loan, hrun, hpasses, hp, htells, hdisturbs,
    huses, hmakes⟩

/-- A conflict that the check of a function tells of is one between an access of the function, or of a
closure that comes to be created, and a loan that may be needed later. -/
theorem TFunction.checkOwnership_overlaps (f : TFunction) {d : Diagnostic}
    (hd : d ∈ f.checkOwnership.2) (hc : d.category = .conflictingBorrow) :
    ∃ g, (Frame.of [] f.body).Reaches g ∧ g.Overlaps d := by
  have hblamed := (Lowering.blamed f.body).completes [] ⟨.empty, []⟩ (.start []) d hd hc
  obtain ⟨g, hg, flow, hflow, hforward, hrealizes, hd⟩ := hblamed.resolve_left List.not_mem_nil
  exact ⟨g, hg, Frame.overlaps_of_mem_conflictFaults hflow hforward hrealizes hd⟩

/-- A declaration as a function, if nothing about it is at fault. -/
def Decl.function? (d : Decl) : Option TFunction :=
  let result := checkGroup (Module.registries [d]).1 (.ofGlobals ∅) false [d]
  if result.diagnostics.isEmpty then (result.decls.filterMap TDecl.function?).head? else none

/-- A function that assigns to a local while a unique borrow of it is held:
`fn lent() { let x = 1; let r = &mut x; x := 3; *r }`. -/
def lent : Decl :=
  let name := Name.mk .synthetic
  let var := Expr.var .synthetic
  .fn ⟨.synthetic, name "lent", [], none, none,
    .letIn .synthetic (name "x") none (.lit .synthetic (.int 1))
      (.letIn .synthetic (name "r") none (.borrow .synthetic true (var "x"))
        (.seq .synthetic [.assign .synthetic (var "x") (.lit .synthetic (.int 3)),
          .deref .synthetic (var "r")]))⟩

theorem lent_overlaps : ∃ f, lent.function? = some f ∧ ∃ d ∈ f.checkOwnership.2,
    d.category = .conflictingBorrow ∧ ∃ g, (Frame.of [] f.body).Reaches g ∧ g.Overlaps d := by
  obtain ⟨f, hf⟩ : ∃ f, lent.function? = some f := Option.isSome_iff_exists.1 (by decide +kernel)
  have hfound : ∀ f ∈ lent.function?, ∃ d ∈ f.checkOwnership.2, d.category = .conflictingBorrow := by
    decide +kernel
  obtain ⟨d, hd, hc⟩ := hfound f hf
  exact ⟨f, hf, d, hd, hc, f.checkOwnership_overlaps hd hc⟩

/-- A function that gives a reference another local in one branch, and assigns to that local in the
other:
```
fn redirected(c) {
  let x = 1; let y = 2; let r = &mut y;
  if c { r := &mut x } else { x := 3 }; *r
}
```
-/
def redirected : Decl :=
  let name := Name.mk .synthetic
  let var := Expr.var .synthetic
  let int := fun n => Expr.lit .synthetic (.int n)
  .fn ⟨.synthetic, name "redirected", [⟨name "c", none⟩], none, none,
    .letIn .synthetic (name "x") none (int 1) (.letIn .synthetic (name "y") none (int 2)
      (.letIn .synthetic (name "r") none (.borrow .synthetic true (var "y")) (.seq .synthetic
        [.cond .synthetic (var "c")
          (.assign .synthetic (var "r") (.borrow ⟨0, 14, 15⟩ true (var "x")))
          (.assign .synthetic (.var ⟨0, 18, 19⟩ "x") (int 3)),
        .deref .synthetic (var "r")])))⟩

/-- Whether an event is a use of a local at some place. -/
def TraceEvent.isUseAt (span : Span) : TraceEvent → Bool
  | .use _ _ _ position => position = span
  | _ => false

/-- Whether an event puts a new value into a local. -/
def TraceEvent.isAssignTo (place : Nat) : TraceEvent → Bool
  | .assign i => i = place
  | _ => false

/-- The loans that a local holds are those of all its values. So there is a conflict although no run
that makes the loan makes the access. -/
theorem redirected_conflicts : ∃ f, redirected.function? = some f ∧
    (∃ d ∈ f.checkOwnership.2, d.category = .conflictingBorrow ∧ d.location = some ⟨0, 18, 19⟩ ∧
      d.labels.head? = some ⟨⟨0, 14, 15⟩, "`x` is borrowed as unique here"⟩) ∧
    ∀ t ∈ (Frame.of [] f.body).traces, t.any (·.isUseAt ⟨0, 14, 15⟩) = true →
      t.any (·.isAssignTo 1) = false :=
  ⟨redirected.function?.get (by decide +kernel), (Option.some_get _).symm, by decide +kernel,
    by decide +kernel⟩

end RowCheck
