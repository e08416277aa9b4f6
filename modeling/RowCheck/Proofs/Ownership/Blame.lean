import RowCheck.Proofs.Ownership.Follow
import RowCheck.Proofs.Ownership.Walk

/-!
What walking a part of an activation adds to the flow, and to the faults. All runs that come to be
there follow the traces of the part; and the conflicts that are found on the way are those of closures
that come to be created, since the flow of the activation itself is checked at its end.
-/
namespace RowCheck

/-- Whether the runs of a flow follow some traces, as far as they go. -/
def Flow.Realizes (f : Flow) (P : Set Trace) : Prop := ∀ t, f.IsRun t → ∃ u ∈ P, f.Passes t u

/-- A state in which the locals of an activation have come into scope, and nothing else is done. -/
inductive Lowering.Entered : Scope → Lowering → Prop
  | start (faults : List Diagnostic) : Entered [] ⟨.empty, faults⟩
  | declare {Γ : Scope} {s : Lowering} (name : String) (t : Ty) (span : Span) :
      Entered Γ s → Entered ((name, t) :: Γ) (Lowering.declare name t span ∅ s).2

namespace Frame

/-- Whether a flow is that of an activation: what walking its body adds to its locals. -/
def Flows (g : Frame) (f : Flow) : Prop :=
  ∃ s, Lowering.Entered g.locals s ∧ f = (Lowering.lower .value g.body s).2.activation.flow

/-- Whether a fault is a conflict in the flow of an activation, or of one of a closure that comes to
be created within it. -/
def Conflicts (g : Frame) (d : Diagnostic) : Prop :=
  ∃ g', g.Reaches g' ∧ ∃ f, g'.Flows f ∧ f.Forward ∧ f.Realizes {u | u ∈ g'.traces} ∧
    d ∈ f.conflictFaults

end Frame

namespace Traces

/-- Whether a fault is a conflict in a closure that comes to be created. -/
def Conflicts (T : Traces) (d : Diagnostic) : Prop :=
  ∃ t ∈ T, ∃ locals body, .create locals body ∈ t ∧ (Frame.of locals body).Conflicts d

variable {T U : Traces} {d : Diagnostic} {P : Set Trace}

theorem Conflicts.followedBy (h : T.Conflicts d) (hU : U ≠ []) : (T.followedBy U).Conflicts d := by
  obtain ⟨t, ht, locals, body, hmem, hd⟩ := h
  obtain ⟨u, hu⟩ := List.exists_mem_of_ne_nil U hU
  exact ⟨t ++ u, mem_followedBy.2 ⟨t, ht, u, hu, rfl⟩, locals, body, List.mem_append_left _ hmem, hd⟩

theorem Conflicts.following (h : U.Conflicts d) (hT : T ≠ []) : (T.followedBy U).Conflicts d := by
  obtain ⟨u, hu, locals, body, hmem, hd⟩ := h
  obtain ⟨t, ht⟩ := List.exists_mem_of_ne_nil T hT
  exact ⟨t ++ u, mem_followedBy.2 ⟨t, ht, u, hu, rfl⟩, locals, body, List.mem_append_right _ hmem, hd⟩

theorem Conflicts.mono (h : T.Conflicts d) (hT : T ⊆ U) : U.Conflicts d := by
  obtain ⟨t, ht, h⟩ := h
  exact ⟨t, hT ht, h⟩

theorem after_mono (h : T ⊆ U) (P : Set Trace) : T.after P ⊆ U.after P := by
  rintro t ⟨p, hp, u, hu, rfl⟩
  exact ⟨p, hp, u, h hu, rfl⟩

end Traces

/-- A conflict in a closure that an activation comes to create is one of the activation. -/
theorem Frame.conflicts_of_traces {g : Frame} {d : Diagnostic} (h : g.traces.Conflicts d) :
    g.Conflicts d := by
  obtain ⟨t, ht, locals, body, hmem, g', hg, hf⟩ := h
  exact ⟨g', .create ht hmem hg, hf⟩

theorem Flow.category_of_mem_moveFaults {f : Flow} {d : Diagnostic} (hd : d ∈ f.moveFaults) :
    d.category = .useAfterMove := by
  suffices h : ∀ (ps : List FlowPoint) (outs : Array Moved), d ∈ f.moveFaultsFrom outs ps →
      d.category = .useAfterMove from h _ _ hd
  intro ps
  induction ps with
  | nil => exact fun _ h => absurd h List.not_mem_nil
  | cons p ps ih =>
    intro outs h
    rcases List.mem_append.1 h with h | h
    · simp only [moveFault?, Option.bind_eq_bind, Option.pure_def, Option.mem_toList,
        Option.bind_eq_some_iff, Option.some.injEq] at h
      obtain ⟨i, -, span, -, rfl⟩ := h
      rfl
    · exact ih _ h

namespace Lowering

variable {s s' s'' : Lowering} {Γ : Scope} {ν : Nat → Nat} {P : Set Trace} {T U : Traces}

/-- Whether the runs that have come to the frontier follow some traces. Where nothing has happened yet
the frontier is empty. -/
structure Led (s : Lowering) (P : Set Trace) : Prop where
  bounded : s.activation.flow.Bounded
  forward : s.activation.flow.Forward
  within : ∀ i ∈ s.activation.frontier, i < s.activation.flow.points.size
  ends : s.activation.flow.Ends s.activation.frontier P
  idle : s.activation.frontier = ∅ → ∃ u ∈ P, s.activation.flow.Follows [] u

/-- A later state in which every new conflict is one of a closure that comes to be created on some
traces, and every new run follows one of these traces, which go on with those before. -/
structure Blames (s s' : Lowering) (P : Set Trace) (T : Traces) : Prop where
  conflicts : ∀ d ∈ s'.faults, d.category = .conflictingBorrow → d ∈ s.faults ∨ T.Conflicts d
  later : s.activation.flow.Extends s'.activation.flow
  led : s'.Led (T.after P)
  runs : ∀ t, s'.activation.flow.IsRun t → (∀ i ∈ t, i < s.activation.flow.points.size) ∨
    ∃ u ∈ T.after P, s'.activation.flow.Passes t u

theorem Blames.refl (hs : s.Led P) : s.Blames s P [[]] where
  conflicts _ hd _ := .inl hd
  later := .refl _
  led := (Traces.after_nil P).symm ▸ hs
  runs _ ht := .inl ht.lt_size

theorem Blames.trans (h : s.Blames s' P T) (h' : s'.Blames s'' (T.after P) U) (hT : T ≠ [])
    (hU : U ≠ []) : s.Blames s'' P (T.followedBy U) where
  conflicts d hd hc := (h'.conflicts d hd hc).elim
    (fun hd => (h.conflicts d hd hc).imp_right (·.followedBy hU)) fun hd => .inr (hd.following hT)
  later := h.later.trans h'.later
  led := Traces.after_followedBy T U P ▸ h'.led
  runs t ht := by
    rw [Traces.after_followedBy]
    rcases h'.runs t ht with hold | hnew
    · refine (h.runs t (h'.later.isRun ht hold)).imp_right fun ⟨u, hu, hpasses⟩ => ?_
      obtain ⟨w, hw⟩ := List.exists_mem_of_ne_nil U hU
      exact ⟨u ++ w, ⟨u, hu, w, hw, rfl⟩, (hpasses.later h'.later h.led.bounded).append w⟩
    · exact .inr hnew

/-! ## Branches -/

/-- Whatever has been added since, runs may go on from where an earlier state was. -/
theorem Led.goTo (h : s.Led P) (he : s.activation.flow.Extends s'.activation.flow)
    (hb : s'.activation.flow.Bounded) (hf : s'.activation.flow.Forward) :
    (s'.goTo s.activation.frontier).Led P where
  bounded := hb
  forward := hf
  within i hi := Nat.lt_of_lt_of_le (h.within i hi) he.size_points
  ends := h.ends.later he h.bounded hf h.within
  idle hidle := by
    obtain ⟨u, hu, hfollows⟩ := h.idle hidle
    exact ⟨u, hu, hfollows.later he h.bounded⟩

/-- They may go on from either of two earlier states. -/
theorem Led.goTo_union {Q : Set Trace} (h : s.Led P) (h' : s'.Led Q)
    (he : s.activation.flow.Extends s''.activation.flow)
    (he' : s'.activation.flow.Extends s''.activation.flow) (hb : s''.activation.flow.Bounded)
    (hf : s''.activation.flow.Forward) :
    (s''.goTo (s.activation.frontier.union s'.activation.frontier)).Led (P ∪ Q) where
  bounded := hb
  forward := hf
  within i hi := (SortedSet.mem_union.1 hi).elim ((h.goTo he hb hf).within i)
    ((h'.goTo he' hb hf).within i)
  ends := (h.goTo he hb hf).ends.union (h'.goTo he' hb hf).ends
  idle hidle := by
    have hfirst : s.activation.frontier = ∅ := SortedSet.ext_mem fun i => by
      simpa using fun hi => SortedSet.not_mem_empty i (hidle ▸ SortedSet.mem_union.2 (.inl hi))
    obtain ⟨u, hu, hfollows⟩ := (h.goTo he hb hf).idle hfirst
    exact ⟨u, .inl hu, hfollows⟩

/-- A second branch begins where the first one began. -/
theorem Blames.back (h : s.Blames s' P T) (hs : s.Led P) :
    (s'.goTo s.activation.frontier).Led P :=
  hs.goTo h.later h.led.bounded h.led.forward

/-- Two branches lead on to whatever comes behind one of them. -/
theorem Blames.join (h : s.Blames s' P T)
    (h' : (s'.goTo s.activation.frontier).Blames s'' P U) :
    s.Blames (s''.goTo (s''.activation.frontier.union s'.activation.frontier)) P (T ++ U) where
  conflicts d hd hc := (h'.conflicts d hd hc).elim
    (fun hd => (h.conflicts d hd hc).imp_right (·.mono (List.subset_append_left T U)))
    fun hd => .inr (hd.mono (List.subset_append_right T U))
  later := h.later.trans h'.later
  led := by
    rw [Traces.after_append, Set.union_comm]
    exact h'.led.goTo_union h.led (.refl _) h'.later h'.led.bounded h'.led.forward
  runs t ht := by
    rcases h'.runs t ht with hold | ⟨u, hu, hpasses⟩
    · refine (h.runs t (h'.later.isRun ht hold)).imp_right fun ⟨u, hu, hpasses⟩ => ?_
      exact ⟨u, Traces.after_mono (List.subset_append_left T U) P hu,
        hpasses.later h'.later h.led.bounded⟩
    · exact .inr ⟨u, Traces.after_mono (List.subset_append_right T U) P hu, hpasses⟩

/-! ## Actions without points -/

/-- A later state with the same points and the same frontier, in which no conflict has been found. -/
structure Keeps (s s' : Lowering) : Prop where
  later : s.activation.flow.Extends s'.activation.flow
  points : s'.activation.flow.points = s.activation.flow.points
  frontier : s'.activation.frontier = s.activation.frontier
  conflicts : ∀ d ∈ s'.faults, d.category = .conflictingBorrow → d ∈ s.faults

theorem Keeps.refl (s : Lowering) : s.Keeps s := ⟨.refl _, rfl, rfl, fun _ hd _ => hd⟩

theorem Keeps.trans (h : s.Keeps s') (h' : s'.Keeps s'') : s.Keeps s'' where
  later := h.later.trans h'.later
  points := h'.points.trans h.points
  frontier := h'.frontier.trans h.frontier
  conflicts d hd hc := h.conflicts d (h'.conflicts d hd hc) hc

theorem Keeps.of_rests (h : s.activation.Rests s'.activation)
    (hd : ∀ d ∈ s'.faults, d.category = .conflictingBorrow → d ∈ s.faults) : s.Keeps s' :=
  ⟨h.extends, h.points, h.frontier, hd⟩

theorem Keeps.led (h : s.Keeps s') (hs : s.Led P) : s'.Led P where
  bounded p hp := (hs.bounded p (h.points ▸ hp)).later h.later
  forward := hs.forward.of_points h.points
  within := by
    rw [h.frontier, h.points]
    exact hs.within
  ends := h.frontier ▸ hs.ends.later h.later hs.bounded (hs.forward.of_points h.points) hs.within
  idle hidle := by
    obtain ⟨u, hu, hfollows⟩ := hs.idle (h.frontier ▸ hidle)
    exact ⟨u, hu, hfollows.later h.later hs.bounded⟩

theorem Blames.keeps (h : s.Blames s' P T) (h' : s'.Keeps s'') : s.Blames s'' P T where
  conflicts d hd hc := h.conflicts d (h'.conflicts d hd hc) hc
  later := h.later.trans h'.later
  led := h'.led h.led
  runs t ht := by
    have hrun := h'.later.isRun ht (h'.points ▸ ht.lt_size)
    refine (h.runs t hrun).imp_right fun ⟨u, hu, hpasses⟩ => ?_
    exact ⟨u, hu, hpasses.later h'.later h.led.bounded⟩

theorem Keeps.blames (h : s.Keeps s') (h' : s'.Blames s'' P T) : s.Blames s'' P T where
  conflicts d hd hc := (h'.conflicts d hd hc).imp_left (h.conflicts d · hc)
  later := h.later.trans h'.later
  led := h'.led
  runs t ht := h.points ▸ h'.runs t ht

/-- Whether an action leads from every state to one that is related to it. -/
def Obeys (R : Lowering → Lowering → Prop) {α : Type} (m : LowerM α) : Prop :=
  ∀ s : Lowering, R s (m s).2

namespace Obeys

variable {R : Lowering → Lowering → Prop} {α β γ : Type} {m : LowerM α} {f : α → LowerM β}

theorem bind [IsTrans Lowering R] (hm : Obeys R m) (hf : ∀ a, Obeys R (f a)) : Obeys R (m >>= f) :=
  fun s => IsTrans.trans _ _ _ (hm s) (hf _ _)

theorem pure [Std.Refl R] (a : α) : Obeys R (pure a : LowerM α) := fun s => Std.Refl.refl s

theorem get [Std.Refl R] : Obeys R (get : LowerM Lowering) := fun s => Std.Refl.refl s

theorem forIn [Std.Refl R] [IsTrans Lowering R] (l : List β) (c : γ)
    {f : β → γ → LowerM (ForInStep γ)} (hf : ∀ b c, Obeys R (f b c)) : Obeys R (forIn l c f) := by
  induction l generalizing c with
  | nil => exact pure c
  | cons b l ih =>
    rw [List.forIn_cons]
    refine (hf b c).bind fun r => ?_
    cases r with
    | done c => exact pure c
    | yield c => exact ih c

end Obeys

instance : Std.Refl Keeps := ⟨Keeps.refl⟩

instance : IsTrans Lowering Keeps := ⟨fun _ _ _ => Keeps.trans⟩

/-- An action that keeps the points and finds no conflict, whatever state it begins in. -/
abbrev Steady {α : Type} (m : LowerM α) : Prop := Obeys Keeps m

theorem Blames.steady {α : Type} {m : LowerM α} (h : s.Blames s' P T) (hm : Steady m) :
    s.Blames (m s').2 P T :=
  h.keeps (hm s')

theorem Steady.blames {α : Type} {m : LowerM α} (hm : Steady m) (hs : s.Led P) :
    s.Blames (m s).2 P [[]] :=
  (Blames.refl hs).steady hm

/-- Adding a fault leaves the activation as it is. -/
theorem activation_report (d : Diagnostic) (s : Lowering) :
    (report d s).2.activation = s.activation := by
  change (if _ then s else { s with faults := s.faults ++ [d] } : Lowering).activation = _
  split <;> rfl

theorem mem_faults_report {d e : Diagnostic} (h : e ∈ (report d s).2.faults) :
    e ∈ s.faults ∨ e = d := by
  change e ∈ (if _ then s else { s with faults := s.faults ++ [d] } : Lowering).faults at h
  split at h
  · exact .inl h
  · simpa using h

theorem report_steady {d : Diagnostic} (c : Category) (hd : d.category = c)
    (hne : c ≠ .conflictingBorrow) : Steady (report d) := by
  intro s
  have hsame := activation_report d s
  refine ⟨hsame ▸ .refl _, hsame ▸ rfl, hsame ▸ rfl, fun e he hc => ?_⟩
  rcases mem_faults_report he with he | rfl
  · exact he
  · exact absurd (hd.symm.trans hc) hne

theorem modifyActivation_steady {f : Activation → Activation}
    (hf : ∀ a, a.flow.Extends (f a).flow ∧ (f a).flow.points = a.flow.points ∧
      (f a).frontier = a.frontier) : Steady (modifyActivation f) := fun s =>
  ⟨(hf s.activation).1, (hf s.activation).2.1, (hf s.activation).2.2, fun _ hd _ => hd⟩

theorem checkEscape_steady (value : Loans) (position : Span) :
    Steady (checkEscape value position) := by
  unfold checkEscape
  refine (Obeys.forIn _ _ fun _ _ => Obeys.get.bind fun _ => ?_).bind fun _ => .pure _
  dsimp only
  split
  · exact (report_steady .danglingBorrow rfl nofun).bind fun _ => .pure _
  · exact .pure _

theorem checkOutlives_steady (value : Loans) (region : Region) (position : Span) :
    Steady (checkOutlives value region position) := by
  unfold checkOutlives
  refine (Obeys.forIn _ _ fun _ _ => Obeys.get.bind fun _ => ?_).bind fun _ => .pure _
  dsimp only
  split
  · exact (report_steady .danglingBorrow rfl nofun).bind fun _ => .pure _
  · exact .pure _

theorem assignThrough_steady (reference : TExpr) (held value : Loans) (span : Span) :
    Steady (assignThrough reference held value span) := by
  have hrest : Steady (do
      for loan in held.toList do
        checkOutlives value ((← get).activation.flow.lender loan).region span) :=
    (Obeys.forIn _ _ fun _ _ => Obeys.get.bind fun _ =>
      (checkOutlives_steady _ _ _).bind fun _ => .pure _).bind fun _ => .pure _
  unfold assignThrough
  dsimp only
  split
  · exact (report_steady .aliasedMutation rfl nofun).bind fun _ => hrest
  · exact hrest

theorem enterScope_steady : Steady enterScope := fun _ =>
  ⟨.refl _, rfl, rfl, fun _ hd _ => hd⟩

theorem leaveScope_steady (outer : Activation) (value : Loans) (position : Span) :
    Steady (leaveScope outer value position) :=
  (checkEscape_steady value position).bind fun _ =>
    modifyActivation_steady fun _ => ⟨.refl _, rfl, rfl⟩

/-! ## Points -/

/-- Whether some runs have come to a state with the locals in scope. -/
structure Stands (s : Lowering) (Γ : Scope) (ν : Nat → Nat) (P : Set Trace) : Prop where
  tracks : s.activation.Tracks Γ ν P
  led : s.Led P

/-- All new runs end in a point that is added behind the frontier. -/
theorem point_blames (hs : s.Led P) {event : FlowEvent} {span : Span} {u : Trace}
    (hp : s.activation.flow.Admits ⟨event, span, s.activation.frontier⟩)
    (hu : s.activation.flow.Presents ⟨event, span, s.activation.frontier⟩ u) :
    s.Blames (point event span s).2 P [u] := by
  have hnew : ∀ t, (s.activation.addPoint event span).flow.IsRun
      (t ++ [s.activation.flow.points.size]) → ∃ w ∈ Traces.after [u] P,
        (s.activation.addPoint event span).flow.Follows (t ++ [s.activation.flow.points.size]) w :=
    fun t ht => hs.ends.follows_push hs.idle hs.bounded hs.forward hs.within hp hu ht
  refine ⟨fun _ hd _ => .inl hd, s.activation.flow.extends_push _,
    ⟨hs.bounded.push hp, hs.forward.push hs.within, s.activation.frontier_addPoint event span,
      fun t i hi ht => ?_, fun h => ?_⟩, fun t ht => ?_⟩
  · have hmem : i ∈ SortedSet.ofList [s.activation.flow.points.size] := hi
    obtain rfl : i = s.activation.flow.points.size := by simpa using hmem
    exact hnew t ht
  · have hmem : s.activation.flow.points.size ∈ (point event span s).2.activation.frontier :=
      SortedSet.mem_ofList.2 List.mem_cons_self
    exact absurd (h ▸ hmem) (SortedSet.not_mem_empty _)
  · refine (Flow.isRun_push hs.forward hs.within ht).imp_right ?_
    rintro ⟨t, rfl⟩
    obtain ⟨w, hw, hfollows⟩ := hnew t ht
    exact ⟨w, hw, hfollows.passes⟩

theorem consume_blames (hs : s.Led P) (held : Loans) (span : Span) :
    s.Blames (point (.consume held) span s).2 P [[]] :=
  point_blames hs ⟨nofun, nofun⟩ (.consume rfl)

theorem use_blames (hs : s.Stands Γ ν P) {name : String} {i : Nat} {t : Ty}
    (hx : Γ.find? name = some (i, t)) (kind : UseKind) (span : Span) :
    s.Blames (point (.use (ν i) kind) span s).2 P [[.use i name (decide (kind = .move)) span]] := by
  refine point_blames hs.led (hs.tracks.admits (Flow.mirrors_use hs.tracks.places hx kind span))
    (.shows ⟨rfl, ν i, rfl, (hs.tracks.places.named name i t hx).1, ?_⟩)
  simp

theorem useVar_blames (hs : s.Stands Γ ν P) (role : Role) (name : String) (t : Ty) (span : Span) :
    s.Blames (useVar role name t span s).2 P
      [Γ.use name (decide (useKind role t = .move)) span] := by
  unfold useVar Scope.use
  rw [find?_bind hs.tracks]
  cases hx : Γ.find? name with
  | none => exact .refl hs.led
  | some found => exact (use_blames hs hx _ span).steady (Obeys.get.bind fun _ => .pure _)

theorem borrowVar_blames (hs : s.Stands Γ ν P) (kind : BorrowKind) (name : String) (span : Span) :
    s.Blames (borrowVar kind name span s).2 P [Γ.use name false span] := by
  unfold borrowVar Scope.use
  rw [find?_bind hs.tracks]
  cases hx : Γ.find? name with
  | none => exact .refl hs.led
  | some found =>
    let made : Lowering := { s with activation := { s.activation with
        flow := { s.activation.flow with
          loans := s.activation.flow.loans.push ⟨ν found.1, kind, span⟩ } } }
    have hrests : s.activation.Rests made.activation := ⟨rfl, rfl, by simp [made], rfl, rfl⟩
    have hkeeps : s.Keeps made := .of_rests hrests fun _ hd _ => hd
    have hmade := hs.tracks.rests hrests
    have hplace : (made.activation.flow.loanAt s.activation.flow.loans.size).place = ν found.1 :=
      congrArg (fun o : Option Loan => (o.getD default).place) Array.getElem?_push_size
    have hsize : s.activation.flow.loans.size < made.activation.flow.loans.size :=
      Array.size_push .. ▸ Nat.lt_succ_self _
    refine hkeeps.blames (point_blames (hkeeps.led hs.led)
      (hmade.admits (Flow.mirrors_borrow hmade.places hx hsize hplace span))
      (.shows ⟨rfl, ν found.1, congrArg some hplace, (hmade.places.named name _ _ hx).1, ?_⟩))
    simp

theorem assignVar_blames (hs : s.Stands Γ ν P) (name : String) (value : Loans) (span target : Span) :
    s.Blames (assignVar name value span target s).2 P [Γ.assign name] := by
  unfold assignVar Scope.assign
  rw [find?_bind hs.tracks]
  cases hx : Γ.find? name with
  | none => exact .refl hs.led
  | some found =>
    have hrest : Steady (do
        checkOutlives value (s.activation.flow.localAt (ν found.1)).region span
        modifyActivation (fun a => { a with flow := { a.flow with
          holdings := a.flow.holdings.modify (ν found.1) (·.union value) } })) :=
      (checkOutlives_steady _ _ _).bind fun _ =>
        modifyActivation_steady fun _ => ⟨⟨List.prefix_refl _, List.prefix_refl _,
          List.prefix_refl _⟩, rfl, rfl⟩
    refine (hrest s).blames (point_blames ((hrest s).led hs.led) ⟨nofun, nofun⟩ (.shows ⟨_, rfl⟩))

theorem declare_blames (hs : s.Led P) (Γ : Scope) (name : String) (t : Ty) (span : Span)
    (holding : Loans) : s.Blames (declare name t span holding s).2 P (Γ.defines 1) := by
  have hkeeps : s.Keeps { s with activation := s.activation.addLocal name t span holding } :=
    ⟨s.activation.extends_addLocal name t span holding, rfl, rfl, fun _ hd _ => hd⟩
  exact hkeeps.blames (point_blames (hkeeps.led hs) (Flow.admits_define ..) (.shows ⟨_, rfl⟩))

end Lowering
end RowCheck
