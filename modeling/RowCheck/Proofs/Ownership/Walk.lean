import RowCheck.Proofs.Ownership.Tracks

/-!
What walking an expression does, told by the traces of the expression: it goes on with all runs that
lead to it by all of these traces, and finds what is misused on the way; and it tells what the
closures misuse that are created there.
-/
namespace RowCheck

/-- The role of a part whose value is handed over, or only inspected. -/
def Demand.role : Demand → Role
  | .value => .value
  | .read => .read

/-- Whether a use of a moved local of some name has been told of. -/
def Lowering.Tells (s : Lowering) (name : String) (span : Span) : Prop :=
  ∃ d ∈ s.faults, d.TellsMisuse name span

/-- A later state that has gone on with some runs by some traces. -/
structure Lowering.Walks (s s' : Lowering) (Γ : Scope) (ν : Nat → Nat) (P : Set Trace)
    (T : Traces) : Prop where
  runs : T ≠ []
  later : s.activation.flow.Extends s'.activation.flow
  tracks : s'.activation.Tracks Γ ν (T.after P)
  misused : ∀ x span, s'.activation.flow.Misused x span ↔
    s.activation.flow.Misused x span ∨ MisusedBy (T.after P) x span
  tells : ∀ x span, s'.Tells x span ↔ s.Tells x span ∨ T.Creates x span

namespace Lowering

variable {s s' s'' : Lowering} {Γ : Scope} {ν : Nat → Nat} {P : Set Trace} {T U : Traces}

theorem Walks.trans (h : s.Walks s' Γ ν P T) (h' : s'.Walks s'' Γ ν (T.after P) U) :
    s.Walks s'' Γ ν P (T.followedBy U) where
  runs := Traces.followedBy_ne_nil h.runs h'.runs
  later := h.later.trans h'.later
  tracks := Traces.after_followedBy T U P ▸ h'.tracks
  misused x span := by
    rw [h'.misused, h.misused, Traces.after_followedBy, or_assoc]
    exact or_congr_right (or_iff_right_of_imp fun hx => hx.after h'.runs)
  tells x span := by
    rw [h'.tells, h.tells, Traces.creates_followedBy h.runs h'.runs, or_assoc]

/-! ## Actions without points -/

/-- A later state in which all that matters to moves is the same. -/
structure Rests (s s' : Lowering) : Prop where
  activation : s.activation.Rests s'.activation
  tells : ∀ x span, s'.Tells x span ↔ s.Tells x span

theorem Rests.refl (s : Lowering) : s.Rests s :=
  ⟨⟨rfl, rfl, List.prefix_refl _, rfl, rfl⟩, fun _ _ => Iff.rfl⟩

theorem Rests.trans (h : s.Rests s') (h' : s'.Rests s'') : s.Rests s'' where
  activation := ⟨h'.activation.points.trans h.activation.points,
    h'.activation.locals.trans h.activation.locals,
    h.activation.loans.trans h'.activation.loans,
    h'.activation.scopes.trans h.activation.scopes,
    h'.activation.frontier.trans h.activation.frontier⟩
  tells x span := (h'.tells x span).trans (h.tells x span)

theorem not_creates_nil {x : String} {span : Span} : ¬ Traces.Creates [[]] x span := by
  rintro ⟨t, ht, locals, body, hmem, -⟩
  obtain rfl := List.mem_singleton.1 ht
  cases hmem

theorem Rests.walks (h : s.Rests s') (hs : s.activation.Tracks Γ ν P) : s.Walks s' Γ ν P [[]] where
  runs := by simp
  later := h.activation.extends
  tracks := (Traces.after_nil P).symm ▸ hs.rests h.activation
  misused x span := by
    rw [h.activation.extends.misused_iff hs.bounded h.activation.points, Traces.after_nil]
    exact (or_iff_left_of_imp (hs.found x span)).symm
  tells x span := by
    rw [h.tells]
    exact (or_iff_left not_creates_nil).symm

/-- An action that rests, whatever state it begins in. -/
def Quiet {α : Type} (m : LowerM α) : Prop := ∀ s : Lowering, s.Rests (m s).2

namespace Quiet

variable {α β : Type} {m : LowerM α} {f : α → LowerM β}

theorem bind (hm : Quiet m) (hf : ∀ a, Quiet (f a)) : Quiet (m >>= f) := fun s =>
  (hm s).trans (hf _ _)

theorem pure (a : α) : Quiet (pure a : LowerM α) := fun s => .refl s

theorem get : Quiet (get : LowerM Lowering) := fun s => .refl s

theorem forIn {β : Type} {γ : Type} (l : List β) (c : γ) {f : β → γ → LowerM (ForInStep γ)}
    (hf : ∀ b c, Quiet (f b c)) : Quiet (forIn l c f) := by
  induction l generalizing c with
  | nil => exact pure c
  | cons b l ih =>
    rw [List.forIn_cons]
    refine (hf b c).bind fun r => ?_
    cases r with
    | done c => exact pure c
    | yield c => exact ih c

end Quiet

/-- A diagnostic is told of, unless one like it has been already. -/
theorem tells_report (d : Diagnostic) (s : Lowering) (x : String) (span : Span) :
    (report d s).2.Tells x span ↔ s.Tells x span ∨ d.TellsMisuse x span := by
  change (if _ then s else { s with faults := s.faults ++ [d] } : Lowering).Tells x span ↔ _
  split
  · rename_i h
    simp only [List.any_eq_true, Bool.and_eq_true, decide_eq_true_eq] at h
    obtain ⟨e, he, ⟨hcode, hmessage⟩, hlocation⟩ := h
    refine (or_iff_left_of_imp fun hd => ⟨e, he, ?_⟩).symm
    exact ⟨(Category.code_injective hcode).trans hd.1, hmessage.trans hd.2.1,
      hlocation.trans hd.2.2⟩
  · simp [Tells, or_and_right, exists_or]

theorem report_quiet {d : Diagnostic} (c : Category) (hc : d.category = c)
    (hne : c ≠ .useAfterMove) : Quiet (report d) := by
  intro s
  refine ⟨?_, fun x span => ?_⟩
  · change s.activation.Rests
      (if _ then s else { s with faults := s.faults ++ [d] } : Lowering).activation
    split <;> exact (Rests.refl s).activation
  · rw [tells_report]
    exact or_iff_left fun h => hne (hc.symm.trans h.1)

theorem checkEscape_quiet (value : Loans) (position : Span) :
    Quiet (checkEscape value position) := by
  unfold checkEscape
  refine (Quiet.forIn _ _ fun _ _ => Quiet.get.bind fun _ => ?_).bind fun _ => .pure _
  dsimp only
  split
  · exact (report_quiet .danglingBorrow rfl nofun).bind fun _ => .pure _
  · exact .pure _

theorem checkOutlives_quiet (value : Loans) (region : Region) (position : Span) :
    Quiet (checkOutlives value region position) := by
  unfold checkOutlives
  refine (Quiet.forIn _ _ fun _ _ => Quiet.get.bind fun _ => ?_).bind fun _ => .pure _
  dsimp only
  split
  · exact (report_quiet .danglingBorrow rfl nofun).bind fun _ => .pure _
  · exact .pure _

theorem assignThrough_quiet (reference : TExpr) (held value : Loans) (span : Span) :
    Quiet (assignThrough reference held value span) := by
  unfold assignThrough
  have hrest : Quiet (do
      for loan in held.toList do
        checkOutlives value ((← get).activation.flow.lender loan).region span) :=
    (Quiet.forIn _ _ fun _ _ => Quiet.get.bind fun _ =>
      (checkOutlives_quiet _ _ _).bind fun _ => .pure _).bind fun _ => .pure _
  dsimp only
  split
  · exact (report_quiet .aliasedMutation rfl nofun).bind fun _ => hrest
  · exact hrest

theorem modifyActivation_rests {f : Activation → Activation}
    (hf : s.activation.Rests (f s.activation)) : s.Rests (modifyActivation f s).2 :=
  ⟨hf, fun _ _ => Iff.rfl⟩

theorem enterScope_quiet : Quiet enterScope := fun _ =>
  ⟨⟨rfl, rfl, List.prefix_refl _, rfl, rfl⟩, fun _ _ => Iff.rfl⟩

/-! ## Walking -/

/-- An action that goes on with some runs by some traces. -/
def Walking {α : Type} (s : Lowering) (m : LowerM α) (Γ : Scope) (ν : Nat → Nat) (P : Set Trace)
    (T : Traces) : Prop :=
  s.Walks (m s).2 Γ ν P T

section

variable {α β : Type} {m : LowerM α} {f : α → LowerM β}

theorem Walking.bind (h : s.Walking m Γ ν P T)
    (hf : ∀ a (s' : Lowering), s'.activation.Tracks Γ ν (T.after P) →
      s'.Walking (f a) Γ ν (T.after P) U) :
    s.Walking (m >>= f) Γ ν P (T.followedBy U) :=
  h.trans (hf _ _ h.tracks)

/-- What follows may have no traces. -/
theorem Walking.ends (h : s.Walking m Γ ν P T) (hf : ∀ a (s' : Lowering),
    s'.activation.Tracks Γ ν (T.after P) → s'.Walking (f a) Γ ν (T.after P) [[]]) :
    s.Walking (m >>= f) Γ ν P T := by
  have := h.bind hf
  rwa [Traces.followedBy_nil] at this

theorem Walking.quiet (h : s.Walking m Γ ν P T) (hf : ∀ a, Quiet (f a)) :
    s.Walking (m >>= f) Γ ν P T :=
  h.ends fun a s' hs => (hf a s').walks hs

/-- What goes before may rest. -/
theorem Walking.rests_bind (hs : s.activation.Tracks Γ ν P) (hm : s.Rests (m s).2)
    (hf : (m s).2.activation.Tracks Γ ν P → (m s).2.Walking (f (m s).1) Γ ν P T) :
    s.Walking (m >>= f) Γ ν P T := by
  have h := (hm.walks hs).trans
    ((Traces.after_nil P).symm ▸ hf (hs.rests hm.activation) : Walks _ _ Γ ν (Traces.after [[]] P) T)
  rwa [Traces.nil_followedBy] at h

theorem Quiet.walking (h : Quiet m) (hs : s.activation.Tracks Γ ν P) :
    s.Walking m Γ ν P [[]] :=
  (h s).walks hs

theorem not_creates {u : Trace} (hu : ∀ locals body, .create locals body ∉ u) {x : String}
    {span : Span} : ¬ Traces.Creates [u] x span := by
  rintro ⟨t, ht, locals, body, hmem, -⟩
  obtain rfl := List.mem_singleton.1 ht
  exact hu locals body hmem

/-- A point that mirrors an event. -/
theorem point_walking (hs : s.activation.Tracks Γ ν P) {event : FlowEvent} {span : Span}
    {u : Trace} (hm : s.activation.flow.Mirrors Γ.length ν event span u)
    (hu : ∀ locals body, .create locals body ∉ u) :
    s.Walking (point event span) Γ ν P [u] :=
  ⟨by simp, s.activation.flow.extends_push _, hs.addPoint hm, hs.misused_addPoint hm,
    fun x position => (or_iff_left (not_creates hu)).symm⟩

theorem consume_walking (hs : s.activation.Tracks Γ ν P) (held : Loans) (span : Span) :
    s.Walking (point (.consume held) span) Γ ν P [[]] :=
  point_walking hs (Flow.mirrors_consume ..) nofun

/-- A name is looked up among those in scope. -/
theorem find?_bind (hs : s.activation.Tracks Γ ν P) (name : String) (f : Option Nat → LowerM β) :
    (find? name >>= f) s = f ((Γ.find? name).map fun found => ν found.1) s :=
  congrArg (f · s) (hs.places.find? name)

theorem Walking.find?_bind (hs : s.activation.Tracks Γ ν P) {name : String}
    {f : Option Nat → LowerM β}
    (h : s.Walking (f ((Γ.find? name).map (fun found => ν found.1))) Γ ν P T) :
    s.Walking (find? name >>= f) Γ ν P T := by
  rw [Walking, Lowering.find?_bind hs]
  exact h

theorem useVar_walking (hs : s.activation.Tracks Γ ν P) (role : Role) (name : String) (t : Ty)
    (span : Span) :
    s.Walking (useVar role name t span) Γ ν P
      [Γ.use name (decide (useKind role t = .move)) span] := by
  unfold useVar
  refine .find?_bind hs ?_
  unfold Scope.use
  cases hx : Γ.find? name with
  | none => exact (Quiet.pure _).walking hs
  | some found =>
    exact (point_walking hs (Flow.mirrors_use hs.places hx _ span) (by simp)).quiet fun _ =>
      Quiet.get.bind fun _ => .pure _

theorem borrowVar_walking (hs : s.activation.Tracks Γ ν P) (kind : BorrowKind) (name : String)
    (span : Span) : s.Walking (borrowVar kind name span) Γ ν P [Γ.use name false span] := by
  unfold borrowVar
  refine .find?_bind hs ?_
  unfold Scope.use
  cases hx : Γ.find? name with
  | none => exact (Quiet.pure _).walking hs
  | some found =>
    refine .rests_bind hs (.refl s) fun _ => ?_
    have hrests : s.activation.Rests { s.activation with
        flow := { s.activation.flow with
          loans := s.activation.flow.loans.push ⟨ν found.1, kind, span⟩ } } :=
      ⟨rfl, rfl, by simp, rfl, rfl⟩
    refine .rests_bind hs (modifyActivation_rests hrests) fun hs' => ?_
    refine (point_walking hs' (Flow.mirrors_borrow hs'.places hx ?_ ?_ span) (by simp)).quiet
      fun _ => .pure _
    · exact Array.size_push .. ▸ Nat.lt_succ_self _
    · exact congrArg (fun o : Option Loan => (o.getD default).place) Array.getElem?_push_size

theorem assignVar_walking (hs : s.activation.Tracks Γ ν P) (name : String) (value : Loans)
    (span target : Span) :
    s.Walking (assignVar name value span target) Γ ν P [Γ.assign name] := by
  unfold assignVar
  refine .find?_bind hs ?_
  unfold Scope.assign
  cases hx : Γ.find? name with
  | none => exact (Quiet.pure _).walking hs
  | some found =>
    refine .rests_bind hs (.refl s) fun _ => ?_
    refine .rests_bind hs (checkOutlives_quiet _ _ _ s) fun hs' => ?_
    refine .rests_bind hs' (modifyActivation_rests ⟨rfl, rfl, List.prefix_refl _, rfl, rfl⟩)
      fun hs'' => ?_
    exact point_walking hs'' (Flow.mirrors_assign hs''.places hx target) (by simp)

end

/-! ## Scopes -/

/-- A later state in which some locals have come into scope. -/
structure Declares (s s' : Lowering) (Γ Γ' : Scope) (ν ν' : Nat → Nat) (P : Set Trace)
    (T : Traces) : Prop where
  runs : T ≠ []
  later : s.activation.flow.Extends s'.activation.flow
  tracks : s'.activation.Tracks Γ' ν' (T.after P)
  length : Γ.length ≤ Γ'.length
  agree : ∀ i < Γ.length, ν' i = ν i
  misused : ∀ x span, s'.activation.flow.Misused x span ↔ s.activation.flow.Misused x span
  tells : ∀ x span, s'.Tells x span ↔ s.Tells x span
  creates : ∀ x span, ¬ T.Creates x span

/-- The state after a scope has been left: the names from around it are back. -/
structure Leaves (s s' s'' : Lowering) : Prop where
  activation : Activation.Rests { s'.activation with scopes := s.activation.scopes } s''.activation
  tells : ∀ x span, s''.Tells x span ↔ s'.Tells x span

variable {Γ' Γ'' : Scope} {ν' ν'' : Nat → Nat}

theorem Declares.refl (hs : s.activation.Tracks Γ ν P) : s.Declares s Γ Γ ν ν P [[]] where
  runs := by simp
  later := .refl _
  tracks := (Traces.after_nil P).symm ▸ hs
  length := Nat.le_refl _
  agree _ _ := rfl
  misused _ _ := Iff.rfl
  tells _ _ := Iff.rfl
  creates _ _ := not_creates_nil

theorem Declares.trans (h : s.Declares s' Γ Γ' ν ν' P T)
    (h' : s'.Declares s'' Γ' Γ'' ν' ν'' (T.after P) U) :
    s.Declares s'' Γ Γ'' ν ν'' P (T.followedBy U) where
  runs := Traces.followedBy_ne_nil h.runs h'.runs
  later := h.later.trans h'.later
  tracks := Traces.after_followedBy T U P ▸ h'.tracks
  length := Nat.le_trans h.length h'.length
  agree i hi := (h'.agree i (Nat.lt_of_lt_of_le hi h.length)).trans (h.agree i hi)
  misused x span := (h'.misused x span).trans (h.misused x span)
  tells x span := (h'.tells x span).trans (h.tells x span)
  creates x span hx := ((Traces.creates_followedBy h.runs h'.runs).1 hx).elim (h.creates x span)
    (h'.creates x span)

theorem declare_declares (hs : s.activation.Tracks Γ ν P) (name : String) (t : Ty) (span : Span)
    (holding : Loans) :
    s.Declares (declare name t span holding s).2 Γ ((name, t) :: Γ) ν
      (Function.update ν Γ.length s.activation.flow.locals.size) P (Γ.defines 1) where
  runs := by simp [Scope.defines]
  later := s.activation.extends_declared name t span holding
  tracks := hs.declared name t span holding
  length := Nat.le_succ _
  agree _ hi := Function.update_of_ne (Nat.ne_of_lt hi) ..
  misused := Activation.misused_declared hs.bounded name t span holding
  tells _ _ := Iff.rfl
  creates _ _ := not_creates (by simp)

theorem defines_succ (Γ : Scope) (e : String × Ty) (n : Nat) :
    (Γ.defines 1).followedBy (Scope.defines (e :: Γ) n) = Γ.defines (n + 1) := by
  simp [Scope.defines, Traces.followedBy, List.range'_succ]

/-- The names of a pattern come into scope from left to right. -/
theorem declarePattern_declares (hs : s.activation.Tracks Γ ν P) (p : TPattern) (held : Loans) :
    ∃ ν', s.Declares (declarePattern p held s).2 Γ (Γ.bindNames p.bindings) ν ν' P
      (Γ.defines p.bindings.length) := by
  suffices h : ∀ (names : List (String × Ty × Span)) (s : Lowering) (Γ : Scope) (ν : Nat → Nat)
      (P : Set Trace), s.activation.Tracks Γ ν P → ∃ ν', s.Declares
        (forIn names PUnit.unit (fun (b : String × Ty × Span) _ => do
          declare b.1 b.2.1 b.2.2 held
          pure (ForInStep.yield PUnit.unit)) s).2 Γ (Γ.bindNames names) ν ν' P
        (Γ.defines names.length) from h p.bindings s Γ ν P hs
  intro names
  induction names with
  | nil => exact fun s Γ ν P hs => ⟨ν, .refl hs⟩
  | cons n names ih =>
    intro s Γ ν P hs
    have hfirst := declare_declares hs n.1 n.2.1 n.2.2 held
    obtain ⟨ν', hrest⟩ := ih _ _ _ _ hfirst.tracks
    have := hfirst.trans hrest
    rw [defines_succ] at this
    rw [List.forIn_cons]
    exact ⟨ν', this⟩

theorem leaveScope_leaves (s s' : Lowering) (value : Loans) (position : Span) :
    s.enterScope.2.Leaves s' (leaveScope s.enterScope.1 value position s').2 := by
  obtain ⟨hquiet, htells⟩ := checkEscape_quiet value position s'
  exact ⟨⟨hquiet.points, hquiet.locals, hquiet.loans, rfl, hquiet.frontier⟩, htells⟩

/-- What has been walked within a scope is walked once the scope is left. -/
theorem Declares.walks (h : s.Declares s' Γ Γ' ν ν' P T) (hw : s'.Walks s'' Γ' ν' (T.after P) U)
    {s₃ : Lowering} (hl : s.Leaves s'' s₃) (hs : s.activation.Tracks Γ ν P) :
    s.Walks s₃ Γ ν P (T.followedBy U) := by
  have ht := hw.tracks
  rw [← Traces.after_followedBy] at ht
  have hlater := h.later.trans hw.later
  have hback : Activation.Tracks { s''.activation with scopes := s.activation.scopes } Γ ν
      ((T.followedBy U).after P) :=
    ⟨hs.places.later hlater rfl, ht.bounded, ht.reflects.restrict h.length h.agree, ht.found,
      ht.nonempty⟩
  refine ⟨Traces.followedBy_ne_nil h.runs hw.runs, hlater.trans hl.activation.extends,
    hback.rests hl.activation, fun x span => ?_, fun x span => ?_⟩
  · rw [hl.activation.extends.misused_iff hback.bounded hl.activation.points, hw.misused, h.misused,
      Traces.after_followedBy]
  · rw [hl.tells, hw.tells, h.tells, Traces.creates_followedBy h.runs hw.runs]
    exact or_congr_right (or_iff_right (h.creates x span)).symm

/-! ## Branches -/

/-- The state with another frontier. -/
def goTo (s : Lowering) (points : SortedSet Nat) : Lowering :=
  { s with activation := { s.activation with frontier := points } }

theorem Walks.tracks_goTo (h : s.Walks s' Γ ν P T) {points : SortedSet Nat} {Q : Set Trace}
    (hr : s'.activation.flow.Reflects points Γ.length ν Q) (hne : Q.Nonempty)
    (hf : ∀ x span, MisusedBy Q x span → s'.activation.flow.Misused x span) :
    (s'.goTo points).activation.Tracks Γ ν Q :=
  ⟨h.tracks.places.later (.refl _) rfl, h.tracks.bounded, hr, hf, hne⟩

/-- A second branch begins where the first one began. -/
theorem Walks.back (h : s.Walks s' Γ ν P T) (hs : s.activation.Tracks Γ ν P) :
    (s'.goTo s.activation.frontier).activation.Tracks Γ ν P :=
  h.tracks_goTo (hs.reflects.later h.later) hs.nonempty fun x span hx =>
    (h.misused x span).2 (.inl (hs.found x span hx))

/-- Two branches lead on to whatever comes behind one of them. -/
theorem Walks.join (h : s.Walks s' Γ ν P T)
    (h' : (s'.goTo s.activation.frontier).Walks s'' Γ ν P U) :
    s.Walks (s''.goTo (s''.activation.frontier.union s'.activation.frontier)) Γ ν P (T ++ U) where
  runs := by simp [h.runs]
  later := h.later.trans h'.later
  tracks := by
    have hunion := h'.tracks.reflects.union (h.tracks.reflects.later h'.later)
    rw [Set.union_comm, ← Traces.after_append] at hunion
    refine h'.tracks_goTo hunion (Traces.after_append .. ▸ h.tracks.nonempty.inl) fun x span hx => ?_
    rw [Traces.after_append] at hx
    obtain ⟨t, ht | ht, hx⟩ := hx
    · exact (h'.misused x span).2 (.inl ((h.misused x span).2 (.inr ⟨t, ht, hx⟩)))
    · exact (h'.misused x span).2 (.inr ⟨t, ht, hx⟩)
  misused x span := by
    refine (h'.misused x span).trans ((or_congr_left (h.misused x span)).trans ?_)
    rw [or_assoc, Traces.after_append, misusedBy_union]
  tells x span := by
    refine (h'.tells x span).trans ((or_congr_left (h.tells x span)).trans ?_)
    rw [or_assoc, Traces.creates_append]

/-! ## Closures -/

/-- A use moves a value if that is handed over and cannot be copied. -/
theorem decide_useKind (d : Demand) (t : Ty) :
    decide (useKind d.role t = .move) = (decide (d = .value) && !t.isCopy) := by
  unfold useKind
  cases d <;> cases t.isCopy <;> decide

/-- Each local that a closure takes is used once. -/
theorem capture_walking (span : Span) (names : List String) (hs : s.activation.Tracks Γ ν P) :
    s.Walking (capture span names) Γ ν P
        [(Γ.captures names).map fun c => .use c.1 c.2.1 (!c.2.2.isCopy) span] ∧
      (capture span names s).1.1.map (fun l => (l.name, l.ty)) = (Γ.captures names).map (·.2) := by
  induction names generalizing s P with
  | nil => exact ⟨(Quiet.pure _).walking hs, rfl⟩
  | cons name names ih =>
    rw [Walking, capture, find?_bind hs]
    cases hx : Γ.find? name with
    | none =>
      rw [Scope.captures, List.filterMap_cons_none (by rw [hx]; rfl)]
      exact ih hs
    | some found =>
      obtain ⟨hname, hty⟩ := hs.places.named name found.1 found.2 hx
      have hpoint : s.Walking (point (.use (ν found.1)
            (useKind .value (s.activation.flow.localAt (ν found.1)).ty)) span) Γ ν P
          [[.use found.1 name (!found.2.isCopy) span]] := by
        have hmove : (!found.2.isCopy) = decide (useKind .value found.2 = .move) :=
          (decide_useKind .value found.2).symm
        rw [hty, hmove]
        exact point_walking hs (Flow.mirrors_use hs.places hx _ span) (by simp)
      obtain ⟨hrest, hlocals⟩ := ih hpoint.tracks
      rw [Scope.captures, List.filterMap_cons_some (by rw [hx]; rfl)]
      exact ⟨Walks.trans hpoint hrest, congrArg₂ List.cons (Prod.ext hname hty) hlocals⟩

/-- The locals of a closure come into scope in the order in which they were taken. -/
theorem declareLocals_declares (xs : List Local) (hs : s.activation.Tracks Γ ν P) :
    ∃ ν', s.Declares (forIn xs PUnit.unit (fun (x : Local) _ => do
        declare x.name x.ty x.span ∅
        pure (ForInStep.yield PUnit.unit)) s).2 Γ ((xs.map fun x => (x.name, x.ty)).reverse ++ Γ)
      ν ν' P (Γ.defines xs.length) := by
  induction xs generalizing s Γ ν P with
  | nil => exact ⟨ν, .refl hs⟩
  | cons x xs ih =>
    have hfirst := declare_declares hs x.name x.ty x.span ∅
    obtain ⟨ν', hrest⟩ := ih hfirst.tracks
    have := hfirst.trans hrest
    rw [defines_succ] at this
    rw [List.forIn_cons, List.map_cons, List.reverse_cons, List.append_assoc]
    exact ⟨ν', this⟩

/-- The runs that have got to the body of an activation. -/
def entered (Γ : Scope) : Set Trace := (Scope.defines [] Γ.length).after {[]}

theorem empty_tracks (ν : Nat → Nat) : Activation.empty.Tracks [] ν {[]} where
  places := ⟨rfl, nofun, nofun, nofun⟩
  bounded p hp := by cases hp
  reflects := ⟨nofun, nofun⟩
  found x span hx := by
    obtain ⟨t, rfl, hx⟩ := hx
    exact absurd hx Trace.not_misuses_nil
  nonempty := ⟨[], rfl⟩

theorem not_misused_empty {x : String} {span : Span} : ¬ Flow.empty.Misused x span := by
  rintro ⟨d, hd, -⟩
  cases hd

theorem entered_cons (e : String × Ty) (Γ : Scope) :
    entered (e :: Γ) = (Γ.defines 1).after (entered Γ) := by
  have hdefines : Scope.defines [] (e :: Γ).length =
      (Scope.defines [] Γ.length).followedBy (Γ.defines 1) := by
    simp [Scope.defines, Traces.followedBy, List.range'_concat]
  rw [entered, hdefines, Traces.after_followedBy]
  rfl

/-- Whether an action walks the rest of an activation, once some locals of it have come into scope:
it tells of all misuse by the activation. -/
def Completes {α : Type} (m : LowerM α) (Γ : Scope) (f : Frame) : Prop :=
  ∀ (s : Lowering) (ν : Nat → Nat), s.activation.Tracks Γ ν (entered Γ) →
    (∀ x span, ¬ s.activation.flow.Misused x span) → ∀ x span,
    (m s).2.Tells x span ↔ s.Tells x span ∨ f.Misuses x span

theorem Completes.declareParam {α : Type} {m : LowerM α} {p : Binder} {f : Frame}
    (h : Completes m ((p.name, p.ty) :: Γ) f) :
    Completes (do Lowering.declareParam p; m) Γ f := by
  intro s ν hs hclean x span
  have hdecl := declare_declares hs p.name p.ty p.span ∅
  have htracks := hdecl.tracks
  rw [← entered_cons (p.name, p.ty)] at htracks
  refine (h _ _ htracks (fun x span hx => ?_) x span).trans (or_congr_left (hdecl.tells x span))
  exact hclean x span ((hdecl.misused x span).1 hx)

/-- The creation of a closure moves nothing. -/
theorem tracks_create {a : Activation} (h : a.Tracks Γ ν P) (locals : Scope) (body : TExpr) :
    a.Tracks Γ ν (Traces.after [[.create locals body]] P) where
  places := h.places
  bounded := h.bounded
  reflects := by
    refine ⟨h.reflects.within, fun i hi => (h.reflects.invalid i hi).trans ?_⟩
    simp [Traces.mem_after_singleton, Trace.moved_snoc, TraceEvent.Sets]
  found x span hx := by
    obtain ⟨_, hmem, hx⟩ := hx
    obtain ⟨t, ht, rfl⟩ := Traces.mem_after_singleton.1 hmem
    rcases Trace.misuses_snoc.1 hx with hx | ⟨_, _, he, -⟩
    · exact h.found x span ⟨t, ht, hx⟩
    · cases he
  nonempty := Traces.after_nonempty h.nonempty (by simp)

theorem creates_create {locals : Scope} {body : TExpr} {x : String} {span : Span} :
    Traces.Creates [[.create locals body]] x span ↔ (Frame.of locals body).Misuses x span := by
  simp [Traces.Creates]

theorem inActivation_walking (hs : s.activation.Tracks Γ ν P) {m : LowerM Unit} {locals : Scope}
    {body : TExpr} (hm : ∀ x span, (m { s with activation := .empty }).2.Tells x span ↔
      s.Tells x span ∨ (Frame.of locals body).Misuses x span) :
    s.Walking (inActivation m) Γ ν P [[.create locals body]] := by
  have htracks := tracks_create hs locals body
  refine ⟨by simp, .refl _, htracks, fun x span => ?_, fun x span => ?_⟩
  · exact (or_iff_left_of_imp (htracks.found x span)).symm
  · exact (hm x span).trans (or_congr_right creates_create.symm)

theorem locals_completes {m : LowerM Unit} {f : Frame} (xs : List Local)
    (hm : Completes m (xs.map fun x => (x.name, x.ty)).reverse f) (s : Lowering) (x : String)
    (span : Span) :
    ((do
      for x in xs do
        declare x.name x.ty x.span ∅
      m : LowerM Unit) { s with activation := .empty }).2.Tells x span ↔
      s.Tells x span ∨ f.Misuses x span := by
  have hempty : Activation.Tracks ({ s with activation := .empty } : Lowering).activation [] id
      {[]} := empty_tracks id
  obtain ⟨ν, hdecl⟩ := declareLocals_declares xs hempty
  rw [List.append_nil] at hdecl
  have htracks := hdecl.tracks
  have hentered : (Scope.defines [] xs.length).after {[]} =
      entered (xs.map fun x => (x.name, x.ty)).reverse := by
    simp [entered]
  rw [hentered] at htracks
  exact (hm _ _ htracks (fun x span hx => not_misused_empty ((hdecl.misused x span).1 hx)) x
    span).trans (or_congr_left (hdecl.tells x span))

/-- A closure is taken apart in an activation of its own, which comes back to the present one. -/
theorem closure_walking (hs : s.activation.Tracks Γ ν P) {m : LowerM Unit} {p : Binder}
    {body : TExpr} (hm : ∀ locals, Completes m ((p.name, p.ty) :: locals)
      (Frame.of ((p.name, p.ty) :: locals) body)) (span : Span) :
    s.Walking (closure p (body.free []) span m) Γ ν P [Γ.closure p body span] := by
  let names := ((SortedSet.ofList (body.free [])).filter (fun name => name != p.name)).toList
  obtain ⟨hwalks, hlocals⟩ := capture_walking span names hs
  have hinner : (capture span names s).2.Walking (inActivation (do
      for x in (capture span names s).1.1 do
        declare x.name x.ty x.span ∅
      declareParam p
      m)) Γ ν (Traces.after [(Γ.captures names).map fun c => .use c.1 c.2.1 (!c.2.2.isCopy) span] P)
      [[.create ((p.name, p.ty) :: ((Γ.captures names).map (·.2)).reverse) body]] := by
    refine inActivation_walking hwalks.tracks (locals_completes _ ?_ _)
    rw [hlocals]
    exact (hm _).declareParam
  exact Walks.trans hwalks hinner

/-! ## The end of an activation -/

theorem tells_forIn_report (ds : List Diagnostic) (s : Lowering) (x : String) (span : Span) :
    (forIn ds PUnit.unit (fun d _ => do
      report d
      pure (ForInStep.yield PUnit.unit)) s).2.Tells x span ↔
      s.Tells x span ∨ ∃ d ∈ ds, d.TellsMisuse x span := by
  induction ds generalizing s with
  | nil => exact (or_iff_left (by simp)).symm
  | cons d ds ih =>
    rw [List.forIn_cons]
    refine (ih (report d s).2).trans ((or_congr_left (tells_report d s x span)).trans ?_)
    rw [or_assoc]
    simp

theorem category_of_mem_conflictFaults {f : Flow} {d : Diagnostic} (hd : d ∈ f.conflictFaults) :
    d.category = .conflictingBorrow := by
  obtain ⟨p, -, hd⟩ := List.mem_filterMap.1 hd
  obtain ⟨c, -, rfl⟩ := Option.map_eq_some_iff.1 hd
  unfold Flow.conflictReport
  dsimp only
  split <;> rfl

/-- At the end of an activation all misuse is told of that has been found. -/
theorem tells_close (value : Loans) (position : Span) (s : Lowering)
    (hb : s.activation.flow.Bounded) (x : String) (span : Span) :
    (close value position s).2.Tells x span ↔
      s.Tells x span ∨ s.activation.flow.Misused x span := by
  have hquiet := checkEscape_quiet value position s
  have hmisused : (checkEscape value position s).2.activation.flow.Misused x span ↔
      s.activation.flow.Misused x span :=
    hquiet.activation.extends.misused_iff hb hquiet.activation.points
  have hrun : (close value position s).2.Tells x span ↔
      ((checkEscape value position s).2.Tells x span ∨
        ∃ d ∈ (checkEscape value position s).2.activation.flow.moveFaults, d.TellsMisuse x span) ∨
      ∃ d ∈ (checkEscape value position s).2.activation.flow.conflictFaults,
        d.TellsMisuse x span :=
    (tells_forIn_report _ _ x span).trans (or_congr_left (tells_forIn_report _ _ x span))
  rw [hrun, or_iff_left]
  · exact or_congr (hquiet.tells x span) hmisused
  · rintro ⟨d, hd, hx⟩
    exact absurd (hx.1.symm.trans (category_of_mem_conflictFaults hd)) nofun

end Lowering

end RowCheck
