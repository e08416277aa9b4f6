import RowCheck.Proofs.Ownership.Conflicts

/-!
The calls of a closure. What a closure has captured keeps its place from one call to the next, while
its parameters, and all that its body binds, come into scope anew at each call. The check walks the
body once, as if the closure were called once. That is enough as long as no call leaves a captured
local moved: what several calls misuse is then misused by one of them alone.
-/
namespace RowCheck

namespace Trace

variable {t u before later : Trace} {e : TraceEvent} {i n m : Nat} {name : String} {moves : Bool}
  {span : Span}

theorem moved_append :
    Moved (t ++ u) i ↔ Moved u i ∨ Moved t i ∧ ∀ e ∈ u, ¬ e.Sets i := by
  induction u using List.reverseRecOn with
  | nil => simp [Moved]
  | append_singleton u e ih =>
    rw [← List.append_assoc, moved_snoc, moved_snoc, ih, List.forall_mem_append, or_and_right,
      ← or_assoc, and_assoc]
    simp

/-- An event of two runs, one after the other, is one of the first or one of the second. -/
theorem append_eq_append_cons (h : t ++ u = before ++ e :: later) :
    (∃ mid, t = before ++ e :: mid) ∨ ∃ mid, before = t ++ mid ∧ u = mid ++ e :: later := by
  rcases List.append_eq_append_iff.1 h with ⟨mid, hbefore, hu⟩ | ⟨mid, ht, hlater⟩
  · exact .inr ⟨mid, hbefore, hu⟩
  · cases mid with
    | nil => exact .inr ⟨[], by simpa using ht.symm, by simpa using hlater.symm⟩
    | cons d mid =>
      obtain ⟨rfl, -⟩ := List.cons.inj hlater
      exact .inl ⟨mid, ht⟩

/-- Whether every local from number `n` on comes into scope before it is used. -/
def Introduces (n : Nat) (t : Trace) : Prop :=
  ∀ before i name moves span later, t = before ++ .use i name moves span :: later → n ≤ i →
    .define i ∈ before

/-- What comes into scope in a run may be used in what follows. -/
theorem Introduces.append (ht : t.Introduces n) (hu : u.Introduces m)
    (hdefined : ∀ i, n ≤ i → i < m → .define i ∈ t) : Introduces n (t ++ u) := by
  intro before i name moves span later h hi
  rcases append_eq_append_cons h with ⟨mid, hfirst⟩ | ⟨mid, rfl, hsecond⟩
  · exact ht before i name moves span mid hfirst hi
  · rcases Nat.lt_or_ge i m with him | him
    · exact List.mem_append_left _ (hdefined i hi him)
    · exact List.mem_append_right _ (hu mid i name moves span later hsecond him)

/-- What has been moved before it comes into scope is used by none. -/
theorem Introduces.moved (hu : u.Introduces n) (h : u = before ++ .use i name moves span :: later)
    (hi : n ≤ i) (hmoved : Moved (t ++ before) i) : before.Moved i := by
  refine (moved_append.1 hmoved).resolve_right fun ⟨_, hsets⟩ => ?_
  exact hsets _ (hu before i name moves span later h hi) (.inl rfl)

/-- A use of a local from before is none of one that has to come into scope. -/
theorem introduces_of_uses (h : ∀ i name moves span, .use i name moves span ∈ t → i < n) :
    t.Introduces n := by
  rintro before i name moves span later rfl hi
  exact absurd (h i name moves span (by simp)) (Nat.not_lt.2 hi)

end Trace

/-! ## Locals come into scope before they are used -/

/-- Whether every local from number `n` on comes into scope before it is used, in all runs. -/
def Traces.Introduce (n : Nat) (T : Traces) : Prop := ∀ t ∈ T, t.Introduces n

section

variable {Γ : Scope} {T U : Traces} {n k : Nat}

theorem Traces.introduce_of_uses {t : Trace}
    (h : ∀ i name moves span, .use i name moves span ∈ t → i < n) : Traces.Introduce n [t] := by
  simpa [Introduce] using Trace.introduces_of_uses h

theorem Traces.introduce_idle (n : Nat) : Traces.Introduce n [[]] := introduce_of_uses (by simp)

theorem Traces.Introduce.followedBy (hT : T.Introduce n) (hU : U.Introduce n) :
    (T.followedBy U).Introduce n := by
  intro t ht
  obtain ⟨a, ha, b, hb, rfl⟩ := mem_followedBy.1 ht
  exact (hT a ha).append (hU b hb) fun i hi hlt => absurd hlt (Nat.not_lt.2 hi)

theorem Traces.Introduce.append (hT : T.Introduce n) (hU : U.Introduce n) :
    Traces.Introduce n (T ++ U) :=
  fun t ht => (List.mem_append.1 ht).elim (hT t) (hU t)

theorem Scope.mem_defines {t : Trace} (ht : t ∈ Γ.defines k) {e : TraceEvent} :
    e ∈ t ↔ ∃ i, Γ.length ≤ i ∧ i < Γ.length + k ∧ e = .define i := by
  obtain rfl := List.mem_singleton.1 ht
  simp [List.mem_range'_1, and_assoc, eq_comm]

/-- The next locals come into scope, and what follows may use them. -/
theorem Scope.defines_introduce (hT : T.Introduce (Γ.length + k)) :
    ((Γ.defines k).followedBy T).Introduce Γ.length := by
  intro t ht
  obtain ⟨a, ha, b, hb, rfl⟩ := Traces.mem_followedBy.1 ht
  refine Trace.Introduces.append (Trace.introduces_of_uses fun i name moves span h => ?_) (hT b hb)
    fun i hi hlt => (mem_defines ha).2 ⟨i, hi, hlt, rfl⟩
  obtain ⟨_, -, -, h⟩ := (mem_defines ha).1 h
  cases h

theorem Scope.use_introduce (Γ : Scope) (name : String) (moves : Bool) (span : Span) :
    Traces.Introduce Γ.length [Γ.use name moves span] := by
  refine Traces.introduce_of_uses fun i x m position h => ?_
  unfold Scope.use at h
  split at h
  · rename_i j t hfind
    cases List.mem_singleton.1 h
    exact lt_of_find? hfind
  · cases h

theorem Scope.assign_introduce (Γ : Scope) (name : String) :
    Traces.Introduce Γ.length [Γ.assign name] := by
  refine Traces.introduce_of_uses fun i x m position h => ?_
  unfold Scope.assign at h
  split at h <;> simp at h

theorem Scope.closure_introduce (Γ : Scope) (p : Binder) (body : TExpr) (span : Span) :
    Traces.Introduce Γ.length [Γ.closure p body span] := by
  refine Traces.introduce_of_uses fun i x m position h => ?_
  unfold Scope.closure at h
  simp only [List.mem_append, List.mem_map, List.mem_singleton, reduceCtorEq, or_false,
    TraceEvent.use.injEq, Scope.captures, List.mem_filterMap] at h
  obtain ⟨c, ⟨y, -, hc⟩, rfl, -⟩ := h
  obtain ⟨found, hfind, rfl⟩ := Option.map_eq_some_iff.1 hc
  exact lt_of_find? hfind

theorem Scope.length_bindNames (Γ : Scope) (names : List (String × Ty × Span)) :
    (Γ.bindNames names).length = Γ.length + names.length := by
  induction names generalizing Γ with
  | nil => rfl
  | cons x names ih =>
    rw [bindNames, List.foldl_cons]
    exact (ih _).trans (by simp; omega)

end

namespace TExpr

mutual

/-- The locals that an expression binds come into scope before they are used. -/
theorem traces_introduce : (e : TExpr) → ∀ (Γ : Scope) (d : Demand),
    (e.traces Γ d).Introduce Γ.length
  | .lit .., _, _ | .failed _, _, _ => by
    simpa only [traces] using Traces.introduce_idle _
  | .var i x, Γ, d => by
    simpa only [traces] using Γ.use_introduce x _ i.span
  | .call _ f a, Γ, d => by
    simpa only [traces] using (traces_introduce f Γ .read).followedBy (traces_introduce a Γ .value)
  | .lam i p b, Γ, d => by
    simpa only [traces] using Γ.closure_introduce p b i.span
  | .letIn _ x v b, Γ, d => by
    simpa only [traces] using (traces_introduce v Γ .value).followedBy
      (Scope.defines_introduce (traces_introduce b ((x.name, x.ty) :: Γ) d))
  | .seq _ items, Γ, d => by
    simpa only [traces] using tracesSeq_introduce items Γ d
  | .cond _ c t e, Γ, d => by
    simpa only [traces] using (traces_introduce c Γ .read).followedBy
      ((traces_introduce t Γ d).append (traces_introduce e Γ d))
  | .matchOn _ s arms _, Γ, d => by
    rw [traces]
    refine (traces_introduce s Γ _).followedBy ?_
    split
    · exact Traces.introduce_idle _
    · exact tracesArms_introduce arms Γ d
  | .tuple _ items, Γ, d => by
    simpa only [traces] using tracesAll_introduce items Γ
  | .construct _ _ _ args, Γ, d => by
    simpa only [traces] using tracesAll_introduce args Γ
  | .binary _ _ a b, Γ, d => by
    simpa only [traces] using (traces_introduce a Γ .read).followedBy (traces_introduce b Γ .read)
  | .unary _ _ a, Γ, d => by
    simpa only [traces] using traces_introduce a Γ .read
  | .borrow i k a, Γ, d => by
    have ha := traces_introduce a Γ
    cases a with
    | var _ x => simpa only [traces] using Γ.use_introduce x false i.span
    | deref => simpa only [traces] using ha .read
    | _ => simpa only [traces] using ha .value
  | .deref _ r, Γ, d => by
    simpa only [traces] using traces_introduce r Γ .read
  | .assign _ a v, Γ, d => by
    have ha := traces_introduce a Γ
    have hv := traces_introduce v Γ .value
    cases a with
    | var _ x => simpa only [traces] using hv.followedBy (Γ.assign_introduce x)
    | deref => simpa only [traces] using hv.followedBy (by simpa only [traces] using ha .read)
    | _ => simpa only [traces] using hv

theorem tracesAll_introduce : (es : List TExpr) → ∀ (Γ : Scope),
    (tracesAll Γ es).Introduce Γ.length
  | [], _ => by
    simpa only [tracesAll] using Traces.introduce_idle _
  | e :: es, Γ => by
    simpa only [tracesAll] using (traces_introduce e Γ .value).followedBy (tracesAll_introduce es Γ)

theorem tracesSeq_introduce : (es : List TExpr) → ∀ (Γ : Scope) (d : Demand),
    (tracesSeq Γ d es).Introduce Γ.length
  | [], _, _ => by
    simpa only [tracesSeq] using Traces.introduce_idle _
  | [e], Γ, d => by
    simpa only [tracesSeq] using traces_introduce e Γ d
  | e :: f :: es, Γ, d => by
    simpa only [tracesSeq] using (traces_introduce e Γ .read).followedBy
      (tracesSeq_introduce (f :: es) Γ d)

theorem tracesArms_introduce : (as : List TArm) → ∀ (Γ : Scope) (d : Demand),
    (tracesArms Γ d as).Introduce Γ.length
  | [], _, _ => by
    simp [tracesArms, Traces.Introduce]
  | a :: as, Γ, d => by
    simpa only [tracesArms] using (tracesArm_introduce a Γ d).append
      ((tracesPassed_introduce a Γ).followedBy (tracesArms_introduce as Γ d))

theorem tracesArm_introduce : (a : TArm) → ∀ (Γ : Scope) (d : Demand),
    (tracesArm Γ d a).Introduce Γ.length
  | .mk p (some g) b, Γ, d => by
    simp only [tracesArm]
    refine Scope.defines_introduce ?_
    rw [← Γ.length_bindNames]
    exact (traces_introduce g _ .read).followedBy (traces_introduce b _ d)
  | .mk p none b, Γ, d => by
    simp only [tracesArm]
    refine Scope.defines_introduce ?_
    rw [← Γ.length_bindNames]
    exact traces_introduce b _ d

theorem tracesPassed_introduce : (a : TArm) → ∀ (Γ : Scope),
    (tracesPassed Γ a).Introduce Γ.length
  | .mk p (some g) _, Γ => by
    simp only [tracesPassed]
    refine (Traces.introduce_idle _).append (U := (Γ.defines _).followedBy _)
      (Scope.defines_introduce ?_)
    rw [← Γ.length_bindNames]
    exact traces_introduce g _ .read
  | .mk _ none _, _ => by
    simpa only [tracesPassed] using Traces.introduce_idle _

end

end TExpr

/-! ## Calls -/

namespace Frame

variable {f g : Frame} {kept i : Nat} {t u : Trace} {runs : List Trace} {name : String} {span : Span}

/-- The activations of the closures that a run creates. -/
def created (t : Trace) : List Frame :=
  t.filterMap fun
    | .create locals body => some (of locals body)
    | _ => none

theorem reaches_of_mem_created (ht : t ∈ f.traces) (hg : g ∈ created t) : f.Reaches g := by
  obtain ⟨e, he, hg⟩ := List.mem_filterMap.1 hg
  cases e with
  | create locals body =>
    obtain rfl := Option.some.inj hg
    exact .create ht he (.refl _)
  | _ => cases hg

/-- What a call begins with: all locals but the first `kept` come into scope. -/
def renew (g : Frame) (kept : Nat) : Trace :=
  (List.range' kept (g.locals.length - kept)).map .define

/-- The events of some calls of a closure, from where it is made. The first `kept` of its locals are
there from then on, and each call evaluates the body by one of the given runs. -/
def calls (g : Frame) (kept : Nat) (runs : List Trace) : Trace :=
  (List.range' 0 kept).map .define ++ runs.flatMap (g.renew kept ++ ·)

/-- Whether a call may leave one of the first `kept` locals moved. -/
def Consumes (g : Frame) (kept : Nat) : Prop := ∃ t ∈ g.traces, ∃ i < kept, t.Moved i

instance (g : Frame) (kept : Nat) : Decidable (g.Consumes kept) :=
  inferInstanceAs (Decidable (∃ t ∈ g.traces, ∃ i < kept, t.Moved i))

theorem calls_snoc : g.calls kept (runs ++ [u]) = g.calls kept runs ++ (g.renew kept ++ u) := by
  simp [calls]

/-- A single call is a run of the activation. -/
theorem call_mem_traces (hkept : kept ≤ g.locals.length)
    (hu : u ∈ g.body.traces g.locals .value) : g.calls kept [u] ∈ g.traces := by
  refine Traces.mem_followedBy.2 ⟨_, List.mem_singleton_self _, u, hu, ?_⟩
  rw [calls, List.flatMap_singleton, renew, ← List.append_assoc, ← List.map_append,
    List.length_nil]
  congr 2
  conv_lhs => rw [← Nat.add_sub_cancel' hkept, ← List.range'_append_1, Nat.zero_add]

theorem use_not_mem_made {moves : Bool} :
    .use i name moves span ∉ g.calls kept [] := by
  simp [calls]

/-- In a call, all locals but those that are kept come into scope before they are used. -/
theorem renew_introduces (hu : u ∈ g.body.traces g.locals .value) :
    (g.renew kept ++ u).Introduces kept :=
  Trace.Introduces.append (Trace.introduces_of_uses (by simp [renew]))
    (TExpr.traces_introduce g.body g.locals .value u hu) fun i hi hlt => by
      simp only [renew, List.mem_map, List.mem_range'_1]
      exact ⟨i, by omega, rfl⟩

/-- If no call leaves a local moved that is kept, no sequence of calls does. -/
theorem calls_not_moved (hruns : ∀ u ∈ runs, u ∈ g.body.traces g.locals .value)
    (hkept : kept ≤ g.locals.length) (hconsumes : ¬ g.Consumes kept) (hi : i < kept) :
    ¬ (g.calls kept runs).Moved i := by
  induction runs using List.reverseRecOn with
  | nil =>
    rintro ⟨before, name, span, later, h, -⟩
    exact use_not_mem_made (h ▸ List.mem_append_right before List.mem_cons_self)
  | append_singleton runs u ih =>
    rw [List.forall_mem_append, List.forall_mem_singleton] at hruns
    rw [calls_snoc]
    intro hmoved
    rcases Trace.moved_append.1 hmoved with hmoved | ⟨hmoved, -⟩
    · refine hconsumes ⟨_, call_mem_traces hkept hruns.2, i, hi, ?_⟩
      rw [← List.nil_append [u], calls_snoc]
      exact Trace.moved_append.2 (.inl hmoved)
    · exact ih hruns.1 hmoved

/-- What a sequence of calls misuses, one of them misuses by itself: of what the calls before have
moved, only the locals that are kept could be used. -/
theorem misuses_of_calls (hruns : ∀ u ∈ runs, u ∈ g.body.traces g.locals .value)
    (hkept : kept ≤ g.locals.length) (hconsumes : ¬ g.Consumes kept)
    (h : (g.calls kept runs).Misuses name span) : ∃ u ∈ g.traces, u.Misuses name span := by
  induction runs using List.reverseRecOn with
  | nil =>
    obtain ⟨i, before, moves, later, h, -⟩ := h
    exact absurd (h ▸ List.mem_append_right before List.mem_cons_self) use_not_mem_made
  | append_singleton runs u ih =>
    rw [List.forall_mem_append, List.forall_mem_singleton] at hruns
    rw [calls_snoc] at h
    obtain ⟨i, before, moves, later, hsplit, hmoved⟩ := h
    rcases Trace.append_eq_append_cons hsplit with ⟨mid, hfirst⟩ | ⟨mid, rfl, hlast⟩
    · exact ih hruns.1 ⟨i, before, moves, mid, hfirst, hmoved⟩
    · have hwithin : mid.Moved i := by
        rcases Nat.lt_or_ge i kept with hi | hi
        · exact (Trace.moved_append.1 hmoved).resolve_right fun h =>
            calls_not_moved hruns.1 hkept hconsumes hi h.1
        · exact (renew_introduces hruns.2).moved hlast hi hmoved
      refine ⟨_, call_mem_traces hkept hruns.2, i, g.calls kept [] ++ mid, moves, later, ?_,
        Trace.moved_append.2 (.inl hwithin)⟩
      rw [← List.nil_append [u], calls_snoc, hlast, List.append_assoc]

end Frame

/-- A closure that leaves nothing moved of what it has captured may be called any number of times: what
a sequence of calls misuses is told of by the check. -/
theorem TFunction.checkOwnership_tellsCalls (f : TFunction) {g : Frame}
    (hg : (Frame.of [] f.body).Reaches g) {kept : Nat} (hkept : kept ≤ g.locals.length)
    (hconsumes : ¬ g.Consumes kept) {runs : List Trace}
    (hruns : ∀ u ∈ runs, u ∈ g.body.traces g.locals .value) {name : String} {span : Span}
    (h : (g.calls kept runs).Misuses name span) :
    ∃ d ∈ f.checkOwnership.2, d.TellsMisuse name span :=
  (Lowering.tells_iff f.body name span).2 ⟨g, hg, Frame.misuses_of_calls hruns hkept hconsumes h⟩

/-- A function that makes a closure which uses its local, and calls it twice:
`fn callTwice() { let s = "a"; let g = fn(u) { body }; g(()); g(()) }`. -/
def callTwice (body : Expr) : Decl :=
  let name := Name.mk .synthetic
  let call := fun span => Expr.call .synthetic (.var span "g") [.lit .synthetic .unit]
  .fn ⟨.synthetic, name "callTwice", [], none, none,
    .letIn .synthetic (name "s") none (.lit .synthetic (.string "a"))
      (.letIn .synthetic (name "g") none (.lam .synthetic [⟨name "u", none⟩] body)
        (.seq .synthetic [call ⟨0, 46, 47⟩, call ⟨0, 53, 54⟩]))⟩

/-- An expression that hands a local over to another one: `let y = x; rest`. -/
def handOver (x : String) (span : Span) (y : String) (rest : Expr) : Expr :=
  .letIn .synthetic ⟨.synthetic, y⟩ none (.var span x) rest

/-- A closure that uses its local after it has been moved, and puts a new value into it at last:
`let t = s; let v = s; s := "b"`. -/
def refill : Expr :=
  handOver "s" ⟨0, 20, 21⟩ "t" (handOver "s" ⟨0, 30, 31⟩ "v"
    (.assign .synthetic (.var .synthetic "s") (.lit .synthetic (.string "b"))))

theorem refill_told : ∃ f, (callTwice refill).function? = some f ∧
    ∃ g, (Frame.of [] f.body).Reaches g ∧ 1 ≤ g.locals.length ∧ ¬ g.Consumes 1 ∧
    ∃ u ∈ g.body.traces g.locals .value, (g.calls 1 [u, u]).Misuses "s" ⟨0, 30, 31⟩ ∧
    ∃ d ∈ f.checkOwnership.2, d.TellsMisuse "s" ⟨0, 30, 31⟩ := by
  obtain ⟨f, hf, t, ht, g, hg, hkept, hconsumes, u, hu, hmisuses⟩ :
      ∃ f ∈ (callTwice refill).function?, ∃ t ∈ (Frame.of [] f.body).traces, ∃ g ∈ Frame.created t,
        1 ≤ g.locals.length ∧ ¬ g.Consumes 1 ∧ ∃ u ∈ g.body.traces g.locals .value,
          (g.calls 1 [u, u]).Misuses "s" ⟨0, 30, 31⟩ := by
    decide +kernel
  have hreaches := Frame.reaches_of_mem_created ht hg
  exact ⟨f, hf, g, hreaches, hkept, hconsumes, u, hu, hmisuses,
    f.checkOwnership_tellsCalls hreaches hkept hconsumes (by simpa using hu) hmisuses⟩

/-- A closure that moves what it has captured: `let t = s; ()`. -/
def consume : Expr := handOver "s" ⟨0, 20, 21⟩ "t" (.lit .synthetic .unit)

/-- Its second call uses what the first one has moved, and nothing is found. -/
theorem consume_passes : ∃ f, (callTwice consume).function? = some f ∧ f.checkOwnership.2 = [] ∧
    ∃ t ∈ (Frame.of [] f.body).traces,
      t.any (·.isUseAt ⟨0, 46, 47⟩) = true ∧ t.any (·.isUseAt ⟨0, 53, 54⟩) = true ∧
      ∃ g ∈ Frame.created t, ∃ u ∈ g.body.traces g.locals .value,
        (g.calls 1 [u, u]).Misuses "s" ⟨0, 20, 21⟩ :=
  ⟨Option.get _ (by decide +kernel), (Option.some_get _).symm, by decide +kernel, by decide +kernel⟩

end RowCheck
