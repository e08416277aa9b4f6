import RowCheck.Proofs.Ownership.Calls

/-!
Guards. When the guard of an arm fails, the next arms are tried, and what the guard has moved stays
moved. A run that evaluates the guard goes on with the body of its arm or with one of the next arms,
and what is misused on the way is found, wherever the match is. But the names of each arm stand for
new locals, also where they match the same value again.
-/
namespace RowCheck

/-! ## Evaluations within others -/

/-- An expression that is evaluated where some locals are in scope. -/
structure Evaluation where
  scope : Scope
  demand : Demand
  expr : TExpr

namespace Evaluation

/-- The courses that an evaluation may take. -/
def traces (v : Evaluation) : Traces := v.expr.traces v.scope v.demand

/-- The evaluations that an evaluation consists of. A closure that is made is not evaluated. -/
def parts : Evaluation → List Evaluation
  | ⟨_, _, .lit ..⟩ | ⟨_, _, .failed _⟩ | ⟨_, _, .var ..⟩ | ⟨_, _, .lam ..⟩ => []
  | ⟨Γ, _, .call _ f a⟩ => [⟨Γ, .read, f⟩, ⟨Γ, .value, a⟩]
  | ⟨Γ, d, .letIn _ x v b⟩ => [⟨Γ, .value, v⟩, ⟨(x.name, x.ty) :: Γ, d, b⟩]
  | ⟨Γ, d, .seq _ items⟩ =>
    items.dropLast.map (⟨Γ, .read, ·⟩) ++ items.getLast?.toList.map (⟨Γ, d, ·⟩)
  | ⟨Γ, d, .cond _ c t e⟩ => [⟨Γ, .read, c⟩, ⟨Γ, d, t⟩, ⟨Γ, d, e⟩]
  | ⟨Γ, d, .matchOn _ s arms _⟩ =>
    ⟨Γ, TArm.scrutineeDemand arms, s⟩ :: arms.flatMap fun a =>
      let Γ' := Γ.bindNames a.pattern.bindings
      a.guard.toList.map (⟨Γ', .read, ·⟩) ++ [⟨Γ', d, a.body⟩]
  | ⟨Γ, _, .tuple _ items⟩ | ⟨Γ, _, .construct _ _ _ items⟩ => items.map (⟨Γ, .value, ·⟩)
  | ⟨Γ, _, .binary _ _ a b⟩ => [⟨Γ, .read, a⟩, ⟨Γ, .read, b⟩]
  | ⟨Γ, _, .unary _ _ a⟩ | ⟨Γ, _, .deref _ a⟩ => [⟨Γ, .read, a⟩]
  | ⟨_, _, .borrow _ _ (.var ..)⟩ => []
  | ⟨Γ, _, .borrow _ _ (.deref _ r)⟩ => [⟨Γ, .read, r⟩]
  | ⟨Γ, _, .borrow _ _ a⟩ => [⟨Γ, .value, a⟩]
  | ⟨Γ, _, .assign _ (.deref _ r) v⟩ => [⟨Γ, .value, v⟩, ⟨Γ, .read, r⟩]
  | ⟨Γ, _, .assign _ _ v⟩ => [⟨Γ, .value, v⟩]

/-- Whether an evaluation is another one, or within it. -/
def Contains : Evaluation → Evaluation → Prop := Relation.ReflTransGen fun v w => w ∈ v.parts

end Evaluation

/-- The arms of a match. -/
def TExpr.arms : TExpr → List TArm
  | matchOn _ _ arms _ => arms
  | _ => []

/-- Whether some run of a part has a given course somewhere. -/
def Traces.Embed (T : Traces) (u : Trace) : Prop := ∃ before later, before ++ u ++ later ∈ T

section

variable {Γ : Scope} {d : Demand} {e g : TExpr} {T U : Traces} {t u : Trace}
  {arms first last : List TArm} {arm : TArm}

namespace Traces

theorem embed_of_mem (h : u ∈ T) : T.Embed u := ⟨[], [], by simpa using h⟩

theorem Embed.followedBy (h : T.Embed u) (hU : U ≠ []) : (T.followedBy U).Embed u := by
  obtain ⟨before, later, h⟩ := h
  obtain ⟨t, ht⟩ := List.exists_mem_of_ne_nil U hU
  exact ⟨before, later ++ t, mem_followedBy.2 ⟨_, h, t, ht, by simp⟩⟩

theorem Embed.behind (h : U.Embed u) (hT : T ≠ []) : (T.followedBy U).Embed u := by
  obtain ⟨before, later, h⟩ := h
  obtain ⟨t, ht⟩ := List.exists_mem_of_ne_nil T hT
  exact ⟨t ++ before, later, mem_followedBy.2 ⟨t, ht, _, h, by simp⟩⟩

theorem Embed.or_left (h : T.Embed u) : Embed (T ++ U) u := by
  obtain ⟨before, later, h⟩ := h
  exact ⟨before, later, List.mem_append_left _ h⟩

theorem Embed.or_right (h : U.Embed u) : Embed (T ++ U) u := by
  obtain ⟨before, later, h⟩ := h
  exact ⟨before, later, List.mem_append_right _ h⟩

end Traces

open Lowering Traces

namespace TExpr

theorem tracesAll_embed {es : List TExpr} (he : e ∈ es) (hu : u ∈ e.traces Γ .value) :
    (tracesAll Γ es).Embed u := by
  induction es with
  | nil => cases he
  | cons f es ih =>
    rw [tracesAll]
    rcases List.mem_cons.1 he with rfl | he
    · exact (embed_of_mem hu).followedBy (tracesAll_ne_nil Γ es)
    · exact (ih he).behind (traces_ne_nil Γ .value f)

theorem tracesSeq_embed_item {es : List TExpr} (he : e ∈ es.dropLast)
    (hu : u ∈ e.traces Γ .read) : (tracesSeq Γ d es).Embed u := by
  induction es with
  | nil => cases he
  | cons f es ih =>
    cases es with
    | nil => cases he
    | cons f' es =>
      rw [tracesSeq]
      rcases List.mem_cons.1 he with rfl | he
      · exact (embed_of_mem hu).followedBy (tracesSeq_ne_nil Γ d _)
      · exact (ih he).behind (traces_ne_nil Γ .read f)

theorem tracesSeq_embed_last {es : List TExpr} (he : e ∈ es.getLast?)
    (hu : u ∈ e.traces Γ d) : (tracesSeq Γ d es).Embed u := by
  induction es with
  | nil => cases he
  | cons f es ih =>
    cases es with
    | nil =>
      obtain rfl : f = e := by simpa using he
      exact embed_of_mem hu
    | cons f' es =>
      rw [tracesSeq]
      exact (ih he).behind (traces_ne_nil Γ .read f)

/-- Arms may be passed over since their patterns do not match. -/
theorem mem_tracesArms_append (first : List TArm) (h : u ∈ tracesArms Γ d last) :
    u ∈ tracesArms Γ d (first ++ last) := by
  induction first with
  | nil => exact h
  | cons a first ih =>
    rw [List.cons_append, tracesArms]
    refine List.mem_append_right _ (mem_followedBy.2 ⟨[], ?_, u, ih, rfl⟩)
    rcases a with ⟨p, _ | g, b⟩ <;> simp [tracesPassed]

theorem tracesArms_embed_arm (harm : arm ∈ arms) (h : (tracesArm Γ d arm).Embed u) :
    (tracesArms Γ d arms).Embed u := by
  obtain ⟨before, later, h⟩ := h
  obtain ⟨first, last, rfl⟩ := List.append_of_mem harm
  refine ⟨before, later, mem_tracesArms_append first ?_⟩
  rw [tracesArms]
  exact List.mem_append_left _ h

/-- A guard that succeeds comes before the body of its arm. -/
theorem tracesArm_embed (hg : g ∈ arm.guard)
    (ht : t ∈ g.traces (Γ.bindNames arm.pattern.bindings) .read)
    (hu : u ∈ arm.body.traces (Γ.bindNames arm.pattern.bindings) d) :
    (tracesArm Γ d arm).Embed (t ++ u) := by
  obtain ⟨p, _, b⟩ := arm
  obtain rfl := Option.mem_def.1 hg
  rw [tracesArm]
  exact (embed_of_mem (mem_followedBy.2 ⟨t, ht, u, hu, rfl⟩)).behind (defines_ne_nil Γ _)

theorem tracesArm_embed_guard (hg : g ∈ arm.guard)
    (ht : t ∈ g.traces (Γ.bindNames arm.pattern.bindings) .read) : (tracesArm Γ d arm).Embed t := by
  obtain ⟨p, _, b⟩ := arm
  obtain rfl := Option.mem_def.1 hg
  rw [tracesArm]
  exact ((embed_of_mem ht).followedBy (traces_ne_nil _ d b)).behind (defines_ne_nil Γ _)

theorem tracesArm_embed_body (hu : u ∈ arm.body.traces (Γ.bindNames arm.pattern.bindings) d) :
    (tracesArm Γ d arm).Embed u := by
  obtain ⟨p, _ | g, b⟩ := arm
  · rw [tracesArm]
    exact (embed_of_mem hu).behind (defines_ne_nil Γ _)
  · rw [tracesArm]
    exact ((embed_of_mem hu).behind (traces_ne_nil _ .read g)).behind (defines_ne_nil Γ _)

/-- A guard that fails comes before the next arms. -/
theorem tracesArms_embed (hg : g ∈ arm.guard)
    (ht : t ∈ g.traces (Γ.bindNames arm.pattern.bindings) .read)
    (hu : u ∈ tracesArms Γ d last) : (tracesArms Γ d (first ++ arm :: last)).Embed (t ++ u) := by
  obtain ⟨p, _, b⟩ := arm
  obtain rfl := Option.mem_def.1 hg
  let defined : Trace := (List.range' Γ.length p.bindings.length).map .define
  refine ⟨defined, [], mem_tracesArms_append first ?_⟩
  rw [tracesArms, tracesPassed]
  have hguard : defined ++ t ∈ (Γ.defines p.bindings.length).followedBy
      (g.traces (Γ.bindNames p.bindings) .read) :=
    mem_followedBy.2 ⟨defined, List.mem_singleton_self _, t, ht, rfl⟩
  refine List.mem_append_right _ (mem_followedBy.2 ⟨_, List.mem_cons_of_mem _ hguard, u, hu, ?_⟩)
  simp

/-- What happens in the arms of a match happens behind its scrutinee. -/
theorem traces_embed_arms (h : (tracesArms Γ d e.arms).Embed u) : (e.traces Γ d).Embed u := by
  cases e with
  | matchOn i s arms tree =>
    have harms : arms ≠ [] := by
      rintro rfl
      obtain ⟨before, later, h⟩ := h
      cases h
    rw [traces, if_neg (by simpa using harms)]
    exact h.behind (traces_ne_nil Γ _ s)
  | _ =>
    obtain ⟨before, later, h⟩ := h
    cases h

end TExpr

namespace Evaluation

variable {v w : Evaluation}

/-- Each run of a part happens in the course of the evaluation that it is a part of. -/
theorem embed_of_mem_parts (hw : w ∈ v.parts) (hu : u ∈ w.traces) : v.traces.Embed u := by
  obtain ⟨Γ, d, e⟩ := v
  change (e.traces Γ d).Embed u
  cases e with
  | lit | failed | var | lam => cases hw
  | call i f a =>
    rw [TExpr.traces]
    rcases List.mem_pair.1 hw with rfl | rfl
    · exact (embed_of_mem hu).followedBy (traces_ne_nil Γ _ a)
    · exact (embed_of_mem hu).behind (traces_ne_nil Γ _ f)
  | letIn i x value b =>
    rw [TExpr.traces]
    rcases List.mem_pair.1 hw with rfl | rfl
    · refine (embed_of_mem hu).followedBy ?_
      exact followedBy_ne_nil (defines_ne_nil Γ 1) (traces_ne_nil _ d b)
    · exact ((embed_of_mem hu).behind (defines_ne_nil Γ 1)).behind (traces_ne_nil Γ _ value)
  | seq i items =>
    rw [TExpr.traces]
    rcases List.mem_append.1 hw with hw | hw
    · obtain ⟨e, he, rfl⟩ := List.mem_map.1 hw
      exact TExpr.tracesSeq_embed_item he hu
    · obtain ⟨e, he, rfl⟩ := List.mem_map.1 hw
      exact TExpr.tracesSeq_embed_last (Option.mem_toList.1 he) hu
  | cond i c a b =>
    rw [TExpr.traces]
    rcases List.mem_cons.1 hw with rfl | hw
    · refine (embed_of_mem hu).followedBy ?_
      exact List.append_ne_nil_of_left_ne_nil (traces_ne_nil Γ d a) _
    · rcases List.mem_pair.1 hw with rfl | rfl
      · exact (embed_of_mem hu).or_left.behind (traces_ne_nil Γ _ c)
      · exact (embed_of_mem hu).or_right.behind (traces_ne_nil Γ _ c)
  | matchOn i s arms tree =>
    rcases List.mem_cons.1 hw with rfl | hw
    · rw [TExpr.traces]
      exact (embed_of_mem hu).followedBy (tracesArms_ne_nil Γ d arms)
    · obtain ⟨arm, harm, hw⟩ := List.mem_flatMap.1 hw
      refine TExpr.traces_embed_arms (TExpr.tracesArms_embed_arm harm ?_)
      rcases List.mem_append.1 hw with hw | hw
      · obtain ⟨g, hg, rfl⟩ := List.mem_map.1 hw
        exact TExpr.tracesArm_embed_guard (Option.mem_toList.1 hg) hu
      · obtain rfl := List.mem_singleton.1 hw
        exact TExpr.tracesArm_embed_body hu
  | tuple i items | construct i typeName variant items =>
    obtain ⟨e, he, rfl⟩ := List.mem_map.1 hw
    rw [TExpr.traces]
    exact TExpr.tracesAll_embed he hu
  | binary i op a b =>
    rw [TExpr.traces]
    rcases List.mem_pair.1 hw with rfl | rfl
    · exact (embed_of_mem hu).followedBy (traces_ne_nil Γ _ b)
    · exact (embed_of_mem hu).behind (traces_ne_nil Γ _ a)
  | unary i op a | deref i a =>
    obtain rfl := List.mem_singleton.1 hw
    rw [TExpr.traces]
    exact embed_of_mem hu
  | borrow i kind a =>
    cases a with
    | var => cases hw
    | _ =>
      obtain rfl := List.mem_singleton.1 hw
      exact embed_of_mem (by simpa only [Evaluation.traces, TExpr.traces] using hu)
  | assign i target value =>
    cases target with
    | var j x =>
      obtain rfl := List.mem_singleton.1 hw
      rw [TExpr.traces]
      exact (embed_of_mem hu).followedBy (List.cons_ne_nil _ _)
    | deref j r =>
      rw [TExpr.traces]
      rcases List.mem_pair.1 hw with rfl | rfl
      · exact (embed_of_mem hu).followedBy (traces_ne_nil Γ _ r)
      · exact (embed_of_mem hu).behind (traces_ne_nil Γ _ value)
    | _ =>
      obtain rfl := List.mem_singleton.1 hw
      exact embed_of_mem (by simpa only [Evaluation.traces, TExpr.traces] using hu)

theorem Contains.embed (h : v.Contains w) (hu : w.traces.Embed u) : v.traces.Embed u := by
  induction h using Relation.ReflTransGen.head_induction_on with
  | refl => exact hu
  | head hpart _ ih =>
    obtain ⟨before, later, h⟩ := ih
    obtain ⟨first, last, h⟩ := embed_of_mem_parts hpart h
    exact ⟨first ++ before, later ++ last, by simpa using h⟩

end Evaluation

theorem Trace.Misuses.behind {name : String} {span : Span} (h : u.Misuses name span) (t : Trace) :
    Trace.Misuses (t ++ u) name span := by
  obtain ⟨i, before, moves, later, rfl, hmoved⟩ := h
  exact ⟨i, t ++ before, moves, later, by simp, moved_append.2 (.inl hmoved)⟩

/-- The evaluation of its body, once an activation has its locals. -/
def Frame.evaluation (g : Frame) : Evaluation := ⟨g.locals, .value, g.body⟩

/-- What is misused somewhere in the course of an activation is misused by a run of it. -/
theorem Frame.misuses_of_embed {g : Frame} {v : Evaluation} (hv : g.evaluation.Contains v)
    (hu : v.traces.Embed u) {name : String} {span : Span} (h : u.Misuses name span) :
    ∃ t ∈ g.traces, t.Misuses name span := by
  obtain ⟨before, later, hrun⟩ := (hv.embed hu).behind (defines_ne_nil [] g.locals.length)
  exact ⟨_, hrun, (h.behind before).append later⟩

end

/-! ## Guards -/

section

variable {Γ : Scope} {d : Demand} {e test : TExpr} {first last : List TArm} {arm : TArm}
  {t u : Trace} {name : String} {span : Span}

/-- What a guard and the body of its arm misuse is told of by the check, and so is what a guard and the
next arms misuse, wherever in a function the match is. -/
theorem TFunction.checkOwnership_tellsGuards (f : TFunction) {g : Frame}
    (hg : (Frame.of [] f.body).Reaches g)
    (he : g.evaluation.Contains ⟨Γ, d, e⟩) (harms : e.arms = first ++ arm :: last)
    (htest : test ∈ arm.guard) (ht : t ∈ test.traces (Γ.bindNames arm.pattern.bindings) .read)
    (hu : u ∈ arm.body.traces (Γ.bindNames arm.pattern.bindings) d ∨ u ∈ TExpr.tracesArms Γ d last)
    (h : Trace.Misuses (t ++ u) name span) :
    ∃ fault ∈ f.checkOwnership.2, fault.TellsMisuse name span := by
  refine (Lowering.tells_iff f.body name span).2 ⟨g, hg, Frame.misuses_of_embed he ?_ h⟩
  refine TExpr.traces_embed_arms ?_
  rw [harms]
  rcases hu with hu | hu
  · exact TExpr.tracesArms_embed_arm (by simp) (TExpr.tracesArm_embed htest ht hu)
  · exact TExpr.tracesArms_embed htest ht hu

/-- Of what a guard has moved, the next arms misuse the locals from around the match: the names of each
arm stand for new ones. -/
theorem TExpr.misuses_of_tracesArms (hu : u ∈ tracesArms Γ d last)
    (h : Trace.Misuses (t ++ u) name span) : t.Misuses name span ∨ u.Misuses name span ∨
      ∃ i < Γ.length, t.Moved i ∧ ∃ moves, .use i name moves span ∈ u := by
  obtain ⟨i, before, moves, later, hsplit, hmoved⟩ := h
  rcases Trace.append_eq_append_cons hsplit with ⟨mid, hfirst⟩ | ⟨mid, rfl, hlast⟩
  · exact .inl ⟨i, before, moves, mid, hfirst, hmoved⟩
  · refine .inr ?_
    rcases Nat.lt_or_ge i Γ.length with hi | hi
    · rcases Trace.moved_append.1 hmoved with hmid | ⟨hold, -⟩
      · exact .inl ⟨i, mid, moves, later, hlast, hmid⟩
      · exact .inr ⟨i, hi, hold, moves, by simp [hlast]⟩
    · have hintroduce := tracesArms_introduce last Γ d u hu
      exact .inl ⟨i, mid, moves, later, hlast, hintroduce.moved hlast hi hmoved⟩

end

/-- A function that matches a string by two arms, the first one with a guard that hands something over:
`fn retry(s: String, c: bool) { match s { a if { let t = x; c } => guarded, b => other } }`. -/
def retry (a b : Pattern) (x : String) (guarded other : Expr) : Decl :=
  let param := fun x t => Param.mk ⟨.synthetic, x⟩ (some (.named .synthetic t []))
  .fn ⟨.synthetic, ⟨.synthetic, "retry"⟩, [param "s" "String", param "c" "bool"], none, none,
    .matchOn .synthetic (.var .synthetic "s")
      [.mk a (some (handOver x ⟨0, 22, 23⟩ "t" (.var .synthetic "c"))) guarded,
        .mk b none other]⟩

/-- The guard moves the string itself, and the arm that is tried when it fails uses it. -/
theorem retry_told : ∃ f, (retry (.wild .synthetic) (.wild .synthetic) "s" (.lit .synthetic .unit)
      (handOver "s" ⟨0, 42, 43⟩ "v" (.lit .synthetic .unit))).function? = some f ∧
    ∃ d ∈ f.checkOwnership.2, d.TellsMisuse "s" ⟨0, 42, 43⟩ := by
  obtain ⟨f, hf, arm, harm, test, htest, t, ht, u, hu, h⟩ : ∃ f ∈ (retry (.wild .synthetic)
      (.wild .synthetic) "s" (.lit .synthetic .unit)
      (handOver "s" ⟨0, 42, 43⟩ "v" (.lit .synthetic .unit))).function?,
      let v := (Frame.of [] f.body).evaluation
      ∃ arm ∈ v.expr.arms.head?, ∃ test ∈ arm.guard,
      ∃ t ∈ test.traces (v.scope.bindNames arm.pattern.bindings) .read,
      ∃ u ∈ TExpr.tracesArms v.scope v.demand v.expr.arms.tail,
        Trace.Misuses (t ++ u) "s" ⟨0, 42, 43⟩ := by
    decide +kernel
  have harms : (Frame.of [] f.body).evaluation.expr.arms = [] ++ arm :: _ :=
    List.eq_cons_of_mem_head? harm
  exact ⟨f, hf, f.checkOwnership_tellsGuards (.refl _) .refl harms htest ht (.inr hu) h⟩

/-- The string is reported as moved if it is used again by the arm of the guard. If it is used by the arm
that is tried when the guard fails, nothing is found. -/
theorem retry_passes :
    let unit := Expr.lit .synthetic .unit
    let retry := retry (.var .synthetic "a") (.var .synthetic "b") "a"
    (∃ f, (retry (handOver "a" ⟨0, 42, 43⟩ "v" unit) unit).function? = some f ∧
      ∃ d ∈ f.checkOwnership.2, d.TellsMisuse "a" ⟨0, 42, 43⟩) ∧
    ∃ f, (retry unit (handOver "b" ⟨0, 42, 43⟩ "v" unit)).function? = some f ∧
      f.checkOwnership.2 = [] ∧ ∃ t ∈ (Frame.of [] f.body).traces,
        t.any (·.isUseAt ⟨0, 22, 23⟩) = true ∧ t.any (·.isUseAt ⟨0, 42, 43⟩) = true :=
  ⟨⟨Option.get _ (by decide +kernel), (Option.some_get _).symm, by decide +kernel⟩,
    Option.get _ (by decide +kernel), (Option.some_get _).symm, by decide +kernel, by decide +kernel⟩

end RowCheck
