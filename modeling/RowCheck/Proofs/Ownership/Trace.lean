import Mathlib.Data.List.Induction
import Mathlib.Data.Set.Basic
import RowCheck.Ownership.Lower

/-!
What happens to the locals of an activation while it runs, as the list of the events that matter to
moves. A run takes one branch at each `if`, and goes through the arms of a match until one is
selected. The activations of a function are that of its chain of lambdas, and one for each closure
that a run creates. A local is misused by a run that moves it and later uses it, without a new value
since.
-/
namespace RowCheck

/-- The locals in scope with their types, the innermost first. A local is known by the number of the
locals around it. -/
abbrev Scope := List (String × Ty)

namespace Scope

/-- The number and the type of the local that a name stands for. -/
def find? : Scope → String → Option (Nat × Ty)
  | [], _ => none
  | (y, t) :: Γ, x => if y = x then some (Γ.length, t) else find? Γ x

/-- Names are bound from left to right. -/
def bindNames (Γ : Scope) (names : List (String × Ty × Span)) : Scope :=
  names.foldl (fun Γ n => (n.1, n.2.1) :: Γ) Γ

end Scope

inductive TraceEvent where
  /-- A local comes into scope with a value. -/
  | define (place : Nat)
  /-- A new value is put into a local. -/
  | assign (place : Nat)
  /-- A local is used or borrowed under its name. Its value may be moved by that. -/
  | use (place : Nat) (name : String) (moves : Bool) (span : Span)
  /-- A closure is created: the locals of its own and its body. -/
  | create (locals : Scope) (body : TExpr)

/-- The events of a run, or of a part of it, in order. -/
abbrev Trace := List TraceEvent

/-- The traces of all runs. -/
abbrev Traces := List Trace

/-- Each run of one part goes on with each of another. -/
def Traces.followedBy (T U : Traces) : Traces := T.flatMap fun t => U.map (t ++ ·)

namespace Scope

/-- The use of a name, if that is a local. -/
def use (Γ : Scope) (name : String) (moves : Bool) (span : Span) : Trace :=
  match Γ.find? name with
  | some (i, _) => [.use i name moves span]
  | none => []

/-- The assignment to a name, if that is a local. -/
def assign (Γ : Scope) (name : String) : Trace :=
  match Γ.find? name with
  | some (i, _) => [.assign i]
  | none => []

/-- New locals get the next numbers. -/
def defines (Γ : Scope) (count : Nat) : Traces := [(List.range' Γ.length count).map .define]

/-- The locals among some names, with their numbers. -/
def captures (Γ : Scope) (names : List String) : List (Nat × String × Ty) :=
  names.filterMap fun x => (Γ.find? x).map fun found => (found.1, x, found.2)

/-- A closure is made of the locals that occur free in it, each of which is used once, in ascending
order of names; they are locals of its own, as is its parameter. -/
def closure (Γ : Scope) (p : Binder) (body : TExpr) (span : Span) : Trace :=
  let names := (SortedSet.ofList (body.free [])).filter (fun name => name != p.name)
  let captures := Γ.captures names.toList
  captures.map (fun c => .use c.1 c.2.1 (!c.2.2.isCopy) span) ++
    [.create ((p.name, p.ty) :: (captures.map (·.2)).reverse) body]

end Scope

namespace TExpr

mutual

/-- The traces of an expression whose value is handed over, or only inspected. -/
def traces (Γ : Scope) (d : Demand) : TExpr → Traces
  | lit .. | failed _ => [[]]
  | var i x => [Γ.use x (decide (d = .value) && !i.ty.isCopy) i.span]
  | call _ f a => (f.traces Γ .read).followedBy (a.traces Γ .value)
  | lam i p b => [Γ.closure p b i.span]
  | letIn _ x v b =>
    (v.traces Γ .value).followedBy
      ((Γ.defines 1).followedBy (b.traces ((x.name, x.ty) :: Γ) d))
  | seq _ items => tracesSeq Γ d items
  | cond _ c t e => (c.traces Γ .read).followedBy (t.traces Γ d ++ e.traces Γ d)
  | matchOn _ s arms _ =>
    (s.traces Γ (TArm.scrutineeDemand arms)).followedBy
      (if arms.isEmpty then [[]] else tracesArms Γ d arms)
  | tuple _ items => tracesAll Γ items
  | construct _ _ _ args => tracesAll Γ args
  | binary _ _ a b => (a.traces Γ .read).followedBy (b.traces Γ .read)
  | unary _ _ a => a.traces Γ .read
  | borrow i _ (.var _ x) => [Γ.use x false i.span]
  | borrow _ _ (.deref _ reference) => reference.traces Γ .read
  | borrow _ _ inner => inner.traces Γ .value
  | deref _ reference => reference.traces Γ .read
  | assign _ (.var _ x) v => (v.traces Γ .value).followedBy [Γ.assign x]
  | assign _ (.deref _ reference) v => (v.traces Γ .value).followedBy (reference.traces Γ .read)
  | assign _ _ v => v.traces Γ .value

/-- The traces of values that become parts of another one. -/
def tracesAll (Γ : Scope) : List TExpr → Traces
  | [] => [[]]
  | e :: es => (e.traces Γ .value).followedBy (tracesAll Γ es)

/-- The traces of a sequence, whose value is that of its last item. -/
def tracesSeq (Γ : Scope) (d : Demand) : List TExpr → Traces
  | [] => [[]]
  | [e] => e.traces Γ d
  | e :: f :: es => (e.traces Γ .read).followedBy (tracesSeq Γ d (f :: es))

/-- The traces of arms: one of them is selected, and those before it are passed over. -/
def tracesArms (Γ : Scope) (d : Demand) : List TArm → Traces
  | [] => []
  | a :: as => tracesArm Γ d a ++ (tracesPassed Γ a).followedBy (tracesArms Γ d as)

/-- The traces of an arm that is selected. -/
def tracesArm (Γ : Scope) (d : Demand) : TArm → Traces
  | .mk p (some g) b =>
    let Γ' := Γ.bindNames p.bindings
    (Γ.defines p.bindings.length).followedBy ((g.traces Γ' .read).followedBy (b.traces Γ' d))
  | .mk p none b =>
    (Γ.defines p.bindings.length).followedBy (b.traces (Γ.bindNames p.bindings) d)

/-- The traces of an arm that is passed over: its pattern does not match, or its guard fails. -/
def tracesPassed (Γ : Scope) : TArm → Traces
  | .mk p (some g) _ =>
    [] :: (Γ.defines p.bindings.length).followedBy (g.traces (Γ.bindNames p.bindings) .read)
  | .mk _ none _ => [[]]

end

end TExpr

/-! ## Misuse -/

/-- Whether an event gives a local a value. -/
def TraceEvent.Sets (i : Nat) (e : TraceEvent) : Prop := e = .define i ∨ e = .assign i

namespace Trace

/-- Whether a local has been moved, without a new value since. -/
def Moved (t : Trace) (i : Nat) : Prop :=
  ∃ before name span later, t = before ++ .use i name true span :: later ∧ ∀ e ∈ later, ¬ e.Sets i

/-- Whether a local of some name is used at some place when it has been moved. -/
def Misuses (t : Trace) (name : String) (span : Span) : Prop :=
  ∃ (i : Nat) (before : Trace) (moves : Bool) (later : Trace),
    t = before ++ .use i name moves span :: later ∧ before.Moved i

variable {t : Trace} {e : TraceEvent} {i : Nat} {name : String} {span : Span}

theorem moved_snoc : Moved (t ++ [e]) i ↔
    (∃ name span, e = .use i name true span) ∨ Moved t i ∧ ¬ e.Sets i := by
  constructor
  · rintro ⟨before, name, span, later, h, hlater⟩
    induction later using List.reverseRecOn with
    | nil => exact .inl ⟨name, span, by simpa using (List.append_inj' h rfl).2⟩
    | append_singleton later d _ =>
      rw [← List.cons_append, ← List.append_assoc] at h
      obtain ⟨rfl, hd⟩ := List.append_inj' h rfl
      obtain rfl : e = d := by simpa using hd
      exact .inr ⟨⟨before, name, span, later, rfl, fun d hd => hlater d (by simp [hd])⟩,
        hlater e (by simp)⟩
  · rintro (⟨name, span, rfl⟩ | ⟨⟨before, name, span, later, rfl, hlater⟩, he⟩)
    · exact ⟨t, name, span, [], rfl, by simp⟩
    · refine ⟨before, name, span, later ++ [e], by simp, fun d hd => ?_⟩
      rcases List.mem_append.1 hd with hd | hd
      · exact hlater d hd
      · obtain rfl := List.mem_singleton.1 hd
        exact he

theorem not_misuses_nil : ¬ Misuses [] name span := by
  rintro ⟨_, before, _, _, h, -⟩
  simp at h

theorem misuses_snoc : Misuses (t ++ [e]) name span ↔
    Misuses t name span ∨ ∃ i moves, e = .use i name moves span ∧ Moved t i := by
  constructor
  · rintro ⟨i, before, moves, later, h, hmoved⟩
    induction later using List.reverseRecOn with
    | nil =>
      obtain ⟨rfl, he⟩ := List.append_inj' h rfl
      exact .inr ⟨i, moves, by simpa using he, hmoved⟩
    | append_singleton later d _ =>
      rw [← List.cons_append, ← List.append_assoc] at h
      obtain ⟨rfl, -⟩ := List.append_inj' h rfl
      exact .inl ⟨i, before, moves, later, rfl, hmoved⟩
  · rintro (⟨i, before, moves, later, rfl, hmoved⟩ | ⟨i, moves, rfl, hmoved⟩)
    · exact ⟨i, before, moves, later ++ [e], by simp, hmoved⟩
    · exact ⟨i, t, moves, [], rfl, hmoved⟩

/-- What has been moved by a run, computed event by event. -/
def moved (t : Trace) (i : Nat) : Bool :=
  t.foldl (fun m e => match e with
    | .use j _ moves _ => j = i && moves || m
    | .define j | .assign j => m && j ≠ i
    | .create .. => m) false

theorem moved_iff : t.moved i = true ↔ t.Moved i := by
  induction t using List.reverseRecOn with
  | nil => simp [moved, Moved]
  | append_singleton t e ih =>
    rw [moved_snoc, ← ih, moved, moved, List.foldl_append]
    cases e <;> simp [TraceEvent.Sets]

instance (t : Trace) (i : Nat) : Decidable (t.Moved i) := decidable_of_iff _ moved_iff

/-- Whether some event is a use, under some name at some place, of what the events before have moved. -/
def misuses (t : Trace) (name : String) (span : Span) : Bool :=
  (List.range t.length).any fun k => match t[k]? with
    | some (.use i x _ position) => x = name && position = span && moved (t.take k) i
    | _ => false

theorem misuses_iff : t.misuses name span = true ↔ t.Misuses name span := by
  simp only [misuses, List.any_eq_true, List.mem_range]
  constructor
  · rintro ⟨k, hk, h⟩
    rw [List.getElem?_eq_getElem hk] at h
    split at h
    · rename_i i x moves position he
      simp only [Bool.and_eq_true, decide_eq_true_eq] at h
      obtain ⟨⟨rfl, rfl⟩, hmoved⟩ := h
      refine ⟨i, t.take k, moves, t.drop (k + 1), ?_, moved_iff.1 hmoved⟩
      rw [← Option.some.inj he, ← List.drop_eq_getElem_cons hk, List.take_append_drop]
    · cases h
  · rintro ⟨i, before, moves, later, rfl, hmoved⟩
    exact ⟨before.length, by simp, by simpa using moved_iff.2 hmoved⟩

instance (t : Trace) (name : String) (span : Span) : Decidable (t.Misuses name span) :=
  decidable_of_iff _ misuses_iff

/-- What has been misused goes on to be so. -/
theorem Misuses.append (h : Misuses t name span) (u : Trace) : Misuses (t ++ u) name span := by
  obtain ⟨i, before, moves, later, rfl, hmoved⟩ := h
  exact ⟨i, before, moves, later ++ u, by simp, hmoved⟩

end Trace

/-! ## Activations -/

/-- What an activation is made of: the locals that it gets, and the expression that it evaluates. -/
structure Frame where
  locals : Scope
  body : TExpr

namespace Frame

/-- The activation of a chain of lambdas has all their parameters. -/
def of (Γ : Scope) : TExpr → Frame
  | .lam _ p b => of ((p.name, p.ty) :: Γ) b
  | e => ⟨Γ, e⟩

/-- The traces of an activation. Its locals come first. -/
def traces (f : Frame) : Traces :=
  (Scope.defines [] f.locals.length).followedBy (f.body.traces f.locals .value)

/-- The activations of the closures that come to be created within an activation, and itself. -/
inductive Reaches : Frame → Frame → Prop
  | refl (f : Frame) : Reaches f f
  | create {f g : Frame} {t : Trace} {locals : Scope} {body : TExpr} : t ∈ f.traces →
      .create locals body ∈ t → Reaches (of locals body) g → Reaches f g

end Frame

namespace Frame

/-- Whether a run of an activation, or of one of a closure that comes to be created within it,
misuses a local. -/
def Misuses (f : Frame) (name : String) (span : Span) : Prop :=
  ∃ g, f.Reaches g ∧ ∃ t ∈ g.traces, t.Misuses name span

end Frame

/-! ## Parts of runs -/

namespace Traces

variable {T U : Traces} {P : Set Trace} {t : Trace} {name : String} {span : Span}

theorem mem_followedBy : t ∈ T.followedBy U ↔ ∃ a ∈ T, ∃ b ∈ U, a ++ b = t := by
  simp [followedBy]

@[simp] theorem followedBy_nil (T : Traces) : T.followedBy [[]] = T := by
  simp [followedBy]

@[simp] theorem followedBy_none (T : Traces) : T.followedBy [] = [] := by
  simp [followedBy]

@[simp] theorem nil_followedBy (T : Traces) : Traces.followedBy [[]] T = T := by
  simp [followedBy]

theorem followedBy_ne_nil (hT : T ≠ []) (hU : U ≠ []) : T.followedBy U ≠ [] := by
  obtain ⟨a, ha⟩ := List.exists_mem_of_ne_nil T hT
  obtain ⟨b, hb⟩ := List.exists_mem_of_ne_nil U hU
  exact List.ne_nil_of_mem (mem_followedBy.2 ⟨a, ha, b, hb, rfl⟩)

/-- The runs that have come somewhere, gone on with. -/
def after (T : Traces) (P : Set Trace) : Set Trace := {t | ∃ p ∈ P, ∃ u ∈ T, p ++ u = t}

@[simp] theorem after_nil (P : Set Trace) : after [[]] P = P := by
  ext t
  simp [after]

@[simp] theorem nil_after (P : Set Trace) : after [] P = ∅ := by
  ext t
  simp [after]

/-- From the start, the traces are all there is. -/
theorem mem_after_start : t ∈ T.after {[]} ↔ t ∈ T := by
  constructor
  · rintro ⟨_, rfl, u, hu, rfl⟩
    exact hu
  · intro ht
    exact ⟨[], rfl, t, ht, rfl⟩

theorem after_followedBy (T U : Traces) (P : Set Trace) :
    (T.followedBy U).after P = U.after (T.after P) := by
  ext t
  constructor
  · rintro ⟨p, hp, u, hu, rfl⟩
    obtain ⟨a, ha, b, hb, rfl⟩ := mem_followedBy.1 hu
    exact ⟨p ++ a, ⟨p, hp, a, ha, rfl⟩, b, hb, List.append_assoc ..⟩
  · rintro ⟨_, ⟨p, hp, a, ha, rfl⟩, b, hb, rfl⟩
    exact ⟨p, hp, a ++ b, mem_followedBy.2 ⟨a, ha, b, hb, rfl⟩, (List.append_assoc ..).symm⟩

theorem after_append (T U : Traces) (P : Set Trace) :
    after (T ++ U) P = T.after P ∪ U.after P := by
  ext t
  constructor
  · rintro ⟨p, hp, u, hu, rfl⟩
    rcases List.mem_append.1 hu with hu | hu
    · exact .inl ⟨p, hp, u, hu, rfl⟩
    · exact .inr ⟨p, hp, u, hu, rfl⟩
  · rintro (⟨p, hp, u, hu, rfl⟩ | ⟨p, hp, u, hu, rfl⟩)
    · exact ⟨p, hp, u, List.mem_append_left _ hu, rfl⟩
    · exact ⟨p, hp, u, List.mem_append_right _ hu, rfl⟩

theorem mem_after_singleton {e : TraceEvent} : t ∈ after [[e]] P ↔ ∃ p ∈ P, p ++ [e] = t := by
  simp [after]

theorem after_nonempty (hP : P.Nonempty) (hT : T ≠ []) : (T.after P).Nonempty := by
  obtain ⟨p, hp⟩ := hP
  obtain ⟨u, hu⟩ := List.exists_mem_of_ne_nil T hT
  exact ⟨p ++ u, p, hp, u, hu, rfl⟩

/-- Whether a closure that comes to be created has a run that misuses a local. -/
def Creates (T : Traces) (name : String) (span : Span) : Prop :=
  ∃ t ∈ T, ∃ locals body, .create locals body ∈ t ∧ (Frame.of locals body).Misuses name span

theorem creates_followedBy (hT : T ≠ []) (hU : U ≠ []) :
    (T.followedBy U).Creates name span ↔ T.Creates name span ∨ U.Creates name span := by
  constructor
  · rintro ⟨t, ht, locals, body, hmem, h⟩
    obtain ⟨a, ha, b, hb, rfl⟩ := mem_followedBy.1 ht
    rcases List.mem_append.1 hmem with hmem | hmem
    · exact .inl ⟨a, ha, locals, body, hmem, h⟩
    · exact .inr ⟨b, hb, locals, body, hmem, h⟩
  · rintro (⟨a, ha, locals, body, hmem, h⟩ | ⟨b, hb, locals, body, hmem, h⟩)
    · obtain ⟨b, hb⟩ := List.exists_mem_of_ne_nil U hU
      exact ⟨a ++ b, mem_followedBy.2 ⟨a, ha, b, hb, rfl⟩, locals, body,
        List.mem_append_left _ hmem, h⟩
    · obtain ⟨a, ha⟩ := List.exists_mem_of_ne_nil T hT
      exact ⟨a ++ b, mem_followedBy.2 ⟨a, ha, b, hb, rfl⟩, locals, body,
        List.mem_append_right _ hmem, h⟩

theorem creates_append :
    Creates (T ++ U) name span ↔ T.Creates name span ∨ U.Creates name span := by
  simp only [Creates, List.mem_append, or_and_right, exists_or]

end Traces

/-- Whether one of some runs misuses a local. -/
def MisusedBy (P : Set Trace) (name : String) (span : Span) : Prop := ∃ t ∈ P, t.Misuses name span

theorem MisusedBy.after {P : Set Trace} {name : String} {span : Span} (h : MisusedBy P name span)
    {T : Traces} (hT : T ≠ []) : MisusedBy (T.after P) name span := by
  obtain ⟨t, ht, h⟩ := h
  obtain ⟨u, hu⟩ := List.exists_mem_of_ne_nil T hT
  exact ⟨t ++ u, ⟨t, ht, u, hu, rfl⟩, h.append u⟩

theorem misusedBy_union {P Q : Set Trace} {name : String} {span : Span} :
    MisusedBy (P ∪ Q) name span ↔ MisusedBy P name span ∨ MisusedBy Q name span := by
  simp only [MisusedBy, Set.mem_union, or_and_right, exists_or]

/-- An activation misuses what it misuses itself, and what those of its closures do. -/
theorem Frame.misuses_iff {f : Frame} {name : String} {span : Span} :
    f.Misuses name span ↔
      (∃ t ∈ f.traces, t.Misuses name span) ∨ f.traces.Creates name span := by
  constructor
  · rintro ⟨g, hg, h⟩
    cases hg with
    | refl => exact .inl h
    | create ht hmem hg => exact .inr ⟨_, ht, _, _, hmem, g, hg, h⟩
  · rintro (h | ⟨t, ht, locals, body, hmem, g, hg, h⟩)
    · exact ⟨f, .refl f, h⟩
    · exact ⟨g, .create ht hmem hg, h⟩

end RowCheck
