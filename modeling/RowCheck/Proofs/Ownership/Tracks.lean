import Mathlib.Logic.Function.Basic
import RowCheck.Proofs.Ownership.Moves
import RowCheck.Proofs.Ownership.Trace

/-!
Flows against the runs that they stand for. Behind the frontier of an activation a local may have
been moved just if one of the runs that lead there has moved it, and all that these runs misuse has
been found. Every point that is added goes on with all of these runs at once.
-/
namespace RowCheck

namespace Scope

/-- The names in scope, where the locals stand under other numbers. -/
def numbered (ν : Nat → Nat) : Scope → List (String × Nat)
  | [] => []
  | (x, _) :: Γ => (x, ν Γ.length) :: numbered ν Γ

theorem numbered_congr {ν ν' : Nat → Nat} {Γ : Scope} (h : ∀ i < Γ.length, ν i = ν' i) :
    numbered ν Γ = numbered ν' Γ := by
  induction Γ with
  | nil => rfl
  | cons e Γ ih =>
    rw [numbered, numbered, h _ (Nat.lt_succ_self _), ih fun i hi => h i (Nat.lt_succ_of_lt hi)]

theorem find?_numbered (ν : Nat → Nat) (Γ : Scope) (name : String) :
    ((numbered ν Γ).find? (fun s => decide (s.1 = name))).map (·.2) =
      (Γ.find? name).map (fun found => ν found.1) := by
  induction Γ with
  | nil => rfl
  | cons e Γ ih =>
    obtain ⟨x, t⟩ := e
    rw [numbered, find?, List.find?_cons]
    by_cases hx : x = name <;> simp [hx, ih]

theorem lt_of_find? {Γ : Scope} {name : String} {i : Nat} {t : Ty}
    (h : Γ.find? name = some (i, t)) : i < Γ.length := by
  induction Γ with
  | nil => cases h
  | cons e Γ ih =>
    rw [find?] at h
    split at h
    · cases h
      exact Nat.lt_succ_self _
    · exact Nat.lt_succ_of_lt (ih h)

end Scope

/-- Whether the locals in scope are those of an activation, where they stand under other numbers. -/
structure Activation.Places (a : Activation) (Γ : Scope) (ν : Nat → Nat) : Prop where
  scopes : a.scopes = Γ.numbered ν
  below : ∀ i < Γ.length, ν i < a.flow.locals.size
  distinct : ∀ i < Γ.length, ∀ j < Γ.length, ν i = ν j → i = j
  named : ∀ x i t, Γ.find? x = some (i, t) →
    (a.flow.localAt (ν i)).name = x ∧ (a.flow.localAt (ν i)).ty = t

/-- Whether some points stand for some runs: a local may have been moved behind these points just if
one of the runs has moved it. -/
structure Flow.Reflects (f : Flow) (behind : SortedSet Nat) (n : Nat) (ν : Nat → Nat)
    (P : Set Trace) : Prop where
  within : ∀ j ∈ behind, j < f.points.size
  invalid : ∀ i < n, f.Invalid behind (ν i) ↔ ∃ t ∈ P, t.Moved i

/-- Whether an activation has got as far as some runs with the locals in scope. -/
structure Activation.Tracks (a : Activation) (Γ : Scope) (ν : Nat → Nat) (P : Set Trace) :
    Prop where
  places : a.Places Γ ν
  bounded : a.flow.Bounded
  reflects : a.flow.Reflects a.frontier Γ.length ν P
  found : ∀ x span, MisusedBy P x span → a.flow.Misused x span
  nonempty : P.Nonempty

namespace Activation

variable {a a' : Activation} {Γ : Scope} {ν ν' : Nat → Nat} {P : Set Trace}

theorem Places.later (h : a.Places Γ ν) (he : a.flow.Extends a'.flow)
    (hs : a'.scopes = a.scopes) : a'.Places Γ ν where
  scopes := hs.trans h.scopes
  below i hi := Nat.lt_of_lt_of_le (h.below i hi) he.size_locals
  distinct := h.distinct
  named x i t hx := by
    rw [he.localAt (h.below i (Scope.lt_of_find? hx))]
    exact h.named x i t hx

/-- The number under which a name stands for a local. -/
theorem Places.find? (h : a.Places Γ ν) (name : String) :
    (a.scopes.find? (fun s => decide (s.1 = name))).map (·.2) =
      (Γ.find? name).map (fun found => ν found.1) := by
  rw [h.scopes]
  exact Scope.find?_numbered ν Γ name

end Activation

namespace Flow.Reflects

variable {f f' : Flow} {behind behind' : SortedSet Nat} {n m : Nat} {ν ν' : Nat → Nat}
  {P Q : Set Trace}

theorem later (h : f.Reflects behind n ν P) (he : f.Extends f') :
    f'.Reflects behind n ν P where
  within j hj := Nat.lt_of_lt_of_le (h.within j hj) he.size_points
  invalid i hi := (he.invalid_iff h.within).trans (h.invalid i hi)

theorem union (h : f.Reflects behind n ν P) (h' : f.Reflects behind' n ν Q) :
    f.Reflects (behind.union behind') n ν (P ∪ Q) where
  within j hj := (SortedSet.mem_union.1 hj).elim (h.within j) (h'.within j)
  invalid i hi := by
    simp only [Flow.invalid_union, h.invalid i hi, h'.invalid i hi, Set.mem_union, or_and_right,
      exists_or]

theorem empty (f : Flow) (n : Nat) (ν : Nat → Nat) : f.Reflects ∅ n ν ∅ where
  within j hj := absurd hj (SortedSet.not_mem_empty j)
  invalid i _ := by simp [Flow.not_invalid_empty]

/-- Locals that go out of scope are passed over. -/
theorem restrict (h : f.Reflects behind n ν P) (hm : m ≤ n) (hν : ∀ i < m, ν i = ν' i) :
    f.Reflects behind m ν' P where
  within := h.within
  invalid i hi := hν i hi ▸ h.invalid i (Nat.lt_of_lt_of_le hi hm)

end Flow.Reflects

/-! ## Points -/

/-- Whether an event at some place is one of a trace, or none that matters. -/
structure Flow.Mirrors (f : Flow) (n : Nat) (ν : Nat → Nat) (event : FlowEvent) (span : Span)
    (u : Trace) : Prop where
  loan : ∀ l, event = .borrow l → l < f.loans.size
  place : ∀ before j, f.touched? ⟨event, span, before⟩ = some j → ∃ i < n, ν i = j
  moved : ∀ (t : Trace), ∀ i < n, Trace.Moved (t ++ u) i ↔
    event = .use (ν i) .move ∨ t.Moved i ∧ ¬ event.Sets (ν i)
  misuses : ∀ (t : Trace) before x position, Trace.Misuses (t ++ u) x position ↔
    t.Misuses x position ∨ ∃ i < n, f.touched? ⟨event, span, before⟩ = some (ν i) ∧ t.Moved i ∧
      (f.localAt (ν i)).name = x ∧ span = position

namespace Activation

variable {a a' : Activation} {Γ : Scope} {ν ν' : Nat → Nat} {P : Set Trace} {event : FlowEvent}
  {span : Span} {u : Trace}

/-- The activation with a point behind its frontier. -/
def addPoint (a : Activation) (event : FlowEvent) (span : Span) : Activation :=
  { a with
    flow := a.flow.push ⟨event, span, a.frontier⟩
    frontier := .ofList [a.flow.points.size] }

theorem frontier_addPoint (a : Activation) (event : FlowEvent) (span : Span) :
    ∀ j ∈ (a.addPoint event span).frontier, j < (a.addPoint event span).flow.points.size := by
  intro j hj
  simp only [addPoint, SortedSet.mem_ofList, List.mem_singleton] at hj
  subst hj
  simp [addPoint, Flow.push]

theorem Tracks.admits (h : a.Tracks Γ ν P) (hm : a.flow.Mirrors Γ.length ν event span u) :
    a.flow.Admits ⟨event, span, a.frontier⟩ := by
  refine ⟨hm.loan, fun j hj => ?_⟩
  obtain ⟨i, hi, rfl⟩ := hm.place _ j hj
  exact h.places.below i hi

/-- At a point that mirrors an event it is found what that event misuses. -/
theorem Tracks.misused_addPoint (h : a.Tracks Γ ν P)
    (hm : a.flow.Mirrors Γ.length ν event span u) (x : String) (position : Span) :
    (a.addPoint event span).flow.Misused x position ↔
      a.flow.Misused x position ∨ MisusedBy (Traces.after [u] P) x position := by
  refine (Flow.misused_push h.bounded (h.admits hm)).trans ?_
  constructor
  · rintro (hold | ⟨j, hj, hinv, hname, hspan⟩)
    · exact .inl hold
    · obtain ⟨i, hi, rfl⟩ := hm.place _ j hj
      obtain ⟨t, ht, hmoved⟩ := (h.reflects.invalid i hi).1 hinv
      exact .inr ⟨t ++ u, ⟨t, ht, u, by simp, rfl⟩, (hm.misuses t a.frontier x position).2
        (.inr ⟨i, hi, hj, hmoved, hname, hspan⟩)⟩
  · rintro (hold | ⟨_, ⟨t, ht, _, hu, rfl⟩, hmis⟩)
    · exact .inl hold
    · obtain rfl := List.mem_singleton.1 hu
      rcases (hm.misuses t a.frontier x position).1 hmis with hmis | ⟨i, hi, hj, hmoved, hrest⟩
      · exact .inl (h.found x position ⟨t, ht, hmis⟩)
      · exact .inr ⟨ν i, hj, (h.reflects.invalid i hi).2 ⟨t, ht, hmoved⟩, hrest⟩

/-- Behind such a point a local may have been moved just if it has been, now that all runs have gone
on by the event. -/
theorem Tracks.invalid_addPoint (h : a.Tracks Γ ν P)
    (hm : a.flow.Mirrors Γ.length ν event span u) {i : Nat} (hi : i < Γ.length) :
    (a.addPoint event span).flow.Invalid (a.addPoint event span).frontier (ν i) ↔
      ∃ t ∈ Traces.after [u] P, t.Moved i := by
  refine Flow.invalid_push.trans ?_
  simp only [h.reflects.invalid i hi, Traces.after, List.mem_singleton, exists_eq_left,
    Set.mem_ofPred_eq, exists_exists_and_eq_and, hm.moved _ i hi]
  obtain ⟨t, ht⟩ := h.nonempty
  constructor
  · rintro (hmove | ⟨⟨t, ht, hmoved⟩, hset⟩)
    · exact ⟨t, ht, .inl hmove⟩
    · exact ⟨t, ht, .inr ⟨hmoved, hset⟩⟩
  · rintro ⟨t, ht, hmove | ⟨hmoved, hset⟩⟩
    · exact .inl hmove
    · exact .inr ⟨⟨t, ht, hmoved⟩, hset⟩

theorem Tracks.addPoint (h : a.Tracks Γ ν P) (hm : a.flow.Mirrors Γ.length ν event span u) :
    (a.addPoint event span).Tracks Γ ν (Traces.after [u] P) where
  places := h.places.later (a.flow.extends_push _) rfl
  bounded := h.bounded.push (h.admits hm)
  reflects := ⟨a.frontier_addPoint event span, fun _ hi => h.invalid_addPoint hm hi⟩
  found x position hx := (h.misused_addPoint hm x position).2 (.inr hx)
  nonempty := Traces.after_nonempty h.nonempty (by simp)

/-- An activation with other regions, and with new loans that no point mentions yet. -/
structure Rests (a a' : Activation) : Prop where
  points : a'.flow.points = a.flow.points
  locals : a'.flow.locals = a.flow.locals
  loans : a.flow.loans.toList <+: a'.flow.loans.toList
  scopes : a'.scopes = a.scopes
  frontier : a'.frontier = a.frontier

theorem Rests.extends (h : a.Rests a') : a.flow.Extends a'.flow :=
  ⟨h.points ▸ List.prefix_refl _, h.locals ▸ List.prefix_refl _, h.loans⟩

theorem Rests.bounded (h : a.Rests a') (hb : a.flow.Bounded) : a'.flow.Bounded := by
  intro p hp
  rw [h.points] at hp
  exact (hb p hp).later h.extends

theorem Tracks.rests (h : a.Tracks Γ ν P) (hr : a.Rests a') : a'.Tracks Γ ν P where
  places := h.places.later hr.extends hr.scopes
  bounded := hr.bounded h.bounded
  reflects := by
    rw [hr.frontier]
    exact h.reflects.later hr.extends
  found x span hx := (hr.extends.misused_iff h.bounded hr.points).2 (h.found x span hx)
  nonempty := h.nonempty

/-- The activation with one more local. -/
def addLocal (a : Activation) (name : String) (t : Ty) (span : Span) (holding : Loans) :
    Activation :=
  { a with
    flow := { a.flow with
      locals := a.flow.locals.push ⟨name, t, span, a.region⟩
      holdings := a.flow.holdings.push holding }
    scopes := (name, a.flow.locals.size) :: a.scopes }

theorem extends_addLocal (a : Activation) (name : String) (t : Ty) (span : Span)
    (holding : Loans) : a.flow.Extends (a.addLocal name t span holding).flow :=
  ⟨List.prefix_refl _, by simp [addLocal], List.prefix_refl _⟩

/-- The name of a local that is declared, and those that are in scope already. -/
theorem Places.addLocal (h : a.Places Γ ν) (name : String) (t : Ty) (span : Span)
    (holding : Loans) : (a.addLocal name t span holding).Places ((name, t) :: Γ)
      (Function.update ν Γ.length a.flow.locals.size) := by
  have hnew : Function.update ν Γ.length a.flow.locals.size Γ.length = a.flow.locals.size :=
    Function.update_self ..
  have hold : ∀ i < Γ.length, Function.update ν Γ.length a.flow.locals.size i = ν i := fun i hi =>
    Function.update_of_ne (Nat.ne_of_lt hi) ..
  have hsize : (a.addLocal name t span holding).flow.locals.size = a.flow.locals.size + 1 := by
    simp [Activation.addLocal]
  refine ⟨?_, fun i hi => ?_, fun i hi j hj hij => ?_, fun x i u hx => ?_⟩
  · rw [Scope.numbered, hnew, Scope.numbered_congr hold, ← h.scopes]
    rfl
  · rcases Nat.lt_succ_iff_lt_or_eq.1 hi with hi | rfl
    · rw [hold i hi, hsize]
      exact Nat.lt_succ_of_lt (h.below i hi)
    · rw [hnew, hsize]
      exact Nat.lt_succ_self _
  · rcases Nat.lt_succ_iff_lt_or_eq.1 hi with hi | rfl <;>
      rcases Nat.lt_succ_iff_lt_or_eq.1 hj with hj | rfl
    · rw [hold i hi, hold j hj] at hij
      exact h.distinct i hi j hj hij
    · rw [hold i hi, hnew] at hij
      exact absurd hij (Nat.ne_of_lt (h.below i hi))
    · rw [hold j hj, hnew] at hij
      exact absurd hij.symm (Nat.ne_of_lt (h.below j hj))
    · rfl
  · rw [Scope.find?] at hx
    split at hx
    · cases hx
      rw [hnew]
      simpa [Activation.addLocal, Flow.localAt] using ‹_›
    · have hi := Scope.lt_of_find? hx
      rw [hold i hi, (a.extends_addLocal name t span holding).localAt (h.below i hi)]
      exact h.named x i u hx

/-- The activation with one more local, which has got its value. -/
def declared (a : Activation) (name : String) (t : Ty) (span : Span) (holding : Loans) :
    Activation :=
  (a.addLocal name t span holding).addPoint (.define a.flow.locals.size) span

theorem extends_declared (a : Activation) (name : String) (t : Ty) (span : Span)
    (holding : Loans) : a.flow.Extends (a.declared name t span holding).flow :=
  (a.extends_addLocal name t span holding).trans (Flow.extends_push ..)

theorem bounded_addLocal (hb : a.flow.Bounded) (name : String) (t : Ty) (span : Span)
    (holding : Loans) : (a.addLocal name t span holding).flow.Bounded := fun p hp =>
  (hb p hp).later (a.extends_addLocal name t span holding)

theorem misused_declared (hb : a.flow.Bounded) (name : String) (t : Ty) (span : Span)
    (holding : Loans) (x : String) (position : Span) :
    (a.declared name t span holding).flow.Misused x position ↔ a.flow.Misused x position := by
  refine (Flow.misused_push (bounded_addLocal hb name t span holding)
    (Flow.admits_define ..)).trans ?_
  rw [(a.extends_addLocal name t span holding).misused_iff hb rfl]
  refine or_iff_left ?_
  rintro ⟨i, hi, -⟩
  cases hi

/-- What is known of the locals that are in scope already stays so, and the new one has not been
moved. -/
theorem Tracks.invalid_declared (h : a.Tracks Γ ν P) (name : String) (t : Ty) (span : Span)
    (holding : Loans) {i : Nat} (hi : i < Γ.length + 1) :
    (a.declared name t span holding).flow.Invalid (a.declared name t span holding).frontier
        (Function.update ν Γ.length a.flow.locals.size i) ↔
      ∃ t ∈ (Scope.defines Γ 1).after P, t.Moved i := by
  have hdefines : ∀ t, t ∈ (Scope.defines Γ 1).after P ↔ ∃ p ∈ P, p ++ [.define Γ.length] = t :=
    fun t => Traces.mem_after_singleton
  refine Flow.invalid_push.trans ?_
  simp only [hdefines, exists_exists_and_eq_and, Trace.moved_snoc]
  rcases Nat.lt_succ_iff_lt_or_eq.1 hi with hi | rfl
  · have hold : (a.addLocal name t span holding).flow.Invalid a.frontier (ν i) ↔
        ∃ p ∈ P, p.Moved i :=
      ((a.extends_addLocal name t span holding).invalid_iff h.reflects.within).trans
        (h.reflects.invalid i hi)
    have hset : ¬ FlowEvent.Sets (ν i) (.define a.flow.locals.size) := by
      simpa [FlowEvent.Sets] using (Nat.ne_of_lt (h.places.below i hi)).symm
    have hset' : ¬ TraceEvent.Sets i (.define Γ.length) := by
      simpa [TraceEvent.Sets] using (Nat.ne_of_lt hi).symm
    rw [Function.update_of_ne (Nat.ne_of_lt hi)]
    simp only [hset, hset', not_false_iff, and_true, reduceCtorEq, exists_false, false_or]
    exact hold
  · simp [FlowEvent.Sets, TraceEvent.Sets]

/-- A local that is declared gets the next number of those in scope. -/
theorem Tracks.declared (h : a.Tracks Γ ν P) (name : String) (t : Ty) (span : Span)
    (holding : Loans) :
    (a.declared name t span holding).Tracks ((name, t) :: Γ)
      (Function.update ν Γ.length a.flow.locals.size) ((Scope.defines Γ 1).after P) where
  places := (h.places.addLocal name t span holding).later (Flow.extends_push ..) rfl
  bounded := (bounded_addLocal h.bounded name t span holding).push (Flow.admits_define ..)
  reflects := ⟨frontier_addPoint _ _ _, fun _ hi => h.invalid_declared name t span holding hi⟩
  found x position hx := by
    refine (misused_declared h.bounded name t span holding x position).2 ?_
    obtain ⟨_, ht, hmis⟩ := hx
    obtain ⟨p, hp, rfl⟩ := Traces.mem_after_singleton.1 ht
    rcases Trace.misuses_snoc.1 hmis with hmis | ⟨_, _, he, -⟩
    · exact h.found x position ⟨p, hp, hmis⟩
    · cases he
  nonempty := Traces.after_nonempty h.nonempty (by simp [Scope.defines])

end Activation

namespace Flow

variable {f : Flow} {Γ : Scope} {ν : Nat → Nat} {P : Set Trace} {span : Span}

theorem mirrors_consume (f : Flow) (n : Nat) (ν : Nat → Nat) (loans : Loans) (span : Span) :
    f.Mirrors n ν (.consume loans) span [] where
  loan := nofun
  place := nofun
  moved t i _ := by simp [FlowEvent.Sets]
  misuses t _ x position := by simp [touched?]

theorem misuses_use {a : Activation} (h : a.Places Γ ν) {x : String} {i : Nat} {t : Ty}
    (hx : Γ.find? x = some (i, t)) {p : FlowPoint} (hp : a.flow.touched? p = some (ν i))
    (moves : Bool) (before : Trace) (y : String) (position : Span) :
    Trace.Misuses (before ++ [.use i x moves span]) y position ↔
      before.Misuses y position ∨ ∃ j < Γ.length, a.flow.touched? p = some (ν j) ∧
        before.Moved j ∧ (a.flow.localAt (ν j)).name = y ∧ span = position := by
  have hi := Scope.lt_of_find? hx
  have hname := (h.named x i t hx).1
  rw [Trace.misuses_snoc]
  refine or_congr Iff.rfl ⟨?_, ?_⟩
  · rintro ⟨j, moves, he, hmoved⟩
    cases he
    exact ⟨i, hi, hp, hmoved, hname, rfl⟩
  · rintro ⟨j, hj, hp', hmoved, hname', rfl⟩
    obtain rfl := h.distinct i hi j hj (Option.some.inj (hp.symm.trans hp'))
    obtain rfl : x = y := hname.symm.trans hname'
    exact ⟨i, _, rfl, hmoved⟩

theorem mirrors_use {a : Activation} (h : a.Places Γ ν) {x : String} {i : Nat} {t : Ty}
    (hx : Γ.find? x = some (i, t)) (kind : UseKind) (span : Span) :
    a.flow.Mirrors Γ.length ν (.use (ν i) kind) span [.use i x (decide (kind = .move)) span] where
  loan := nofun
  place _ j hj := ⟨i, Scope.lt_of_find? hx, Option.some.inj hj⟩
  moved before j hj := by
    have hij : ν i = ν j ↔ i = j :=
      ⟨h.distinct i (Scope.lt_of_find? hx) j hj, congrArg ν⟩
    rw [Trace.moved_snoc]
    simp [FlowEvent.Sets, TraceEvent.Sets, hij]
  misuses before _ y position := misuses_use h hx rfl _ before y position

theorem mirrors_borrow {a : Activation} (h : a.Places Γ ν) {x : String} {i : Nat} {t : Ty}
    (hx : Γ.find? x = some (i, t)) {loan : Nat} (hl : loan < a.flow.loans.size)
    (hi : (a.flow.loanAt loan).place = ν i) (span : Span) :
    a.flow.Mirrors Γ.length ν (.borrow loan) span [.use i x false span] where
  loan l hl' := by
    cases hl'
    exact hl
  place _ j hj := ⟨i, Scope.lt_of_find? hx, hi.symm.trans (Option.some.inj hj)⟩
  moved before j hj := by
    rw [Trace.moved_snoc]
    simp [FlowEvent.Sets, TraceEvent.Sets]
  misuses t before y position :=
    misuses_use h hx (p := ⟨.borrow loan, span, before⟩) (congrArg some hi) _ t y position

theorem mirrors_assign {a : Activation} (h : a.Places Γ ν) {x : String} {i : Nat} {t : Ty}
    (hx : Γ.find? x = some (i, t)) (span : Span) :
    a.flow.Mirrors Γ.length ν (.assign (ν i)) span [.assign i] where
  loan := nofun
  place := nofun
  moved t j hj := by
    have hij : ν i = ν j ↔ i = j :=
      ⟨h.distinct i (Scope.lt_of_find? hx) j hj, congrArg ν⟩
    rw [Trace.moved_snoc]
    simp [FlowEvent.Sets, TraceEvent.Sets, hij]
  misuses t _ y position := by
    rw [Trace.misuses_snoc]
    simp [touched?]

end Flow

end RowCheck
