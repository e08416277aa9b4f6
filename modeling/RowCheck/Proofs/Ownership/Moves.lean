import RowCheck.Ownership.Moves
import RowCheck.Proofs.SortedMap

/-!
What the one pass over a flow finds out about moves. Behind some points a local is invalid if a move
of it comes before one of them, without a new value since. Points that are added later change
nothing about this, so it can be followed while the flow is being built.
-/
namespace RowCheck

/-- Whether a diagnostic tells of a use of a local of some name that has been moved. -/
def Diagnostic.TellsMisuse (d : Diagnostic) (name : String) (span : Span) : Prop :=
  d.category = .useAfterMove ∧ d.message = s!"use of moved value `{name}`" ∧ d.location = some span

instance (d : Diagnostic) (name : String) (span : Span) : Decidable (d.TellsMisuse name span) :=
  inferInstanceAs (Decidable (_ ∧ _ ∧ _))

namespace FlowEvent

/-- Whether an event gives a local a value. -/
def Sets (i : Nat) (e : FlowEvent) : Prop := e = .define i ∨ e = .assign i

end FlowEvent

namespace SortedMap

variable {κ ν : Type} [LT κ] [DecidableEq κ] [DecidableLT κ]
  [Std.Trichotomous (α := κ) (· < ·)] [Std.Irrefl (α := κ) (· < ·)] [Trans (α := κ) (· < ·) (· < ·) (· < ·)]

theorem isSome_get?_foldl_insertNew {es : List (κ × ν)} {m : SortedMap κ ν} {k : κ} :
    ((es.foldl (fun m e => m.insertNew e.1 e.2) m).get? k).isSome = true ↔
      (∃ e ∈ es, e.1 = k) ∨ (m.get? k).isSome = true := by
  induction es generalizing m with
  | nil => simp
  | cons e es ih =>
    rw [List.foldl_cons, ih, isSome_get?_insertNew]
    simp only [List.mem_cons, exists_eq_or_imp]
    rw [or_left_comm, or_assoc]

end SortedMap

namespace Flow

variable {f f' : Flow} {p : FlowPoint} {i : Nat} {name : String} {span : Span}

/-- What may have been moved after each of some further points. -/
def outsFrom (outs : Array Moved) (ps : List FlowPoint) : Array Moved :=
  ps.foldl (fun outs p => outs.push (movedAfter p (movedBefore outs p))) outs

/-- What may have been moved after each point. -/
def outs (f : Flow) : Array Moved := outsFrom #[] f.points.toList

/-- Whether a local may have been moved behind one of some points. -/
def Invalid (f : Flow) (behind : SortedSet Nat) (i : Nat) : Prop :=
  ∃ j ∈ behind, ∃ m, f.outs[j]? = some m ∧ (m.get? i).isSome = true

theorem not_invalid_empty : ¬ f.Invalid ∅ i := by
  rintro ⟨j, hj, -⟩
  exact SortedSet.not_mem_empty j hj

theorem invalid_union {s t : SortedSet Nat} :
    f.Invalid (s.union t) i ↔ f.Invalid s i ∨ f.Invalid t i := by
  simp only [Invalid, SortedSet.mem_union, or_and_right, exists_or]

theorem isSome_movedBefore {outs : Array Moved} :
    ((movedBefore outs p).get? i).isSome = true ↔
      ∃ j ∈ p.before, ∃ m, outs[j]? = some m ∧ (m.get? i).isSome = true := by
  suffices h : ∀ (js : List Nat) (m : Moved),
      ((js.foldl (fun m j => ((outs[j]?).getD ∅).entries.foldl (fun m e => m.insertNew e.1 e.2) m)
        m).get? i).isSome = true ↔
      (∃ j ∈ js, ∃ m, outs[j]? = some m ∧ (m.get? i).isSome = true) ∨ (m.get? i).isSome = true by
    refine (h p.before.toList ∅).trans ?_
    simp only [SortedMap.get?_empty, Option.isSome_none, Bool.false_eq_true, or_false]
    rfl
  intro js m
  induction js generalizing m with
  | nil => simp
  | cons j js ih =>
    rw [List.foldl_cons, ih, SortedMap.isSome_get?_foldl_insertNew, ← SortedMap.isSome_get?_iff]
    cases hj : outs[j]? <;> simp [hj, or_assoc, or_left_comm]

/-- A local may have been moved after a point if it is moved there, or if it may have been moved
before and gets no value there. -/
theorem isSome_movedAfter {m : Moved} :
    ((movedAfter p m).get? i).isSome = true ↔
      p.event = .use i .move ∨ (m.get? i).isSome = true ∧ ¬ p.event.Sets i := by
  unfold movedAfter FlowEvent.Sets
  split <;> rename_i hp <;> rw [hp]
  · rw [SortedMap.get?_erase]
    split <;> simp_all
  · rw [SortedMap.get?_erase]
    split <;> simp_all
  · rw [SortedMap.isSome_get?_insertNew]
    simp
  · simp_all
  · simp
  · simp

theorem size_outsFrom (outs : Array Moved) (ps : List FlowPoint) :
    (outsFrom outs ps).size = outs.size + ps.length := by
  induction ps generalizing outs with
  | nil => rfl
  | cons p ps ih =>
    refine (ih _).trans ?_
    simp only [Array.size_push, List.length_cons]
    omega

theorem getElem?_outsFrom {outs : Array Moved} {j : Nat} (hj : j < outs.size)
    (ps : List FlowPoint) : (outsFrom outs ps)[j]? = outs[j]? := by
  induction ps generalizing outs with
  | nil => rfl
  | cons p ps ih =>
    refine (ih (by rw [Array.size_push]; omega)).trans ?_
    rw [Array.getElem?_push, if_neg (by omega)]

theorem outsFrom_append (outs : Array Moved) (ps qs : List FlowPoint) :
    outsFrom outs (ps ++ qs) = outsFrom (outsFrom outs ps) qs :=
  List.foldl_append

/-- A flow to which points, locals and loans have been added. -/
structure Extends (f f' : Flow) : Prop where
  points : f.points.toList <+: f'.points.toList
  locals : f.locals.toList <+: f'.locals.toList
  loans : f.loans.toList <+: f'.loans.toList

theorem Extends.refl (f : Flow) : f.Extends f :=
  ⟨List.prefix_refl _, List.prefix_refl _, List.prefix_refl _⟩

theorem Extends.trans {f'' : Flow} (h : f.Extends f') (h' : f'.Extends f'') : f.Extends f'' :=
  ⟨h.points.trans h'.points, h.locals.trans h'.locals, h.loans.trans h'.loans⟩

theorem Extends.size_points (h : f.Extends f') : f.points.size ≤ f'.points.size := by
  simpa using h.points.length_le

theorem Extends.size_locals (h : f.Extends f') : f.locals.size ≤ f'.locals.size := by
  simpa using h.locals.length_le

/-- What is so behind points that are there already stays so. -/
theorem Extends.invalid_iff (h : f.Extends f') {behind : SortedSet Nat}
    (hb : ∀ j ∈ behind, j < f.points.size) : f'.Invalid behind i ↔ f.Invalid behind i := by
  obtain ⟨later, hlater⟩ := h.points
  refine exists_congr fun j => and_congr_right fun hj => ?_
  have hsize : j < f.outs.size := by
    rw [outs, size_outsFrom]
    simpa using hb j hj
  rw [outs, ← hlater, outsFrom_append, ← outs, getElem?_outsFrom hsize]

theorem Extends.localAt (h : f.Extends f') (hi : i < f.locals.size) :
    f'.localAt i = f.localAt i := by
  have hget : f'.locals.toList[i]? = f.locals.toList[i]? := by
    obtain ⟨later, hlater⟩ := h.locals
    rw [← hlater, List.getElem?_append_left (by simpa using hi)]
  rw [Flow.localAt, Flow.localAt, ← Array.getElem?_toList, ← Array.getElem?_toList, hget]

theorem Extends.loanAt (h : f.Extends f') (hi : i < f.loans.size) : f'.loanAt i = f.loanAt i := by
  have hget : f'.loans.toList[i]? = f.loans.toList[i]? := by
    obtain ⟨later, hlater⟩ := h.loans
    rw [← hlater, List.getElem?_append_left (by simpa using hi)]
  rw [Flow.loanAt, Flow.loanAt, ← Array.getElem?_toList, ← Array.getElem?_toList, hget]

/-! ## Points -/

/-- A point that mentions only locals and loans that are there. -/
structure Admits (f : Flow) (p : FlowPoint) : Prop where
  loan : ∀ l, p.event = .borrow l → l < f.loans.size
  place : ∀ i, f.touched? p = some i → i < f.locals.size

/-- Whether all points do. -/
def Bounded (f : Flow) : Prop := ∀ p ∈ f.points.toList, f.Admits p

theorem Extends.touched? (h : f.Extends f') (hp : f.Admits p) : f'.touched? p = f.touched? p := by
  unfold Flow.touched?
  split
  · rfl
  · rw [h.loanAt (hp.loan _ ‹_›)]
  all_goals rfl

theorem Admits.later (hp : f.Admits p) (h : f.Extends f') : f'.Admits p := by
  refine ⟨fun l hl => Nat.lt_of_lt_of_le (hp.loan l hl) (by simpa using h.loans.length_le),
    fun i hi => ?_⟩
  rw [h.touched? hp] at hi
  exact Nat.lt_of_lt_of_le (hp.place i hi) h.size_locals

theorem admits_define (f : Flow) (i : Nat) (span : Span) (before : SortedSet Nat) :
    f.Admits ⟨.define i, span, before⟩ :=
  ⟨nofun, nofun⟩

/-- The point at the end of a flow. -/
def push (f : Flow) (p : FlowPoint) : Flow := { f with points := f.points.push p }

theorem extends_push (f : Flow) (p : FlowPoint) : f.Extends (f.push p) :=
  ⟨by simp [push], List.prefix_refl _, List.prefix_refl _⟩

theorem Bounded.push (h : f.Bounded) (hp : f.Admits p) : (f.push p).Bounded := by
  intro q hq
  rw [Flow.push, Array.toList_push, List.mem_append, List.mem_singleton] at hq
  have hext := f.extends_push p
  rcases hq with hq | rfl
  · exact (h q hq).later hext
  · exact hp.later hext

theorem outs_push (f : Flow) (p : FlowPoint) :
    (f.push p).outs = f.outs.push (movedAfter p (movedBefore f.outs p)) := by
  rw [outs, push, Array.toList_push, outsFrom_append]
  rfl

/-- What may have been moved behind a new point. -/
theorem invalid_push : (f.push p).Invalid (.ofList [f.points.size]) i ↔
    p.event = .use i .move ∨ f.Invalid p.before i ∧ ¬ p.event.Sets i := by
  have hsize : f.outs.size = f.points.size := by simp [outs, size_outsFrom]
  have hget : (f.push p).outs[f.points.size]? = some (movedAfter p (movedBefore f.outs p)) := by
    rw [outs_push, ← hsize, Array.getElem?_push_size]
  rw [Invalid, Invalid, ← isSome_movedBefore, ← isSome_movedAfter]
  simp [hget]

/-! ## Faults -/

/-- Whether a use of a local of some name that may have been moved is found. -/
def Misused (f : Flow) (name : String) (span : Span) : Prop :=
  ∃ d ∈ f.moveFaults, d.TellsMisuse name span

theorem tellsMisuse_useAfterMove {used moved : Span} :
    (f.useAfterMove i used moved).TellsMisuse name span ↔
      (f.localAt i).name = name ∧ used = span := by
  simp only [useAfterMove, Diagnostic.TellsMisuse, Diagnostic.withHelp, Diagnostic.withLabel,
    Diagnostic.error, true_and, Option.some.injEq, String.append_left_inj, String.append_right_inj]
  exact Iff.rfl

theorem moveFaultsFrom_append (f : Flow) (outs : Array Moved) (ps qs : List FlowPoint) :
    f.moveFaultsFrom outs (ps ++ qs) =
      f.moveFaultsFrom outs ps ++ f.moveFaultsFrom (outsFrom outs ps) qs := by
  induction ps generalizing outs with
  | nil => rfl
  | cons p ps ih =>
    rw [List.cons_append, moveFaultsFrom, moveFaultsFrom, ih, List.append_assoc]
    rfl

theorem Extends.moveFault? (h : f.Extends f') (hp : f.Admits p) (moved : Moved) :
    f'.moveFault? p moved = f.moveFault? p moved := by
  unfold Flow.moveFault?
  rw [h.touched? hp]
  cases ht : f.touched? p with
  | none => rfl
  | some i =>
    simp only [Option.bind_eq_bind, Option.bind_some, useAfterMove, h.localAt (hp.place i ht)]

/-- The faults at points that are there already stay the same. -/
theorem Extends.moveFaultsFrom (h : f.Extends f') {ps : List FlowPoint}
    (hb : ∀ p ∈ ps, f.Admits p) (outs : Array Moved) :
    f'.moveFaultsFrom outs ps = f.moveFaultsFrom outs ps := by
  induction ps generalizing outs with
  | nil => rfl
  | cons p ps ih =>
    simp only [List.mem_cons, forall_eq_or_imp] at hb
    rw [Flow.moveFaultsFrom, Flow.moveFaultsFrom, ih hb.2, h.moveFault? hb.1]

/-- Nothing new is found if no points are added. -/
theorem Extends.misused_iff (h : f.Extends f') (hb : f.Bounded) (hp : f'.points = f.points) :
    f'.Misused name span ↔ f.Misused name span := by
  rw [Misused, Misused, moveFaults, hp, h.moveFaultsFrom hb]
  rfl

theorem exists_moveFault? {moved : Moved} :
    (∃ d ∈ f.moveFault? p moved, d.TellsMisuse name span) ↔
      ∃ i, f.touched? p = some i ∧ (moved.get? i).isSome = true ∧
        (f.localAt i).name = name ∧ p.span = span := by
  simp only [moveFault?, Option.bind_eq_bind, Option.pure_def, Option.mem_def,
    Option.bind_eq_some_iff, Option.some.injEq]
  constructor
  · rintro ⟨_, ⟨i, hi, at', hat, rfl⟩, hd⟩
    exact ⟨i, hi, by simp [hat], tellsMisuse_useAfterMove.1 hd⟩
  · rintro ⟨i, hi, hsome, hd⟩
    obtain ⟨at', hat⟩ := Option.isSome_iff_exists.1 hsome
    exact ⟨_, ⟨i, hi, at', hat, rfl⟩, tellsMisuse_useAfterMove.2 hd⟩

/-- At a new point it is found whether a local that is used there may have been moved. -/
theorem misused_push (hb : f.Bounded) (hp : f.Admits p) : (f.push p).Misused name span ↔
    f.Misused name span ∨ ∃ i, f.touched? p = some i ∧ f.Invalid p.before i ∧
      (f.localAt i).name = name ∧ p.span = span := by
  have hext := f.extends_push p
  have hfaults : (f.push p).moveFaults =
      f.moveFaults ++ (f.moveFault? p (movedBefore f.outs p)).toList := by
    rw [moveFaults, push, Array.toList_push, moveFaultsFrom_append]
    change (f.push p).moveFaultsFrom #[] f.points.toList ++
      (((f.push p).moveFault? p (movedBefore f.outs p)).toList ++ []) = _
    rw [hext.moveFaultsFrom hb, hext.moveFault? hp, List.append_nil]
    rfl
  rw [Misused, hfaults]
  simp only [List.mem_append, or_and_right, exists_or, Option.mem_toList]
  refine or_congr Iff.rfl (exists_moveFault?.trans ?_)
  simp only [isSome_movedBefore]
  rfl

end Flow

end RowCheck
