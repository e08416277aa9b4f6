import RowCheck.Proofs.Ownership.Trace

/-!
Runs of an activation, told by the references in values. What a run comes to is the references in
the value of an expression and in the locals in scope behind it, and those that have got out of the
scope of what they refer to. References are followed through values only: what is stored through a
reference, or is behind one that is read, is not.
-/
namespace RowCheck

/-- A reference to a local: the number of scopes that the local lies in, its name, and where it was
borrowed. -/
structure Reference where
  depth : Nat
  name : String
  span : Span

/-- A local in scope, with the references in its value. -/
structure Slot where
  name : String
  depth : Nat
  held : Set Reference

/-- The locals in scope, the innermost first. -/
abbrev Slots := List Slot

namespace Slots

/-- The local that a name stands for. -/
def find? (σ : Slots) (x : String) : Option Slot := List.find? (fun c => c.name = x) σ

/-- The references in the value of a name. -/
def held (σ : Slots) (x : String) : Set Reference := {q | ∃ c ∈ σ.find? x, q ∈ c.held}

theorem held_of_some {σ : Slots} {x : String} {c : Slot} (h : σ.find? x = some c) :
    σ.held x = c.held := by
  ext q
  simp [held, h]

theorem held_of_none {σ : Slots} {x : String} (h : σ.find? x = none) : σ.held x = ∅ := by
  ext q
  simp [held, h]

/-- Put a value into the local that a name stands for. What lives shorter cannot stay there. -/
def put (x : String) (value : Set Reference) : Slots → Slots
  | [] => []
  | c :: σ =>
    if c.name = x then { c with held := {q ∈ value | q.depth ≤ c.depth} } :: σ
    else c :: put x value σ

/-- The references in a value that live shorter than the local that a name stands for. -/
def outlived (σ : Slots) (x : String) (value : Set Reference) : Set Reference :=
  {q ∈ value | ∃ c ∈ σ.find? x, c.depth < q.depth}

/-- New locals that all hold the same. -/
def bindNames (depth : Nat) (value : Set Reference) (σ : Slots)
    (names : List (String × Ty × Span)) : Slots :=
  names.foldl (fun σ n => ⟨n.1, depth, value⟩ :: σ) σ

end Slots

/-- What a run of an expression comes to: the references in its value, the locals behind it, and the
references that have got out of the scopes of their locals. -/
structure Ending where
  value : Set Reference
  slots : Slots
  dangling : Set Reference

namespace Ending

/-- The locals of the innermost scopes are gone, down to some depth, and what refers to them
dangles. -/
def leave (n depth : Nat) (o : Ending) : Ending where
  value := {q ∈ o.value | q.depth ≤ depth}
  slots := o.slots.drop n
  dangling := o.dangling ∪ {q ∈ o.value | depth < q.depth}

/-- The value is of no use. -/
def drop (o : Ending) : Ending := { o with value := ∅ }

/-- Each of some runs goes on in some ways. -/
def next (O : Set Ending) (f : Ending → Set Ending) : Set Ending :=
  {o | ∃ p ∈ O, ∃ q ∈ f p, o = { q with dangling := p.dangling ∪ q.dangling }}

end Ending

open Ending

section

-- whether a value of a type can contain references
variable (holds : Ty → Prop)

namespace TExpr

mutual

/-- The endings of all runs of an expression at some depth. A reference that is derived from another
one is taken to be that one. -/
def endings (k : Nat) : TExpr → Slots → Set Ending
  | lit .., σ | failed _, σ => {⟨∅, σ, ∅⟩}
  | var _ x, σ => {⟨σ.held x, σ, ∅⟩}
  | call i f a, σ =>
    -- A function may put whatever it is given into what it returns.
    next (f.endings k σ) fun p => next (a.endings k p.slots) fun q =>
      {⟨{r ∈ p.value ∪ q.value | holds i.ty}, q.slots, ∅⟩}
  | lam _ p b, σ => {⟨{q | ∃ x ∈ b.free [], x ≠ p.name ∧ q ∈ σ.held x}, σ, ∅⟩}
  | letIn _ x v b, σ =>
    next (v.endings k σ) fun p =>
      leave 1 k '' b.endings (k + 1) (⟨x.name, k + 1, p.value⟩ :: p.slots)
  | seq _ items, σ => endingsSeq k items σ
  | cond _ c t e, σ =>
    next (c.endings k σ) fun p => t.endings k p.slots ∪ e.endings k p.slots
  | matchOn _ s arms _, σ =>
    next (s.endings k σ) fun p =>
      if arms.isEmpty then {⟨∅, p.slots, ∅⟩} else endingsArms k p.value arms p.slots
  | tuple _ items, σ => endingsAll k items σ
  | construct _ _ _ args, σ => endingsAll k args σ
  | binary _ _ a b, σ => next (a.endings k σ) fun p => drop '' b.endings k p.slots
  | unary _ _ a, σ => drop '' a.endings k σ
  | borrow i _ (var _ x), σ => {⟨{q | ∃ c ∈ σ.find? x, q = ⟨c.depth, x, i.span⟩}, σ, ∅⟩}
  | borrow _ _ (deref _ reference), σ => reference.endings k σ
  | borrow _ _ inner, σ => inner.endings k σ
  | deref i reference, σ =>
    next (reference.endings k σ) fun p => {⟨{r ∈ p.value | holds i.ty}, p.slots, ∅⟩}
  | assign _ (var _ x) v, σ =>
    next (v.endings k σ) fun p => {⟨∅, p.slots.put x p.value, p.slots.outlived x p.value⟩}
  | assign _ (deref _ reference) v, σ =>
    next (v.endings k σ) fun p => next (reference.endings k p.slots) fun q =>
      {⟨∅, q.slots, {r ∈ p.value | ∃ target ∈ q.value, target.depth < r.depth}⟩}
  | assign _ _ v, σ => drop '' v.endings k σ

/-- The endings of values that become parts of another one. -/
def endingsAll (k : Nat) : List TExpr → Slots → Set Ending
  | [], σ => {⟨∅, σ, ∅⟩}
  | e :: es, σ =>
    next (e.endings k σ) fun p => next (endingsAll k es p.slots) fun q =>
      {⟨p.value ∪ q.value, q.slots, ∅⟩}

/-- The endings of a sequence, whose value is that of its last item. -/
def endingsSeq (k : Nat) : List TExpr → Slots → Set Ending
  | [], σ => {⟨∅, σ, ∅⟩}
  | [e], σ => e.endings k σ
  | e :: f :: es, σ => next (e.endings k σ) fun p => endingsSeq k (f :: es) p.slots

/-- The endings of arms, given the references in what they match: one of them is selected, and those
before it are passed over. -/
def endingsArms (k : Nat) (held : Set Reference) : List TArm → Slots → Set Ending
  | [], _ => ∅
  | a :: as, σ =>
    endingsArm k held a σ ∪ next (endingsPassed k held a σ) fun p => endingsArms k held as p.slots

/-- The endings of an arm that is selected. -/
def endingsArm (k : Nat) (held : Set Reference) : TArm → Slots → Set Ending
  | .mk p (some g) b, σ =>
    leave p.bindings.length k '' next (g.endings (k + 1) (σ.bindNames (k + 1) held p.bindings))
      fun q => b.endings (k + 1) q.slots
  | .mk p none b, σ =>
    leave p.bindings.length k '' b.endings (k + 1) (σ.bindNames (k + 1) held p.bindings)

/-- The endings of an arm that is passed over: its pattern does not match, or its guard fails. -/
def endingsPassed (k : Nat) (held : Set Reference) : TArm → Slots → Set Ending
  | .mk p (some g) _, σ =>
    {⟨∅, σ, ∅⟩} ∪ (fun o => o.drop.leave p.bindings.length k) ''
      g.endings (k + 1) (σ.bindNames (k + 1) held p.bindings)
  | .mk _ none _, σ => {⟨∅, σ, ∅⟩}

end

/-- Whether the type of a node shows that its value contains references, where that depends on the
type alone. -/
def ShowsReferences : TExpr → Prop
  | call i _ _ => holds i.ty → i.ty.carriesLoans = true
  | deref i _ => holds i.ty → Lowering.isRef i.ty = true
  | _ => True

end TExpr

/-- Whether a run of an activation lets a reference out of the scope of its local. Its own locals,
which hold no references to one another when it begins, are gone when it ends. -/
def Frame.LetsOut (g : Frame) (q : Reference) : Prop :=
  ∃ o ∈ g.body.endings holds 0 (g.locals.map fun x => ⟨x.1, 0, ∅⟩), q ∈ o.dangling ∨ q ∈ o.value

end

end RowCheck
