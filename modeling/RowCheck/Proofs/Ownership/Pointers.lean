import RowCheck.Proofs.Ownership.Walk

/-!
Runs of an activation, step by step, with the pointers in the values of its locals. A local is known by
the number of locals that have been made before it. Pointers are followed through values only: what is
stored through one, or is behind one that is read, is not.
-/
namespace RowCheck

/-- A pointer to a local: how and where the local was borrowed. -/
structure Pointer where
  place : Nat
  kind : BorrowKind
  span : Span
  deriving DecidableEq

/-- What a local is at some time: its type, and the pointers in its value. -/
structure Content where
  ty : Ty
  held : Set Pointer

/-- The locals that have been made, the first one first. -/
abbrev Memory := List Content

inductive Step where
  /-- A local is made with a value. -/
  | define (t : Ty) (held : Set Pointer)
  /-- A new value is put into a local. -/
  | assign (place : Nat) (held : Set Pointer) (span : Span)
  /-- The value of a local is used. -/
  | use (place : Nat) (kind : UseKind) (span : Span)
  /-- A local is borrowed. -/
  | lend (pointer : Pointer)
  /-- Values are used by a call. -/
  | pass (held : Set Pointer)

namespace Memory

/-- The pointers in the value of a local. -/
def held (μ : Memory) (place : Nat) : Set Pointer := {p | ∃ c ∈ μ[place]?, p ∈ c.held}

def ty (μ : Memory) (place : Nat) : Ty := (μ[place]?).elim .error (·.ty)

def step (μ : Memory) : Step → Memory
  | .define t held => μ ++ [⟨t, held⟩]
  | .assign place held _ => μ.modify place fun c => { c with held }
  | .use .. | .lend _ | .pass _ => μ

/-- The locals after some steps. -/
def after (μ : Memory) (S : List Step) : Memory := S.foldl step μ

@[simp] theorem after_nil (μ : Memory) : μ.after [] = μ := rfl

@[simp] theorem after_append (μ : Memory) (S S' : List Step) :
    μ.after (S ++ S') = (μ.after S).after S' := List.foldl_append

@[simp] theorem after_cons (μ : Memory) (a : Step) (S : List Step) :
    μ.after (a :: S) = (μ.step a).after S := rfl

theorem held_of_getElem? {μ : Memory} {place : Nat} {c : Content} (h : μ[place]? = some c) :
    μ.held place = c.held := by
  ext p
  simp [held, h]

end Memory

namespace Step

/-- The pointers in what a step uses. -/
def uses (μ : Memory) : Step → Set Pointer
  | use place .. => μ.held place
  | pass held => held
  | define .. | assign .. | lend _ => ∅

/-- Whether a step does what a pointer forbids as long as it is used later. Nothing else may be done with
a local while there is a unique pointer to it, and it may not be changed, moved or borrowed as unique
while there is any. -/
def Disturbs (p : Pointer) : Step → Prop
  | lend q => q.place = p.place ∧ q ≠ p ∧ (q.kind = .unique ∨ p.kind = .unique)
  | use place .move _ | assign place .. => place = p.place
  | use place _ _ => place = p.place ∧ p.kind = .unique
  | define .. | pass _ => False

/-- Where a step is taken. -/
def position : Step → Option Span
  | assign _ _ span | use _ _ span => some span
  | lend p => some p.span
  | define .. | pass _ => none

end Step

/-- The names in scope, the innermost first, with their locals. -/
abbrev Names := List (String × Nat)

/-- A run of an expression: the steps that it takes, and the pointers in its value. -/
structure Run where
  steps : List Step
  value : Set Pointer

namespace Run

/-- A run that takes no steps, and has a value without pointers. -/
def idle : Run := ⟨[], ∅⟩

/-- The value is of no use. -/
def drop (o : Run) : Run := { o with value := ∅ }

/-- Each of some runs goes on in some ways. -/
def next (μ : Memory) (O : Set Run) (f : Memory → Set Pointer → Set Run) : Set Run :=
  {o | ∃ p ∈ O, ∃ q ∈ f (μ.after p.steps) p.value, o = ⟨p.steps ++ q.steps, q.value⟩}

end Run

namespace Names

/-- The local that a name stands for. -/
def find? (env : Names) (x : String) : Option Nat :=
  (List.find? (fun e => decide (e.1 = x)) env).map (·.2)

/-- Names are bound from left to right, to new locals. -/
def bind (env : Names) (count : Nat) : List (String × Ty × Span) → Names
  | [] => env
  | b :: bs => bind ((b.1, count) :: env) (count + 1) bs

/-- The use of a name. A name that is no local has no pointers. -/
def use (env : Names) (μ : Memory) (x : String) (kind : UseKind) (span : Span) : Run :=
  match env.find? x with
  | some place => ⟨[.use place kind span], μ.held place⟩
  | none => .idle

/-- The borrow of a name. -/
def lend (env : Names) (x : String) (kind : BorrowKind) (span : Span) : Run :=
  match env.find? x with
  | some place => ⟨[.lend ⟨place, kind, span⟩], {⟨place, kind, span⟩}⟩
  | none => .idle

/-- The assignment to a name. -/
def assign (env : Names) (x : String) (value : Set Pointer) (span : Span) : Run :=
  match env.find? x with
  | some place => ⟨[.assign place value span], ∅⟩
  | none => .idle

/-- A closure takes the locals among some names. -/
def capture (env : Names) (μ : Memory) (span : Span) : List String → Run
  | [] => .idle
  | x :: xs =>
    let rest := env.capture μ span xs
    match env.find? x with
    | some place =>
      ⟨.use place (Lowering.useKind .value (μ.ty place)) span :: rest.steps, μ.held place ∪ rest.value⟩
    | none => rest

end Names

section

-- whether a value of a type can contain pointers
variable (holds : Ty → Prop)

open Run (next drop idle)

namespace TExpr

mutual

/-- The runs of an expression whose value is handed over, or only inspected. A pointer that is derived
from another one is taken to be that one. -/
def runs (env : Names) (d : Demand) (μ : Memory) : TExpr → Set Run
  | lit .. | failed _ => {idle}
  | var i x => {env.use μ x (Lowering.useKind d.role i.ty) i.span}
  | call i f a =>
    -- A function may put whatever it is given into what it returns.
    next μ (f.runs env .read μ) fun μ P => next μ (a.runs env .value μ) fun _ Q =>
      {⟨[.pass (P ∪ Q)], {p ∈ P ∪ Q | holds i.ty}⟩}
  | lam i p b =>
    let names := (SortedSet.ofList (b.free [])).filter (fun name => name != p.name)
    {env.capture μ i.span names.toList}
  | letIn _ x v b =>
    next μ (v.runs env .value μ) fun μ P => next μ {⟨[.define x.ty P], ∅⟩} fun μ' _ =>
      b.runs ((x.name, μ.length) :: env) d μ'
  | seq _ items => runsSeq env d μ items
  | cond _ c t e => next μ (c.runs env .read μ) fun μ _ => t.runs env d μ ∪ e.runs env d μ
  | matchOn _ s arms _ =>
    next μ (s.runs env (TArm.scrutineeDemand arms) μ) fun μ P =>
      if arms.isEmpty then {idle} else runsArms env d P μ arms
  | tuple _ items => runsAll env μ items
  | construct _ _ _ args => runsAll env μ args
  | binary _ _ a b => next μ (a.runs env .read μ) fun μ _ => drop '' b.runs env .read μ
  | unary _ _ a => drop '' a.runs env .read μ
  | borrow i kind (var _ x) => {env.lend x kind i.span}
  | borrow _ _ (deref _ reference) => reference.runs env .read μ
  | borrow _ _ inner => inner.runs env .value μ
  | deref i reference =>
    next μ (reference.runs env .read μ) fun _ P => {⟨[], {p ∈ P | holds i.ty}⟩}
  | assign _ (var j x) v => next μ (v.runs env .value μ) fun _ P => {env.assign x P j.span}
  | assign _ (deref _ reference) v =>
    next μ (v.runs env .value μ) fun μ _ => drop '' reference.runs env .read μ
  | assign _ _ v => drop '' v.runs env .value μ

/-- The runs of values that become parts of another one. -/
def runsAll (env : Names) (μ : Memory) : List TExpr → Set Run
  | [] => {idle}
  | e :: es =>
    next μ (e.runs env .value μ) fun μ P => next μ (runsAll env μ es) fun _ Q => {⟨[], P ∪ Q⟩}

/-- The runs of a sequence, whose value is that of its last item. -/
def runsSeq (env : Names) (d : Demand) (μ : Memory) : List TExpr → Set Run
  | [] => {idle}
  | [e] => e.runs env d μ
  | e :: f :: es => next μ (e.runs env .read μ) fun μ _ => runsSeq env d μ (f :: es)

/-- The runs of arms, given the pointers in what they match: one of them is selected, and those before it
are passed over. -/
def runsArms (env : Names) (d : Demand) (P : Set Pointer) (μ : Memory) : List TArm → Set Run
  | [] => ∅
  | a :: as =>
    runsArm env d P μ a ∪ next μ (runsPassed env P μ a) fun μ _ => runsArms env d P μ as

/-- The runs of an arm that is selected. -/
def runsArm (env : Names) (d : Demand) (P : Set Pointer) (μ : Memory) : TArm → Set Run
  | .mk p (some g) b =>
    next μ {⟨p.bindings.map fun n => .define n.2.1 P, ∅⟩} fun μ' _ =>
      next μ' (g.runs (env.bind μ.length p.bindings) .read μ') fun μ'' _ =>
        b.runs (env.bind μ.length p.bindings) d μ''
  | .mk p none b =>
    next μ {⟨p.bindings.map fun n => .define n.2.1 P, ∅⟩} fun μ' _ =>
      b.runs (env.bind μ.length p.bindings) d μ'

/-- The runs of an arm that is passed over: its pattern does not match, or its guard fails. -/
def runsPassed (env : Names) (P : Set Pointer) (μ : Memory) : TArm → Set Run
  | .mk p (some g) _ =>
    {idle} ∪ next μ {⟨p.bindings.map fun n => .define n.2.1 P, ∅⟩} fun μ' _ =>
      drop '' g.runs (env.bind μ.length p.bindings) .read μ'
  | .mk _ none _ => {idle}

end

attribute [simp] runs runsAll runsSeq runsArms runsArm runsPassed

end TExpr

/-- An activation begins with its locals, the outermost first, which hold no pointers to one another. -/
def Scope.steps (Γ : Scope) : List Step := Γ.reverse.map fun x => .define x.2 ∅

theorem Scope.steps_cons (x : String × Ty) (Γ : Scope) :
    Scope.steps (x :: Γ) = Γ.steps ++ [.define x.2 ∅] := by
  simp [Scope.steps]

theorem Scope.length_after_steps (Γ : Scope) : (Memory.after [] Γ.steps).length = Γ.length := by
  induction Γ with
  | nil => rfl
  | cons x Γ ih => simp [Scope.steps_cons, Memory.step, ih]

/-- The steps of the runs of an activation. -/
def Frame.Runs (g : Frame) (S : List Step) : Prop :=
  ∃ o ∈ g.body.runs holds (Scope.numbered id g.locals) .value (Memory.after [] g.locals.steps),
    S = g.locals.steps ++ o.steps

end

end RowCheck
