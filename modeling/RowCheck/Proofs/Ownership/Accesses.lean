import RowCheck.Proofs.Ownership.Guards
import RowCheck.Proofs.Ownership.Mentions
import RowCheck.Proofs.Ownership.Pointers
import RowCheck.Proofs.Ownership.Visits
import RowCheck.Proofs.Typing.Uses

/-!
Names in the flow of an activation. A name stands for the local of the innermost binder around it, and
each place where a local is used, borrowed or assigned to under its name is one point of the flow, with
that local. A closure takes, at the place where it is made, the locals that its body mentions, however
deep in closures within it; there they are locals of its own, under the same names.
-/
namespace RowCheck

/-! ## What the names stand for -/

inductive AccessKind where
  | use
  | borrow
  | assign
  deriving DecidableEq, Repr

/-- An access to a local under its name. Locals are numbered in the order in which the body of their
activation binds them. -/
structure LocalAccess where
  place : Nat
  kind : AccessKind
  span : Span
  deriving DecidableEq, Repr

/-- The access to what a name stands for, if that is a local. -/
def Names.access (env : Names) (x : String) (kind : AccessKind) (span : Span) : List LocalAccess :=
  ((env.find? x).map fun place => ⟨place, kind, span⟩).toList

/-- A closure takes the locals that it mentions, in ascending order of their names. -/
def Names.taken (env : Names) (p : Binder) (body : TExpr) (span : Span) : List LocalAccess :=
  let names := (SortedSet.ofList (env.map (·.1))).filter fun x => x != p.name && body.mentions x
  names.toList.flatMap (env.access · .use span)

theorem Names.access_eq_nil {env : Names} {x : String} (hx : x ∉ env.map (·.1)) (kind : AccessKind)
    (span : Span) : env.access x kind span = [] := by
  have hnone : List.find? (fun e => decide (e.1 = x)) env = none := by
    refine List.find?_eq_none.2 fun e he => ?_
    simpa using fun h : e.1 = x => hx (List.mem_map.2 ⟨e, he, h⟩)
  rw [access, find?, hnone]
  rfl

/-- The locals that a closure mentions are those among the names that occur free in it. -/
theorem Names.taken_eq (env : Names) (p : Binder) (body : TExpr) (span : Span) :
    env.taken p body span =
      ((SortedSet.ofList (body.free [])).filter (fun x => x != p.name)).toList.flatMap
        (env.access · .use span) := by
  have hnames : ((SortedSet.ofList (env.map (·.1))).filter fun x => x != p.name && body.mentions x) =
      ((SortedSet.ofList (body.free [])).filter (fun x => x != p.name)).filter
        (fun x => x ∈ env.map (·.1)) := by
    refine SortedSet.ext_mem fun x => ?_
    simp only [SortedSet.mem_filter, SortedSet.mem_ofList, TExpr.mem_free_iff, Bool.and_eq_true,
      decide_eq_true_eq, List.not_mem_nil, not_false_eq_true, true_and]
    tauto
  rw [taken, hnames]
  change (List.filter _ _).flatMap _ = _
  generalize ((SortedSet.ofList (body.free [])).filter (fun x => x != p.name)).toList = names
  induction names with
  | nil => rfl
  | cons x names ih =>
    by_cases hx : x ∈ env.map (·.1)
    · rw [List.filter_cons_of_pos (by simpa using hx), List.flatMap_cons, List.flatMap_cons, ih]
    · rw [List.filter_cons_of_neg (by simpa using hx), List.flatMap_cons, ih, access_eq_nil hx,
        List.nil_append]

namespace TExpr

mutual

/-- The names that an expression binds in its own activation, in the order in which it is walked. -/
def binders : TExpr → List (String × Ty × Span)
  | lit .. | failed _ | var .. | lam .. => []
  | call _ f a => f.binders ++ a.binders
  | letIn _ x v b => v.binders ++ (x.name, x.ty, x.span) :: b.binders
  | seq _ items | tuple _ items | construct _ _ _ items => bindersList items
  | cond _ c t e => c.binders ++ t.binders ++ e.binders
  | matchOn _ s arms _ => s.binders ++ bindersArms arms
  | binary _ _ a b => a.binders ++ b.binders
  | unary _ _ a | borrow _ _ a | deref _ a => a.binders
  | assign _ (deref _ reference) v => v.binders ++ reference.binders
  | assign _ _ v => v.binders

def bindersList : List TExpr → List (String × Ty × Span)
  | [] => []
  | e :: es => e.binders ++ bindersList es

def bindersArm : TArm → List (String × Ty × Span)
  | .mk p (some g) b => p.bindings ++ g.binders ++ b.binders
  | .mk p none b => p.bindings ++ b.binders

def bindersArms : List TArm → List (String × Ty × Span)
  | [] => []
  | a :: as => bindersArm a ++ bindersArms as

end

mutual

/-- The accesses of an expression to the locals of its activation, in the order in which it is walked,
when `count` locals have been made before. The target of an assignment is a place. -/
def accesses (env : Names) (count : Nat) : TExpr → List LocalAccess
  | lit .. | failed _ => []
  | var i x => env.access x .use i.span
  | call _ f a => f.accesses env count ++ a.accesses env (count + f.binders.length)
  | lam i p b => env.taken p b i.span
  | letIn _ x v b =>
    let place := count + v.binders.length
    v.accesses env count ++ b.accesses ((x.name, place) :: env) (place + 1)
  | seq _ items | tuple _ items | construct _ _ _ items => accessesList env count items
  | cond _ c t e =>
    c.accesses env count ++ t.accesses env (count + c.binders.length) ++
      e.accesses env (count + (c.binders ++ t.binders).length)
  | matchOn _ s arms _ =>
    s.accesses env count ++ accessesArms env (count + s.binders.length) arms
  | binary _ _ a b => a.accesses env count ++ b.accesses env (count + a.binders.length)
  | unary _ _ a | deref _ a => a.accesses env count
  | borrow i _ (var _ x) => env.access x .borrow i.span
  | borrow _ _ inner => inner.accesses env count
  | assign _ (var j x) v => v.accesses env count ++ env.access x .assign j.span
  | assign _ (deref _ reference) v =>
    v.accesses env count ++ reference.accesses env (count + v.binders.length)
  | assign _ _ v => v.accesses env count

def accessesList (env : Names) (count : Nat) : List TExpr → List LocalAccess
  | [] => []
  | e :: es => e.accesses env count ++ accessesList env (count + e.binders.length) es

def accessesArm (env : Names) (count : Nat) : TArm → List LocalAccess
  | .mk p (some g) b =>
    let inner := env.bind count p.bindings
    g.accesses inner (count + p.bindings.length) ++
      b.accesses inner (count + (p.bindings ++ g.binders).length)
  | .mk p none b => b.accesses (env.bind count p.bindings) (count + p.bindings.length)

def accessesArms (env : Names) (count : Nat) : List TArm → List LocalAccess
  | [] => []
  | a :: as => accessesArm env count a ++ accessesArms env (count + (bindersArm a).length) as

end

end TExpr

/-! ## What the flow has -/

/-- The access that a point makes, if it makes one. -/
def Flow.access? (f : Flow) (p : FlowPoint) : Option LocalAccess :=
  match p.event with
  | .use i _ => some ⟨i, .use, p.span⟩
  | .borrow loan => some ⟨(f.loanAt loan).place, .borrow, p.span⟩
  | .assign i => some ⟨i, .assign, p.span⟩
  | .define _ | .consume _ => none

/-- The accesses to the locals of an activation, in the order of the points. -/
def Flow.accesses (f : Flow) : List LocalAccess := f.points.toList.filterMap f.access?

/-- The names, types and positions of the locals of an activation. -/
def Flow.binders (f : Flow) : List (String × Ty × Span) :=
  f.locals.toList.map fun x => (x.name, x.ty, x.span)

/-- Whether there is a loan for each borrow. -/
def Flow.Lends (f : Flow) : Prop :=
  ∀ p ∈ f.points.toList, ∀ loan, p.event = .borrow loan → loan < f.loans.size

/-- Later loans are no matter to the points that are there already. -/
theorem Flow.access?_extends {f f' : Flow} (h : f.Lends) (he : f.Extends f') {p : FlowPoint}
    (hp : p ∈ f.points.toList) : f'.access? p = f.access? p := by
  have hlend := h p hp
  unfold access?
  cases hevent : p.event with
  | borrow loan =>
    simp only
    rw [he.loanAt (hlend loan hevent)]
  | _ => rfl

namespace Lowering

variable {s s' s'' : Lowering} {B C : List (String × Ty × Span)} {A D : List LocalAccess}

/-- A later state of an activation in which some locals, and some accesses, have been added. -/
structure Records (s s' : Lowering) (B : List (String × Ty × Span)) (A : List LocalAccess) : Prop where
  binders : s'.activation.flow.binders = s.activation.flow.binders ++ B
  lends : s.activation.flow.Lends → s'.activation.flow.Lends
  accesses : s.activation.flow.Lends →
    s'.activation.flow.accesses = s.activation.flow.accesses ++ A

theorem Records.trans (h : s.Records s' B A) (h' : s'.Records s'' C D) :
    s.Records s'' (B ++ C) (A ++ D) where
  binders := by rw [h'.binders, h.binders, List.append_assoc]
  lends := h'.lends ∘ h.lends
  accesses hs := by rw [h'.accesses (h.lends hs), h.accesses hs, List.append_assoc]

theorem Records.congr (h : s.Records s' B A) (hs : s''.activation.flow = s'.activation.flow) :
    s.Records s'' B A :=
  ⟨hs ▸ h.binders, hs ▸ h.lends, hs ▸ h.accesses⟩

theorem Records.size (h : s.Records s' B A) :
    s'.activation.flow.locals.size = s.activation.flow.locals.size + B.length := by
  simpa [Flow.binders] using congrArg List.length h.binders

/-- Where there are only more loans, nothing has been added. -/
theorem Rests.records (h : s.Rests s') : s.Records s' [] [] := by
  obtain ⟨hpoints, hlocals, hloans, -, -⟩ := h.activation
  refine ⟨by rw [Flow.binders, hlocals, List.append_nil, Flow.binders], fun hs p hp loan hevent => ?_,
    fun hs => ?_⟩
  · exact Nat.lt_of_lt_of_le (hs p (hpoints ▸ hp) loan hevent) (by simpa using hloans.length_le)
  · rw [Flow.accesses, hpoints, List.append_nil]
    exact List.filterMap_congr fun p hp => Flow.access?_extends hs h.activation.extends hp

theorem Records.refl (s : Lowering) : s.Records s [] [] := (Rests.refl s).records

/-- A point makes the access of its event. -/
theorem point_records (event : FlowEvent) (span : Span)
    (hevent : ∀ loan, event = .borrow loan → loan < s.activation.flow.loans.size) :
    s.Records (point event span s).2 []
      (s.activation.flow.access? ⟨event, span, s.activation.frontier⟩).toList := by
  have hpoints : (point event span s).2.activation.flow.points.toList =
      s.activation.flow.points.toList ++ [⟨event, span, s.activation.frontier⟩] := Array.toList_push
  refine ⟨(List.append_nil _).symm, fun hs p hp loan hlend => ?_, fun hs => ?_⟩
  · rw [hpoints, List.mem_append, List.mem_singleton] at hp
    rcases hp with hp | rfl
    · exact hs p hp loan hlend
    · exact hevent loan hlend
  · rw [Flow.accesses, hpoints, List.filterMap_append]
    rfl

theorem use_records (i : Nat) (kind : UseKind) (span : Span) :
    s.Records (point (.use i kind) span s).2 [] [⟨i, .use, span⟩] :=
  point_records _ span (by simp)

theorem declare_records (name : String) (t : Ty) (span : Span) (held : Loans) :
    s.Records (declare name t span held s).2 [(name, t, span)] [] := by
  let declared : Lowering :=
    { s with activation := s.activation.addLocal name t span held }
  have hlocal : s.Records declared [(name, t, span)] [] := by
    refine ⟨?_, id, fun _ => (List.append_nil _).symm⟩
    change ((s.activation.flow.locals.push _).toList.map _) = _
    rw [Array.toList_push, List.map_append]
    rfl
  exact hlocal.trans (point_records (.define s.activation.flow.locals.size) span nofun)

section

variable {α : Type} {m : LowerM α} {kind : AccessKind} {name : String} {span : Span}

/-- A name is looked up among those in scope. -/
theorem find?_names (f : Option Nat → LowerM α) :
    (find? name >>= f) s = f (Names.find? s.activation.scopes name) s := rfl

theorem found_records {f : Option Nat → LowerM α} (hnone : s.Records (f none s).2 [] [])
    (hsome : ∀ i, s.Records (f (some i) s).2 [] [⟨i, kind, span⟩]) :
    s.Records ((find? name >>= f) s).2 [] (Names.access s.activation.scopes name kind span) := by
  rw [find?_names, Names.access]
  cases Names.find? s.activation.scopes name with
  | none => exact hnone
  | some i => exact hsome i

theorem useVar_records (role : Role) (t : Ty) :
    s.Records (useVar role name t span s).2 []
      (Names.access s.activation.scopes name .use span) :=
  found_records (.refl s) fun i => use_records i (useKind role t) span

theorem borrowVar_records (borrow : BorrowKind) :
    s.Records (borrowVar borrow name span s).2 []
      (Names.access s.activation.scopes name .borrow span) := by
  refine found_records (.refl s) fun i => ?_
  let lent : Lowering := { s with activation := { s.activation with flow :=
    { s.activation.flow with loans := s.activation.flow.loans.push ⟨i, borrow, span⟩ } } }
  have hlent : s.Rests lent := ⟨⟨rfl, rfl, by simp [lent], rfl, rfl⟩, fun _ _ => Iff.rfl⟩
  have hpoint := point_records (s := lent) (.borrow s.activation.flow.loans.size) span fun loan h => by
    cases h
    simp [lent]
  have haccess : (lent.activation.flow.access?
      ⟨.borrow s.activation.flow.loans.size, span, lent.activation.frontier⟩).toList =
        [⟨i, .borrow, span⟩] := by
    simp [Flow.access?, Flow.loanAt, lent]
  exact haccess ▸ hlent.records.trans hpoint

theorem assignVar_records (value : Loans) (position : Span) :
    s.Records (assignVar name value position span s).2 []
      (Names.access s.activation.scopes name .assign span) := by
  refine found_records (.refl s) fun i => ?_
  have hchecked := (checkOutlives_quiet value (s.activation.flow.localAt i).region position s).records
  have hheld : ∀ s : Lowering, s.Rests { s with activation := { s.activation with flow :=
      { s.activation.flow with holdings := s.activation.flow.holdings.modify i (·.union value) } } } :=
    fun _ => ⟨⟨rfl, rfl, List.prefix_refl _, rfl, rfl⟩, fun _ _ => Iff.rfl⟩
  exact hchecked.trans ((hheld _).records.trans (point_records (.assign i) span nofun))

/-- A closure takes the locals among some names. -/
theorem capture_records (names : List String) :
    s.Records (capture span names s).2 []
      (names.flatMap (Names.access s.activation.scopes · .use span)) := by
  induction names generalizing s with
  | nil => exact .refl s
  | cons name names ih =>
    rw [capture, List.flatMap_cons, find?_names]
    cases hfind : Names.find? s.activation.scopes name with
    | none =>
      rw [Names.access, hfind]
      exact ih
    | some i =>
      rw [Names.access, hfind]
      exact (use_records i _ span).trans ih

theorem closure_records (p : Binder) (body : TExpr) (walk : LowerM Unit) :
    s.Records (closure p (body.free []) span walk s).2 []
      (Names.taken s.activation.scopes p body span) := by
  rw [Names.taken_eq]
  exact Records.congr (capture_records _) rfl

/-- Names are declared from left to right. -/
theorem declarePattern_records (p : TPattern) (held : Loans) :
    s.Records (declarePattern p held s).2 p.bindings [] ∧
      (declarePattern p held s).2.activation.scopes =
        Names.bind s.activation.scopes s.activation.flow.locals.size p.bindings := by
  unfold declarePattern
  generalize p.bindings = names
  induction names generalizing s with
  | nil => exact ⟨.refl s, rfl⟩
  | cons b names ih =>
    have hfirst := declare_records (s := s) b.1 b.2.1 b.2.2 held
    obtain ⟨hrest, hscopes⟩ := @ih (declare b.1 b.2.1 b.2.2 held s).2
    rw [List.forIn_cons]
    rw [hfirst.size] at hscopes
    exact ⟨hfirst.trans hrest, hscopes⟩

end

/-- Whether walking an expression adds the locals that it binds, and its accesses. -/
def Recorded (e : TExpr) : Prop :=
  ∀ (d : Demand) (s : Lowering), s.Records (lower d.role e s).2 e.binders
    (e.accesses s.activation.scopes s.activation.flow.locals.size)

/-- An action that adds nothing, wherever it begins. -/
def Silent {α : Type} (m : LowerM α) : Prop := ∀ s : Lowering, s.Records (m s).2 [] []

section

variable {α β : Type} {m : LowerM α} {f : α → LowerM β}

theorem Quiet.silent (h : Quiet m) : Silent m := fun s => (h s).records

theorem Silent.bind (hm : Silent m) (hf : ∀ a, Silent (f a)) : Silent (m >>= f) := fun s =>
  (hm s).trans (hf _ _)

theorem Records.bind (h : s.Records (m s).2 B A) (hf : (m s).2.Records (f (m s).1 (m s).2).2 C D) :
    s.Records ((m >>= f) s).2 (B ++ C) (A ++ D) :=
  h.trans hf

theorem Records.silent (h : s.Records (m s).2 B A) (hf : ∀ a, Silent (f a)) :
    s.Records ((m >>= f) s).2 B A := by
  have := h.trans (hf (m s).1 (m s).2)
  rwa [List.append_nil, List.append_nil] at this

theorem Silent.records_bind (hm : Silent m) (hf : (m s).2.Records (f (m s).1 (m s).2).2 B A) :
    s.Records ((m >>= f) s).2 B A :=
  (hm s).trans hf

theorem frontier_silent : Silent frontier := fun s => .refl s

theorem enterScope_silent : Silent enterScope := fun s => (Records.refl s).congr rfl

theorem leaveScope_silent (outer : Activation) (value : Loans) (position : Span) :
    Silent (leaveScope outer value position) := fun s =>
  (checkEscape_quiet value position s).records.congr rfl

/-- What is done in a scope of its own is added as it is. -/
theorem inScope_records (value : α → Loans) (position : Span)
    (h : s.enterScope.2.Records (m s.enterScope.2).2 B A) :
    s.Records ((do
      let outer ← enterScope
      let a ← m
      leaveScope outer (value a) position
      return a : LowerM α) s).2 B A :=
  enterScope_silent.records_bind
    (h.silent fun _ => (leaveScope_silent _ _ _).bind fun _ => (Quiet.pure _).silent)

theorem setFrontier_silent (points : SortedSet Nat) : Silent (setFrontier points) := fun s =>
  (Records.refl s).congr rfl

end

section

variable {i : Info} {e a b c r v : TExpr} {d : Demand}

/-- What is walked behind an expression is walked in the same scope, and has the next locals. -/
theorem Recorded.bind {α : Type} {f : Loans → LowerM α} (h : Recorded e)
    (hf : ∀ held (s' : Lowering), s'.activation.scopes = s.activation.scopes →
      s'.activation.flow.locals.size = s.activation.flow.locals.size + e.binders.length →
      s'.Records (f held s').2 B A) :
    s.Records ((lower d.role e >>= f) s).2 (e.binders ++ B)
      (e.accesses s.activation.scopes s.activation.flow.locals.size ++ A) :=
  (h d s).trans (hf _ _ ((regular e).stays d s).scopes (h d s).size)

attribute [local simp] lower closing_role TExpr.binders TExpr.accesses

/-- What adds nothing may follow. -/
theorem Recorded.ends {α : Type} {f : Loans → LowerM α} (h : Recorded e)
    (hf : ∀ held, Silent (f held)) (s : Lowering) :
    s.Records ((lower d.role e >>= f) s).2 e.binders
      (e.accesses s.activation.scopes s.activation.flow.locals.size) :=
  (h d s).silent hf

theorem pointUnless_silent (p : Prop) [Decidable p] (held : Loans) (span : Span) {α : Type} (a : α) :
    Silent (do
      unless p do point (.consume held) span
      return a) := by
  intro s
  dsimp only
  split
  · exact .refl s
  · exact point_records (.consume held) span nofun

theorem reportWhen_silent (p : Prop) [Decidable p] (fault : Diagnostic) {α : Type} (a : α) :
    Silent (do
      if p then report fault
      return a) := by
  intro s
  dsimp only
  split
  · exact (Records.refl s).congr (congrArg Activation.flow (activation_report fault s))
  · exact .refl s

theorem recorded_call (hf : Recorded e) (ha : Recorded a) : Recorded (.call i e a) := by
  intro d s
  simp only [lower, closing_role, TExpr.binders, TExpr.accesses]
  refine hf.bind (d := .read) fun held s' hscopes hsize => ?_
  rw [← hscopes, ← hsize]
  exact ha.ends (d := .value) (fun _ => pointUnless_silent _ _ _ _) s'

theorem recorded_letIn (x : Binder) (hv : Recorded v) (hb : Recorded b) :
    Recorded (.letIn i x v b) := by
  intro d s
  simp only [lower, closing_role, inner_role, TExpr.binders, TExpr.accesses]
  refine hv.bind (d := .value) fun held s' hscopes hsize => ?_
  rw [← hscopes, ← hsize]
  have hdeclared := declare_records (s := s'.enterScope.2) x.name x.ty x.span held
  have hbody := hb d (declare x.name x.ty x.span held s'.enterScope.2).2
  rw [hdeclared.size] at hbody
  exact inScope_records id i.span (hdeclared.trans hbody)

theorem recorded_cond (hc : Recorded c) (ha : Recorded a) (hb : Recorded b) :
    Recorded (.cond i c a b) := by
  intro d s
  simp only [lower, closing_role, inner_role, TExpr.binders, TExpr.accesses, List.append_assoc]
  refine hc.bind (d := .read) fun held s' hscopes hsize => frontier_silent.records_bind ?_
  rw [List.length_append, ← Nat.add_assoc, ← hscopes, ← hsize]
  refine ha.bind fun held s'' (hscopes' : _ = s'.activation.scopes)
    (hsize' : _ = s'.activation.flow.locals.size + _) => frontier_silent.records_bind ?_
  rw [← hscopes', ← hsize']
  exact (setFrontier_silent _).records_bind (hb.ends (fun _ => frontier_silent.bind fun _ =>
    (setFrontier_silent _).bind fun _ => (Quiet.pure _).silent) _)

theorem recorded_binary (op : BinOp) (ha : Recorded a) (hb : Recorded b) :
    Recorded (.binary i op a b) := by
  intro d s
  simp only [lower, closing_role, TExpr.binders, TExpr.accesses]
  refine ha.bind (d := .read) fun held s' hscopes hsize => ?_
  rw [← hscopes, ← hsize]
  exact hb.ends (d := .read) (fun _ => (Quiet.pure _).silent) s'

theorem recorded_unary (op : UnOp) (ha : Recorded a) : Recorded (.unary i op a) := by
  intro d s
  simp only [lower, closing_role, TExpr.binders, TExpr.accesses]
  exact ha.ends (d := .read) (fun _ => (Quiet.pure _).silent) s

/-- A dereference that is only inspected is walked as the reference is. -/
theorem Recorded.reference (h : Recorded (.deref i r)) (s : Lowering) :
    s.Records (lower .read r s).2 r.binders
      (r.accesses s.activation.scopes s.activation.flow.locals.size) := by
  have hread : ∀ span (m : LowerM Loans), closing .read span m = m := closing_role .read
  have hrecords := h .read s
  rw [show Demand.role .read = Role.read from rfl, lower, hread, TExpr.binders,
    TExpr.accesses] at hrecords
  exact hrecords

theorem recorded_borrow (kind : BorrowKind) (ha : Recorded a) : Recorded (.borrow i kind a) := by
  intro d s
  cases a with
  | var j x =>
    simp only [lower, closing_role, TExpr.binders, TExpr.accesses]
    exact borrowVar_records kind
  | deref j r =>
    simp only [lower, closing_role, TExpr.binders, TExpr.accesses]
    exact (ha.reference s).silent fun held => reportWhen_silent _ _ _
  | _ =>
    simp only [lower, closing_role, TExpr.binders, TExpr.accesses]
    exact ha .value s

theorem recorded_deref (hr : Recorded r) : Recorded (.deref i r) := by
  intro d s
  simp only [lower, closing_role, TExpr.binders, TExpr.accesses]
  exact hr.ends (d := .read) (fun _ => reportWhen_silent _ _ _) s

theorem recorded_assign (ha : Recorded a) (hv : Recorded v) : Recorded (.assign i a v) := by
  intro d s
  cases a with
  | var j x =>
    simp only [lower, closing_role, TExpr.binders, TExpr.accesses]
    rw [← List.append_nil v.binders]
    refine hv.bind (d := .value) fun value s' hscopes _ => ?_
    rw [← hscopes]
    exact (assignVar_records value i.span).silent fun _ => (Quiet.pure _).silent
  | deref j r =>
    simp only [lower, closing_role, TExpr.binders, TExpr.accesses]
    refine hv.bind (d := .value) fun value s' hscopes hsize => ?_
    rw [← hscopes, ← hsize]
    exact (ha.reference s').silent fun held =>
      (assignThrough_quiet r held value i.span).silent.bind fun _ => (Quiet.pure _).silent
  | _ =>
    simp only [lower, closing_role, TExpr.binders, TExpr.accesses]
    exact hv.ends (d := .value) (fun _ => (Quiet.pure _).silent) s

theorem lowerAll_records {es : List TExpr} (h : ∀ e ∈ es, Recorded e) (s : Lowering) :
    s.Records (lowerAll es s).2 (TExpr.bindersList es)
      (TExpr.accessesList s.activation.scopes s.activation.flow.locals.size es) := by
  induction es generalizing s with
  | nil => exact .refl s
  | cons e es ih =>
    rw [List.forall_mem_cons] at h
    rw [lowerAll, TExpr.bindersList, TExpr.accessesList]
    refine h.1.bind (d := .value) fun held s' hscopes hsize => ?_
    rw [← hscopes, ← hsize]
    exact (ih h.2 s').silent fun _ => (Quiet.pure _).silent

theorem lowerSeq_records {es : List TExpr} (h : ∀ e ∈ es, Recorded e) (d : Demand) (s : Lowering) :
    s.Records (lowerSeq d.role es s).2 (TExpr.bindersList es)
      (TExpr.accessesList s.activation.scopes s.activation.flow.locals.size es) := by
  induction es generalizing s with
  | nil => exact .refl s
  | cons e es ih =>
    rw [List.forall_mem_cons] at h
    rw [TExpr.bindersList, TExpr.accessesList]
    cases es with
    | nil =>
      rw [TExpr.bindersList, TExpr.accessesList, List.append_nil, List.append_nil]
      exact h.1 d s
    | cons f es =>
      refine h.1.bind (d := .read) fun held s' hscopes hsize => ?_
      rw [← hscopes, ← hsize]
      exact ih h.2 s'

/-- Whether walking an arm, in its scope, adds the locals that it binds and its accesses. -/
def RecordedArm (a : TArm) : Prop :=
  ∀ (d : Demand) (held : Loans) (entry : SortedSet Nat) (s : Lowering),
    s.Records (lowerArm d.role held entry a s).2 (TExpr.bindersArm a)
      (TExpr.accessesArm s.activation.scopes s.activation.flow.locals.size a)

theorem recordedArm_unguarded (p : TPattern) (hb : Recorded b) : RecordedArm (.mk p none b) := by
  intro d held entry s
  obtain ⟨hdeclared, hscopes⟩ := declarePattern_records (s := s) p held
  rw [lowerArm, TExpr.bindersArm, TExpr.accessesArm, ← hscopes, ← hdeclared.size]
  exact hdeclared.bind (hb.ends (fun _ => (Quiet.pure _).silent) _)

theorem recordedArm_guarded (p : TPattern) (hg : Recorded e) (hb : Recorded b) :
    RecordedArm (.mk p (some e) b) := by
  intro d held entry s
  obtain ⟨hdeclared, hscopes⟩ := declarePattern_records (s := s) p held
  rw [lowerArm, TExpr.bindersArm, TExpr.accessesArm, List.append_assoc, List.length_append,
    ← Nat.add_assoc, ← hscopes, ← hdeclared.size]
  refine hdeclared.bind (hg.bind (d := .read) fun _ s' hscopes' hsize' =>
    frontier_silent.records_bind ?_)
  rw [← hscopes', ← hsize']
  exact hb.ends (fun _ => (Quiet.pure _).silent) s'

theorem lowerArms_records {arms : List TArm} (h : ∀ a ∈ arms, RecordedArm a) (d : Demand)
    (held : Loans) (entry exits : SortedSet Nat) (s : Lowering) :
    s.Records (lowerArms d.role held entry exits arms s).2 (TExpr.bindersArms arms)
      (TExpr.accessesArms s.activation.scopes s.activation.flow.locals.size arms) := by
  induction arms generalizing s entry exits with
  | nil => exact (setFrontier_silent _).bind (fun _ => (Quiet.pure _).silent) s
  | cons a arms ih =>
    rw [List.forall_mem_cons] at h
    let entered := (setFrontier entry s).2
    let walked := arm d.role held entry a entered
    have harm : entered.Records walked.2 (TExpr.bindersArm a) (TExpr.accessesArm
        entered.activation.scopes entered.activation.flow.locals.size a) :=
      inScope_records Prod.fst a.body.span (h.1 d held entry entered.enterScope.2)
    have hscopes : walked.2.activation.scopes = entered.activation.scopes :=
      (inScope_stays Prod.fst a.body.span (regularArm a d held entry) entered).scopes
    have hrest : walked.2.Records ((do
        let exits := exits.union (← frontier)
        return walked.1.1.union (← lowerArms d.role held walked.1.2 exits arms) : LowerM Loans)
          walked.2).2 (TExpr.bindersArms arms) (TExpr.accessesArms walked.2.activation.scopes
            walked.2.activation.flow.locals.size arms) :=
      frontier_silent.records_bind ((ih h.2 _ _ _).silent fun _ => (Quiet.pure _).silent)
    rw [hscopes, harm.size] at hrest
    rw [TExpr.bindersArms, TExpr.accessesArms]
    exact (setFrontier_silent entry s).trans (harm.trans hrest)

theorem recorded_matchOn {arms : List TArm} (tree : Option DecisionTree) (he : Recorded e)
    (h : ∀ a ∈ arms, RecordedArm a) : Recorded (.matchOn i e arms tree) := by
  intro d s
  simp only [lower, closing_role, inner_role, TExpr.binders, TExpr.accesses]
  refine he.bind (d := TArm.scrutineeDemand arms) fun held s' hscopes hsize =>
    frontier_silent.records_bind ?_
  rw [← hscopes, ← hsize]
  refine (lowerArms_records h d held _ _ s').silent fun value => ?_
  split
  · exact (setFrontier_silent _).bind fun _ => (Quiet.pure _).silent
  · exact (Quiet.pure _).silent

end

mutual

theorem recorded : (e : TExpr) → Recorded e
  | .lit i _ | .failed i => fun d s => by
    simp only [lower, closing_role, TExpr.binders, TExpr.accesses]
    exact .refl s
  | .var i x => fun d s => by
    simpa only [lower, closing_role, TExpr.binders, TExpr.accesses] using
      useVar_records d.role i.ty
  | .call _ f a => recorded_call (recorded f) (recorded a)
  | .lam i p b => fun d s => by
    rw [lower_lam, TExpr.binders, TExpr.accesses]
    exact closure_records p b _
  | .letIn _ x v b => recorded_letIn x (recorded v) (recorded b)
  | .seq _ items => fun d s => by
    simp only [lower, closing_role, inner_role, TExpr.binders, TExpr.accesses]
    exact lowerSeq_records (recordedList items) d s
  | .cond _ c t e => recorded_cond (recorded c) (recorded t) (recorded e)
  | .matchOn _ e arms tree => recorded_matchOn tree (recorded e) (recordedArms arms)
  | .tuple _ items | .construct _ _ _ items => fun d s => by
    simp only [lower, closing_role, TExpr.binders, TExpr.accesses]
    exact lowerAll_records (recordedList items) s
  | .binary _ op a b => recorded_binary op (recorded a) (recorded b)
  | .unary _ op a => recorded_unary op (recorded a)
  | .borrow _ kind a => recorded_borrow kind (recorded a)
  | .deref _ r => recorded_deref (recorded r)
  | .assign _ a v => recorded_assign (recorded a) (recorded v)

theorem recordedList : (es : List TExpr) → ∀ e ∈ es, Recorded e
  | [] => nofun
  | e :: es => List.forall_mem_cons.2 ⟨recorded e, recordedList es⟩

theorem recordedArm : (a : TArm) → RecordedArm a
  | .mk p (some g) b => recordedArm_guarded p (recorded g) (recorded b)
  | .mk p none b => recordedArm_unguarded p (recorded b)

theorem recordedArms : (arms : List TArm) → ∀ a ∈ arms, RecordedArm a
  | [] => nofun
  | a :: arms => List.forall_mem_cons.2 ⟨recordedArm a, recordedArms arms⟩

end

/-- An activation begins with its locals, under their names, and has accessed none. -/
theorem Entered.records {Γ : Scope} (h : Entered Γ s) :
    s.activation.scopes = Γ.numbered id ∧
      s.activation.flow.binders.map (fun b => (b.1, b.2.1)) = Γ.reverse ∧
      s.activation.flow.Lends ∧ s.activation.flow.accesses = [] := by
  induction h with
  | start faults => exact ⟨rfl, rfl, nofun, rfl⟩
  | @declare Γ s name t span _ ih =>
    obtain ⟨hscopes, hbinders, hlends, haccesses⟩ := ih
    have hdeclared := declare_records (s := s) name t span ∅
    have hsize : s.activation.flow.locals.size = Γ.length := by
      simpa [Flow.binders] using congrArg List.length hbinders
    refine ⟨?_, ?_, hdeclared.lends hlends, ?_⟩
    · rw [Scope.numbered, ← hscopes, ← hsize]
      rfl
    · rw [hdeclared.binders, List.map_append, hbinders, List.reverse_cons]
      rfl
    · rw [hdeclared.accesses hlends, haccesses]
      rfl

end Lowering

/-! ## Within closures -/

/-- A name that a chain of functions mentions is not that of a parameter. -/
theorem Frame.find?_of {Γ : Scope} {e : TExpr} {x : String} (h : e.mentions x = true) :
    (of Γ e).locals.find? x = Γ.find? x := by
  induction Γ, e using of.induct with
  | case1 Γ i p b ih =>
    rw [TExpr.mentions, Bool.and_eq_true, decide_eq_true_eq] at h
    rw [of, ih h.2, Scope.find?, if_neg h.1]
  | case2 Γ e he => rw [Lowering.frame_of he]

/-- A closure that is made somewhere in the course of an activation is one that the activation comes to
create. -/
theorem Frame.reaches_of_contains {g c : Frame} {Γ : Scope} {d : Demand} {i : Info} {p : Binder}
    {body : TExpr} (h : g.evaluation.Contains ⟨Γ, d, .lam i p body⟩)
    (hc : c ∈ created (Γ.closure p body i.span)) : g.Reaches c := by
  have hmade : (Evaluation.traces ⟨Γ, d, .lam i p body⟩).Embed (Γ.closure p body i.span) :=
    Traces.embed_of_mem (List.mem_singleton_self _)
  obtain ⟨before, later, hrun⟩ :=
    (h.embed hmade).behind (Lowering.defines_ne_nil [] g.locals.length)
  refine reaches_of_mem_created hrun ?_
  rw [created, List.filterMap_append, List.filterMap_append]
  exact List.mem_append_left _ (List.mem_append_right _ hc)

namespace Scope

variable {Γ Δ : Scope} {names : List String} {x : String}

theorem find?_append : ((Γ ++ Δ).find? x).map (·.2) =
    ((Γ.find? x).map (·.2)).or ((Δ.find? x).map (·.2)) := by
  induction Γ with
  | nil => rfl
  | cons e Γ ih =>
    rw [List.cons_append, find?, find?]
    split <;> simp [ih]

/-- Of some names, those are captured that stand for locals, with the types of these. -/
theorem find?_captures (hnames : names.Nodup) :
    (Scope.find? ((Γ.captures names).map (·.2)).reverse x).map (·.2) =
      if x ∈ names then (Γ.find? x).map (·.2) else none := by
  induction names with
  | nil => rfl
  | cons y names ih =>
    obtain ⟨hy, hrest⟩ := List.nodup_cons.1 hnames
    have hcons : Γ.captures (y :: names) =
        ((Γ.find? y).map fun found => (found.1, y, found.2)).toList ++ Γ.captures names := by
      rw [captures, List.filterMap_cons]
      cases Γ.find? y <;> rfl
    rw [hcons, List.map_append, List.reverse_append, find?_append, ih hrest]
    by_cases hx : x = y
    · subst hx
      rw [if_neg hy, if_pos List.mem_cons_self]
      cases Γ.find? x <;> simp [find?]
    · have hmem : x ∈ y :: names ↔ x ∈ names := by simp [hx]
      simp only [hmem]
      cases Γ.find? y <;> simp [find?, Ne.symm hx]

/-- Within a closure, a name that the body mentions, other than the parameter, stands for a local just
if it does so around the closure; and the two have the same type. -/
theorem find?_closure {p : Binder} {body : TExpr} {span : Span} {c : Frame}
    (hc : c ∈ Frame.created (Γ.closure p body span)) (hx : body.mentions x = true)
    (hp : x ≠ p.name) : (c.locals.find? x).map (·.2) = (Γ.find? x).map (·.2) := by
  let names := (SortedSet.ofList (body.free [])).filter fun name => name != p.name
  have hmem : x ∈ names.toList := by
    refine SortedSet.mem_filter.2 ⟨SortedSet.mem_ofList.2 ?_, by simpa using hp⟩
    exact (TExpr.mem_free_iff body []).2 ⟨List.not_mem_nil, hx⟩
  have hnodup : names.toList.Nodup := names.sorted.imp fun {a b} hab hne => by
    subst hne
    exact Std.Irrefl.irrefl a hab
  obtain rfl : c = .of ((p.name, p.ty) :: ((Γ.captures names.toList).map (·.2)).reverse) body := by
    rw [closure, Frame.created, List.filterMap_append, List.filterMap_map] at hc
    rcases List.mem_append.1 hc with h | h
    · obtain ⟨_, -, h⟩ := List.mem_filterMap.1 h
      cases h
    · exact List.mem_singleton.1 h
  rw [Frame.find?_of hx, find?, if_neg hp.symm, find?_captures hnodup, if_pos hmem]

end Scope

/-- In the flow of an activation there is one access for each place where a local is used, borrowed or
assigned to under its name, and that is to the local of the innermost binder of this name around the
place; and where a closure is made, one for each local that the closure mentions. There are no others,
and there is a local for each name that the body binds. The closure has an activation of its own, and
there each name that it mentions stands for a local just if it does so where the closure is made, and of
the same type; so the accesses in that activation are to what has been taken. -/
theorem Frame.Flows.accesses_resolve {g : Frame} {flow : Flow} (h : g.Flows flow) :
    flow.accesses = g.body.accesses (g.locals.numbered id) g.locals.length ∧
      flow.binders.map (fun b => (b.1, b.2.1)) =
        g.locals.reverse ++ g.body.binders.map (fun b => (b.1, b.2.1)) ∧
      ∀ {Γ : Scope} {d : Demand} {i : Info} {p : Binder} {body : TExpr},
        g.evaluation.Contains ⟨Γ, d, .lam i p body⟩ →
        ∀ c ∈ Frame.created (Γ.closure p body i.span), g.Reaches c ∧
          ∀ x, body.mentions x = true → x ≠ p.name →
            (c.locals.find? x).map (·.2) = (Γ.find? x).map (·.2) := by
  obtain ⟨s, hs, rfl⟩ := h
  obtain ⟨hscopes, hbinders, hlends, haccesses⟩ := hs.records
  have hbody := Lowering.recorded g.body .value s
  have hsize : s.activation.flow.locals.size = g.locals.length := by
    simpa [Flow.binders] using congrArg List.length hbinders
  rw [hscopes, hsize] at hbody
  refine ⟨(hbody.accesses hlends).trans ?_, ?_, fun hmade c hc => ⟨?_, fun x hx hp => ?_⟩⟩
  · rw [haccesses, List.nil_append]
  · rw [← hbinders, ← List.map_append]
    exact congrArg _ hbody.binders
  · exact Frame.reaches_of_contains hmade hc
  · exact Scope.find?_closure hc hx hp

/-- A function with a closure whose inner closure uses a local, before another local gets its name:
`fn nest() { let s = "a"; let g = fn(u) { fn(v) { s } }; let s = 1; s := 2 }`. -/
def nest : Decl :=
  let name := Name.mk .synthetic
  let closure := fun span x => Expr.lam span [⟨name x, none⟩]
  .fn ⟨.synthetic, name "nest", [], none, none,
    .letIn .synthetic (name "s") none (.lit .synthetic (.string "a"))
      (.letIn .synthetic (name "g") none
        (closure ⟨0, 30, 50⟩ "u" (closure .synthetic "v" (.var .synthetic "s")))
        (.letIn .synthetic (name "s") none (.lit .synthetic (.int 1))
          (.assign .synthetic (.var ⟨0, 60, 61⟩ "s") (.lit .synthetic (.int 2)))))⟩

theorem nest_accesses : ∃ f, nest.function? = some f ∧ ∃ flow, (Frame.of [] f.body).Flows flow ∧
    flow.accesses = [⟨0, .use, ⟨0, 30, 50⟩⟩, ⟨2, .assign, ⟨0, 60, 61⟩⟩] := by
  obtain ⟨f, hf, hlocals, haccesses⟩ : ∃ f ∈ nest.function?, (Frame.of [] f.body).locals = [] ∧
      (Frame.of [] f.body).body.accesses [] 0 =
        [⟨0, .use, ⟨0, 30, 50⟩⟩, ⟨2, .assign, ⟨0, 60, 61⟩⟩] := by
    decide +kernel
  have hstart : Lowering.Entered (Frame.of [] f.body).locals ⟨.empty, []⟩ := by
    rw [hlocals]
    exact .start []
  have hflows : (Frame.of [] f.body).Flows _ := ⟨_, hstart, rfl⟩
  refine ⟨f, hf, _, hflows, hflows.accesses_resolve.1.trans ?_⟩
  rw [hlocals]
  exact haccesses

/-- A function that makes a closure without parameters, which moves a local, and then moves the local:
`fn hide() { let x = "a"; let g = fn() { let t = x; () }; let w = x; () }`. -/
def hide (x : String) : Decl :=
  let name := Name.mk .synthetic
  let unit := Expr.lit .synthetic .unit
  .fn ⟨.synthetic, name "hide", [], none, none,
    .letIn .synthetic (name x) none (.lit .synthetic (.string "a"))
      (.letIn .synthetic (name "g") none
        (.lam .synthetic [] (.letIn .synthetic (name "t") none (.var .synthetic x) unit))
        (.letIn .synthetic (name "w") none (.var ⟨0, 55, 57⟩ x) unit))⟩

/-- Whether a closure uses a name, which is that of its parameter, for something of another type. -/
def TExpr.usesBeyond : TExpr → Bool
  | .lam _ p b => b.nodes.any fun
    | .var i x => x = p.name && i.ty ≠ p.ty
    | _ => false
  | _ => false

/-- The local is reported as moved by the closure. But under the name `_` it is not seen there, since the
closure has a parameter of that name, although the name stands for the local where it is typed. -/
theorem hide_passes :
    (∃ f, (hide "s").function? = some f ∧ ∃ d ∈ f.checkOwnership.2, d.TellsMisuse "s" ⟨0, 55, 57⟩) ∧
    ∃ f, (hide "_").function? = some f ∧ f.checkOwnership.2 = [] ∧
      f.body.nodes.any TExpr.usesBeyond = true :=
  ⟨⟨Option.get _ (by decide +kernel), (Option.some_get _).symm, by decide +kernel⟩,
    Option.get _ (by decide +kernel), (Option.some_get _).symm, by decide +kernel, by decide +kernel⟩

end RowCheck
