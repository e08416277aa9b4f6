import RowCheck.Proofs.Ownership.Exclusive
import RowCheck.Proofs.Ownership.Takes

/-!
What is protected by a pointer. Whatever a run does against a pointer that a value used later contains is
reported, and so is what it does against a pointer that has been assigned to a local used later. But
pointers are followed through values only: what is borrowed of a reference does not contain the pointers
in that, and what is stored through a reference does not get into the local.
-/
namespace RowCheck

/-- An activation begins where its locals have been made. -/
theorem Lowering.Entered.arrives {Γ : Scope} {s : Lowering} (h : Lowering.Entered Γ s) :
    ∃ ν t, s.Arrives (Scope.numbered id Γ) ν Γ.steps t := by
  induction h with
  | start faults =>
    exact ⟨[], [], ⟨.nil, rfl, List.nodup_nil, rfl, nofun⟩, .nil, nofun⟩
  | @declare Γ s name t span _ ih =>
    obtain ⟨ν, points, hs⟩ := ih
    have hdeclared := Lowering.declare_arrives hs (Flow.carries_empty ∅) name t span
    rw [Scope.length_after_steps] at hdeclared
    rw [Scope.steps_cons]
    exact ⟨_, _, hdeclared⟩

/-- If something is done against a pointer on the path of a run, and a later step uses a loan for it, that
is among the faults. -/
theorem Flow.ExcludesIn.told {flow : Flow} {faults : List Diagnostic} (h : flow.ExcludesIn faults)
    {ν t : List Nat} {before between later : List Step} {a u : Step} {p : Pointer} (hν : ν.Nodup)
    (hexecutes : flow.Executes ν t (before ++ a :: (between ++ u :: later))) (ha : a.Disturbs p)
    (hidle : u ≠ .pass ∅) (hu : ∀ point, flow.Performs ν (Memory.after [] (before ++ a :: between))
      point u → ∃ loan ∈ flow.usesAt point, flow.IsLoan ν p loan) (hlend : .lend p ∉ between) :
    ∃ d ∈ faults, d.category = .conflictingBorrow ∧ d.location = a.position := by
  obtain ⟨i, point, loan, hpoint, hdisturbs, hneeds, hposition⟩ :=
    hexecutes.needs hν ha hidle hu hlend
  obtain ⟨d, hd, hcategory, hlocation⟩ := h i point loan hpoint hdisturbs hneeds
  exact ⟨d, hd, hcategory, hlocation.trans hposition.symm⟩

/-- Each run of an activation that comes to be created is executed by a flow, and what loans forbid
there is reported. -/
theorem TFunction.exists_executes (f : TFunction) {g : Frame} {holds : Ty → Prop} {S : List Step}
    (hg : (Frame.of [] f.body).Reaches g) (hshows : ∀ n ∈ g.body.nodes, n.ShowsReferences holds)
    (hS : g.Runs holds S) :
    ∃ (flow : Flow) (ν t : List Nat),
      flow.ExcludesIn f.checkOwnership.2 ∧ ν.Nodup ∧ flow.Executes ν t S := by
  obtain ⟨s, hs, hfaults⟩ := f.exists_entered hg
  obtain ⟨⟨ν, hstands⟩, -⟩ := hs.stands
  have hforward := ((Lowering.blamed g.body).walks .value hstands).led.forward
  obtain ⟨ν, t, hstart⟩ := hs.arrives
  obtain ⟨o, ho, rfl⟩ := hS
  obtain ⟨ν', t', -, harrives, -⟩ := (Lowering.takesRuns g.body hshows).1 .value hstart o ho
  refine ⟨_, ν', t', fun i p loan hp hdisturbs hneeds => ?_, harrives.stores.distinct,
    harrives.executes⟩
  obtain ⟨d, hd, other, htells⟩ := hforward.tells_of_disturbs hp hdisturbs hneeds
  obtain ⟨e, he, hcategory, -, hlocation⟩ :=
    Lowering.close_shows (Lowering.lower .value g.body s).1 g.body.span hd
  exact ⟨e, hfaults he, hcategory.trans htells.category, hlocation.trans htells.location⟩

/-- If a run of an activation does something to a local that a pointer to it forbids, and later uses a
value with that pointer, that is reported, through whatever locals, values, closures and calls the
pointer has got there, as long as types show which values contain references. -/
theorem TFunction.checkOwnership_protects (f : TFunction) {g : Frame} {holds : Ty → Prop}
    {p : Pointer} {a u : Step} {before between later : List Step}
    (hg : (Frame.of [] f.body).Reaches g) (hshows : ∀ n ∈ g.body.nodes, n.ShowsReferences holds)
    (hrun : g.Runs holds (before ++ a :: (between ++ u :: later))) (ha : a.Disturbs p)
    (hu : p ∈ u.uses (Memory.after [] (before ++ a :: between))) (hlend : .lend p ∉ between) :
    ∃ d ∈ f.checkOwnership.2, d.category = .conflictingBorrow ∧ d.location = a.position := by
  obtain ⟨flow, ν, t, hexcludes, hν, hexecutes⟩ := f.exists_executes hg hshows hrun
  have hidle : u ≠ .pass ∅ := by
    rintro rfl
    exact hu.elim
  exact hexcludes.told hν hexecutes ha hidle (fun _ hused => hused.uses hu) hlend

/-- A function that borrows what a reference to its local refers to, and changes the local before it uses
what it has borrowed: `fn reborrow() { let x = 1; let r = &mut x; let o = &*r; x := 2; *o }`. -/
def reborrow : TFunction :=
  let info := fun t => Info.mk .synthetic t .pure none
  let word := Ty.prim .s32
  let unique := Ty.ref .unique word
  let shared := Ty.ref .shared word
  ⟨"reborrow", .synthetic, word, .pure,
    .letIn (info word) ⟨"x", .synthetic, word, none⟩ (.lit (info word) (.int 1))
      (.letIn (info word) ⟨"r", .synthetic, unique, none⟩
        (.borrow (info unique) .unique (.var (info word) "x"))
        (.letIn (info word) ⟨"o", .synthetic, shared, none⟩
          (.borrow (info shared) .shared (.deref (info word) (.var (info unique) "r")))
          (.seq (info word) [.assign (info .unit) (.var ⟨⟨0, 30, 31⟩, word, .pure, none⟩ "x")
            (.lit (info word) (.int 2)), .deref (info word) (.var (info shared) "o")])))⟩

theorem reborrow_protects :
    let p : Pointer := ⟨0, .unique, .synthetic⟩
    let before := [.define (.prim .s32) ∅, .lend p, .define (.ref .unique (.prim .s32)) {p},
      .use 1 .read .synthetic, .define (.ref .shared (.prim .s32)) {p}]
    (∀ n ∈ (Frame.of [] reborrow.body).body.nodes, n.ShowsReferences (·.carriesLoans = true)) ∧
    (Frame.of [] reborrow.body).Runs (·.carriesLoans = true)
      (before ++ [.assign 0 ∅ ⟨0, 30, 31⟩, .use 2 .read .synthetic]) ∧
    p ∈ Step.uses (Memory.after [] (before ++ [.assign 0 ∅ ⟨0, 30, 31⟩])) (.use 2 .read .synthetic) ∧
    ∃ d ∈ reborrow.checkOwnership.2, d.category = .conflictingBorrow ∧
      d.location = some ⟨0, 30, 31⟩ := by
  intro p before
  have hshows : ∀ n ∈ (Frame.of [] reborrow.body).body.nodes,
      n.ShowsReferences (·.carriesLoans = true) := by
    simp [reborrow, Frame.of, TExpr.nodes, TExpr.nodesList, TExpr.ShowsReferences, Ty.carriesLoans]
  have hrun : (Frame.of [] reborrow.body).Runs (·.carriesLoans = true)
      (before ++ .assign 0 ∅ ⟨0, 30, 31⟩ :: ([] ++ .use 2 .read .synthetic :: [])) := by
    simp [reborrow, Frame.of, Frame.Runs, Scope.steps, Scope.numbered, Run.next, Run.idle,
      Names.lend, Names.use, Names.assign, Names.find?, Lowering.useKind, Demand.role, Memory.step,
      Memory.held, before, p]
  have hused : p ∈ Step.uses (Memory.after [] (before ++ [.assign 0 ∅ ⟨0, 30, 31⟩]))
      (.use 2 .read .synthetic) := by
    simp [before, Step.uses, Memory.step, Memory.held]
  exact ⟨hshows, hrun, hused,
    reborrow.checkOwnership_protects (.refl _) hshows hrun (p := p) rfl hused List.not_mem_nil⟩

/-- A function that borrows once more when it has a reference to its local, and changes the local before
it uses what it has borrowed: `fn borrowAgain() { let x = 1; let r = &mut x; let o = &r; x := 2; **o }`. -/
def borrowAgain (target read : Expr) : Decl :=
  let name := Name.mk .synthetic
  let var := Expr.var .synthetic
  .fn ⟨.synthetic, name "borrowAgain", [], none, none,
    .letIn .synthetic (name "x") none (.lit .synthetic (.int 1))
      (.letIn .synthetic (name "r") none (.borrow .synthetic true (var "x"))
        (.letIn .synthetic (name "o") none (.borrow .synthetic false target)
          (.seq .synthetic [.assign .synthetic (.var ⟨0, 30, 31⟩ "x") (.lit .synthetic (.int 2)),
            read])))⟩

/-- What the reference refers to stays borrowed if that is borrowed, but not if the reference itself is:
its loans do not get into what is borrowed of it. -/
theorem borrowAgain_reference :
    let var := Expr.var .synthetic
    let deref := Expr.deref .synthetic
    (∃ f, (borrowAgain (deref (var "r")) (deref (var "o"))).function? = some f ∧
      ∃ d ∈ f.checkOwnership.2, d.category = .conflictingBorrow ∧ d.location = some ⟨0, 30, 31⟩) ∧
    ∃ f, (borrowAgain (var "r") (deref (deref (var "o")))).function? = some f ∧
      f.checkOwnership.2 = [] :=
  ⟨⟨Option.get _ (by decide +kernel), (Option.some_get _).symm, by decide +kernel⟩,
    Option.get _ (by decide +kernel), (Option.some_get _).symm, by decide +kernel⟩

/-- What is assigned to a local is protected as long as the local is used: if something is done to what a
pointer in the value points to, and the local is used later, that is reported. -/
theorem TFunction.checkOwnership_transfers (f : TFunction) {g : Frame} {holds : Ty → Prop}
    {p : Pointer} {place : Nat} {R : Set Pointer} {kind : UseKind} {target span : Span} {a : Step}
    {before mid between later : List Step} (hg : (Frame.of [] f.body).Reaches g)
    (hshows : ∀ n ∈ g.body.nodes, n.ShowsReferences holds)
    (hrun : g.Runs holds (before ++ .assign place R target ::
      (mid ++ a :: (between ++ .use place kind span :: later))))
    (hp : p ∈ R) (ha : a.Disturbs p) (hlend : .lend p ∉ between) :
    ∃ d ∈ f.checkOwnership.2, d.category = .conflictingBorrow ∧ d.location = a.position := by
  obtain ⟨flow, ν, t, hexcludes, hν, hexecutes⟩ := f.exists_executes hg hshows hrun
  obtain ⟨-, -, -, -, -, -, ⟨-, i, hi, -, hheld⟩, -⟩ := hexecutes.path nofun
  obtain ⟨loan, hl, hloan⟩ := hheld p hp
  have hsteps : before ++ .assign place R target ::
      (mid ++ a :: (between ++ .use place kind span :: later)) =
      (before ++ .assign place R target :: mid) ++ a :: (between ++ .use place kind span :: later) := by
    simp
  rw [hsteps] at hexecutes
  refine hexcludes.told hν hexecutes ha nofun (fun point hused => ⟨loan, ?_, hloan⟩) hlend
  obtain ⟨-, j, hj, hevent, -⟩ := hused
  obtain rfl : i = j := Option.some.inj (hi.symm.trans hj)
  rw [Flow.usesAt, hevent]
  exact hl

/-- A function that puts another borrow into a local, and changes what is borrowed before it uses the
local: `fn redirect() { let a = 1; let b = 2; let x = &a; x := &b; b := 3; *x }`. -/
def redirect : TFunction :=
  let info := fun t => Info.mk .synthetic t .pure none
  let word := Ty.prim .s32
  let shared := Ty.ref .shared word
  ⟨"redirect", .synthetic, word, .pure,
    .letIn (info word) ⟨"a", .synthetic, word, none⟩ (.lit (info word) (.int 1))
      (.letIn (info word) ⟨"b", .synthetic, word, none⟩ (.lit (info word) (.int 2))
        (.letIn (info word) ⟨"x", .synthetic, shared, none⟩
          (.borrow (info shared) .shared (.var (info word) "a"))
          (.seq (info word) [.assign (info .unit) (.var (info shared) "x")
              (.borrow (info shared) .shared (.var (info word) "b")),
            .assign (info .unit) (.var ⟨⟨0, 50, 51⟩, word, .pure, none⟩ "b") (.lit (info word) (.int 3)),
            .deref (info word) (.var (info shared) "x")])))⟩

theorem redirect_transfers :
    let p : Pointer := ⟨1, .shared, .synthetic⟩
    let before := [.define (.prim .s32) ∅, .define (.prim .s32) ∅, .lend ⟨0, .shared, .synthetic⟩,
      .define (.ref .shared (.prim .s32)) {⟨0, .shared, .synthetic⟩}, .lend p]
    (∀ n ∈ (Frame.of [] redirect.body).body.nodes, n.ShowsReferences (·.carriesLoans = true)) ∧
    (Frame.of [] redirect.body).Runs (·.carriesLoans = true)
      (before ++ [.assign 2 {p} .synthetic, .assign 1 ∅ ⟨0, 50, 51⟩, .use 2 .read .synthetic]) ∧
    ∃ d ∈ redirect.checkOwnership.2, d.category = .conflictingBorrow ∧
      d.location = some ⟨0, 50, 51⟩ := by
  intro p before
  have hshows : ∀ n ∈ (Frame.of [] redirect.body).body.nodes,
      n.ShowsReferences (·.carriesLoans = true) := by
    simp [redirect, Frame.of, TExpr.nodes, TExpr.nodesList, TExpr.ShowsReferences, Ty.carriesLoans]
  have hrun : (Frame.of [] redirect.body).Runs (·.carriesLoans = true)
      (before ++ .assign 2 {p} .synthetic ::
        ([] ++ .assign 1 ∅ ⟨0, 50, 51⟩ :: ([] ++ .use 2 .read .synthetic :: []))) := by
    simp [redirect, Frame.of, Frame.Runs, Scope.steps, Scope.numbered, Run.next, Run.idle,
      Names.lend, Names.use, Names.assign, Names.find?, Lowering.useKind, Demand.role, Memory.step,
      Memory.held, before, p]
  exact ⟨hshows, hrun, redirect.checkOwnership_transfers (.refl _) hshows hrun
    (Set.mem_singleton p) rfl List.not_mem_nil⟩

/-- A function that puts another borrow into a local that it has a reference to, and changes what is
borrowed before it uses the local: `fn store() { let a = 1; let b = 2; let x = &a; let r = &mut x;
*r := &b; b := 3; *x }`. -/
def store (target : Expr) : Decl :=
  let name := Name.mk .synthetic
  let var := Expr.var .synthetic
  .fn ⟨.synthetic, name "store", [], none, none,
    .letIn .synthetic (name "a") none (.lit .synthetic (.int 1))
      (.letIn .synthetic (name "b") none (.lit .synthetic (.int 2))
        (.letIn .synthetic (name "x") none (.borrow .synthetic false (var "a"))
          (.letIn .synthetic (name "r") none (.borrow .synthetic true (var "x"))
            (.seq .synthetic [.assign .synthetic target (.borrow .synthetic false (var "b")),
              .assign .synthetic (.var ⟨0, 50, 51⟩ "b") (.lit .synthetic (.int 3)),
              .deref .synthetic (var "x")]))))⟩

/-- The local holds what is assigned to it, but not what is assigned through the reference. -/
theorem store_reference :
    (∃ f, (store (.var .synthetic "x")).function? = some f ∧
      ∃ d ∈ f.checkOwnership.2, d.category = .conflictingBorrow ∧ d.location = some ⟨0, 50, 51⟩) ∧
    ∃ f, (store (.deref .synthetic (.var .synthetic "r"))).function? = some f ∧
      f.checkOwnership.2 = [] :=
  ⟨⟨Option.get _ (by decide +kernel), (Option.some_get _).symm, by decide +kernel⟩,
    Option.get _ (by decide +kernel), (Option.some_get _).symm, by decide +kernel⟩

end RowCheck
