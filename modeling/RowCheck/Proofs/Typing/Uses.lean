import RowCheck.Proofs.Typing.Group

/-!
The uses of a local name. All uses of a name that stands for a value of one type have that type, be
they reads or targets of assignments; this is so for each `let` whose value had to be evaluated. The
names of other `let`s are used at types of their own, and nothing keeps these together: not that the
name is assigned to, and not that its type is found out later.
-/
namespace RowCheck

namespace TExpr

mutual

/-- All nodes of an expression, outer ones before those within them. -/
def nodes : TExpr → List TExpr
  | lit i v => [lit i v]
  | var i x => [var i x]
  | failed i => [failed i]
  | call i f a => call i f a :: (f.nodes ++ a.nodes)
  | lam i b e => lam i b e :: e.nodes
  | letIn i b v e => letIn i b v e :: (v.nodes ++ e.nodes)
  | seq i items => seq i items :: nodesList items
  | tuple i items => tuple i items :: nodesList items
  | construct i t v args => construct i t v args :: nodesList args
  | cond i c t e => cond i c t e :: (c.nodes ++ t.nodes ++ e.nodes)
  | matchOn i s arms tree => matchOn i s arms tree :: (s.nodes ++ nodesArms arms)
  | binary i op a b => binary i op a b :: (a.nodes ++ b.nodes)
  | unary i op a => unary i op a :: a.nodes
  | borrow i k a => borrow i k a :: a.nodes
  | deref i a => deref i a :: a.nodes
  | assign i a b => assign i a b :: (a.nodes ++ b.nodes)

def nodesList : List TExpr → List TExpr
  | [] => []
  | e :: es => e.nodes ++ nodesList es

def nodesArm : TArm → List TExpr
  | .mk _ (some g) b => g.nodes ++ b.nodes
  | .mk _ none b => b.nodes

def nodesArms : List TArm → List TExpr
  | [] => []
  | a :: as => nodesArm a ++ nodesArms as

end

theorem nodesList_eq (es : List TExpr) : nodesList es = es.flatMap nodes := by
  induction es with
  | nil => rfl
  | cons e es ih => simp [nodesList, ih]

theorem nodesArms_eq (as : List TArm) :
    nodesArms as = as.flatMap fun a => a.parts.flatMap nodes := by
  induction as with
  | nil => rfl
  | cons a as ih =>
    obtain ⟨p, g, b⟩ := a
    cases g <;> simp [nodesArms, nodesArm, TArm.parts, ih]

mutual

/-- The types at which an expression uses a name from around it. -/
def uses (x : String) : TExpr → List Ty
  | lit .. | failed _ => []
  | var i y => if y = x then [i.ty] else []
  | call _ f a => f.uses x ++ a.uses x
  | lam _ b e => if b.name = x then [] else e.uses x
  | letIn _ b v e => v.uses x ++ if b.name = x then [] else e.uses x
  | seq _ items | tuple _ items => usesList x items
  | construct _ _ _ args => usesList x args
  | cond _ c t e => c.uses x ++ t.uses x ++ e.uses x
  | matchOn _ s arms _ => s.uses x ++ usesArms x arms
  | binary _ _ a b => a.uses x ++ b.uses x
  | unary _ _ a => a.uses x
  | borrow _ _ a => a.uses x
  | deref _ a => a.uses x
  | assign _ a b => a.uses x ++ b.uses x

def usesList (x : String) : List TExpr → List Ty
  | [] => []
  | e :: es => e.uses x ++ usesList x es

def usesArm (x : String) : TArm → List Ty
  | .mk p (some g) b => if x ∈ p.bindings.map (·.1) then [] else g.uses x ++ b.uses x
  | .mk p none b => if x ∈ p.bindings.map (·.1) then [] else b.uses x

def usesArms (x : String) : List TArm → List Ty
  | [] => []
  | a :: as => usesArm x a ++ usesArms x as

end

theorem usesList_eq (x : String) (es : List TExpr) : usesList x es = es.flatMap (uses x) := by
  induction es with
  | nil => rfl
  | cons e es ih => simp [usesList, ih]

theorem usesArms_eq (x : String) (as : List TArm) : usesArms x as =
    as.flatMap fun a => if x ∈ a.pattern.bindings.map (·.1) then [] else
      a.parts.flatMap (uses x) := by
  induction as with
  | nil => rfl
  | cons a as ih =>
    obtain ⟨p, g, b⟩ := a
    rw [usesArms, ih, List.flatMap_cons]
    refine congrArg (· ++ _) ?_
    by_cases hx : x ∈ p.bindings.map (·.1) <;> cases g <;>
      simp [usesArm, TArm.parts, TArm.pattern, hx]

/-- Each `let` of an expression: the type of its name, and those at which its body uses the name. -/
def letUses (e : TExpr) : List (Ty × List Ty) :=
  e.nodes.filterMap fun
    | letIn _ b _ body => some (b.ty, body.uses b.name)
    | _ => none

end TExpr

theorem TArm.mem_parts {a : TArm} {e : TExpr} : e ∈ a.parts ↔ e ∈ a.guard ∨ e = a.body := by
  obtain ⟨p, g, b⟩ := a
  cases g <;> simp [parts, guard, body, eq_comm]

theorem Context.lookup_bindNames {Γ : Context} {x : String} {names : List (String × Ty × Span)}
    (hx : x ∉ names.map (·.1)) : (Γ.bindNames names).lookup x = Γ.lookup x := by
  induction names generalizing Γ with
  | nil => rfl
  | cons n names ih =>
    rw [List.map_cons, List.mem_cons, not_or] at hx
    refine (ih hx.2).trans ?_
    rw [List.lookup_cons, beq_eq_false_iff_ne.2 hx.1]

namespace TExpr

variable {P : TExpr → Prop} {Q : Ty → Prop} {x : String}

theorem forall_nodesList {es : List TExpr} (h : ∀ e ∈ es, ∀ n ∈ e.nodes, P n) :
    ∀ n ∈ nodesList es, P n := by
  intro n hn
  rw [nodesList_eq] at hn
  obtain ⟨e, he, hn⟩ := List.mem_flatMap.1 hn
  exact h e he n hn

theorem forall_nodesArms {as : List TArm} (hg : ∀ a ∈ as, ∀ g ∈ a.guard, ∀ n ∈ g.nodes, P n)
    (hb : ∀ a ∈ as, ∀ n ∈ a.body.nodes, P n) : ∀ n ∈ nodesArms as, P n := by
  intro n hn
  rw [nodesArms_eq] at hn
  obtain ⟨a, ha, hn⟩ := List.mem_flatMap.1 hn
  obtain ⟨e, he, hn⟩ := List.mem_flatMap.1 hn
  rcases TArm.mem_parts.1 he with he | rfl
  · exact hg a ha e he n hn
  · exact hb a ha n hn

theorem forall_usesList {es : List TExpr} (h : ∀ e ∈ es, ∀ s ∈ e.uses x, Q s) :
    ∀ s ∈ usesList x es, Q s := by
  intro s hs
  rw [usesList_eq] at hs
  obtain ⟨e, he, hs⟩ := List.mem_flatMap.1 hs
  exact h e he s hs

theorem forall_usesArms {as : List TArm}
    (hg : ∀ a ∈ as, x ∉ a.pattern.bindings.map (·.1) → ∀ g ∈ a.guard, ∀ s ∈ g.uses x, Q s)
    (hb : ∀ a ∈ as, x ∉ a.pattern.bindings.map (·.1) → ∀ s ∈ a.body.uses x, Q s) :
    ∀ s ∈ usesArms x as, Q s := by
  intro s hs
  rw [usesArms_eq] at hs
  obtain ⟨a, ha, hs⟩ := List.mem_flatMap.1 hs
  by_cases hx : x ∈ a.pattern.bindings.map (·.1)
  · simp [hx] at hs
  · rw [if_neg hx] at hs
    obtain ⟨e, he, hs⟩ := List.mem_flatMap.1 hs
    rcases TArm.mem_parts.1 he with he | rfl
    · exact hg a ha hx e he s hs
    · exact hb a ha hx s hs

end TExpr

namespace Typed

variable {r : Registries} {outer : TypeEnv} {Γ : Context}

theorem nodes_of_inner {e : TExpr} {inner : List TExpr} (he : e.nodes = e :: inner)
    (h : Typed r outer Γ e) (hi : ∀ n ∈ inner, ∃ Γ', Typed r outer Γ' n) :
    ∀ n ∈ e.nodes, ∃ Γ', Typed r outer Γ' n := by
  rw [he]
  simp only [List.mem_cons, forall_eq_or_imp]
  exact ⟨⟨Γ, h⟩, hi⟩

/-- Every node of a well typed expression is well typed where it stands. -/
theorem nodes {e : TExpr} (h : Typed r outer Γ e) :
    ∀ n ∈ e.nodes, ∃ Γ', Typed r outer Γ' n := by
  induction h with
  | @lit Γ i value h => exact nodes_of_inner rfl (.lit (Γ := Γ) h) (List.forall_mem_nil _)
  | plain h => exact nodes_of_inner rfl (.plain h) (List.forall_mem_nil _)
  | general h => exact nodes_of_inner rfl (.general h) (List.forall_mem_nil _)
  | outer h hs hi => exact nodes_of_inner rfl (.outer h hs hi) (List.forall_mem_nil _)
  | call h hf ha ihf iha =>
    exact nodes_of_inner rfl (.call h hf ha) (List.forall_mem_append.2 ⟨ihf, iha⟩)
  | lam h hb ih => exact nodes_of_inner rfl (.lam h hb) ih
  | thunk hn hs ht h hb ih => exact nodes_of_inner rfl (.thunk hn hs ht h hb) ih
  | letPlain h h' hv hb ihv ihb =>
    exact nodes_of_inner rfl (.letPlain h h' hv hb) (List.forall_mem_append.2 ⟨ihv, ihb⟩)
  | letGeneral hval h h' hv hb ihv ihb =>
    exact nodes_of_inner rfl (.letGeneral hval h h' hv hb) (List.forall_mem_append.2 ⟨ihv, ihb⟩)
  | seq h hi ih => exact nodes_of_inner rfl (.seq h hi) (TExpr.forall_nodesList ih)
  | cond h h' h'' hc ht he ihc iht ihe =>
    exact nodes_of_inner rfl (.cond h h' h'' hc ht he)
      (List.forall_mem_append.2 ⟨List.forall_mem_append.2 ⟨ihc, iht⟩, ihe⟩)
  | matchOn hs hp hg hgt hb hbt ihs ihg ihb =>
    exact nodes_of_inner rfl (.matchOn hs hp hg hgt hb hbt)
      (List.forall_mem_append.2 ⟨ihs, TExpr.forall_nodesArms ihg ihb⟩)
  | tuple h hi ih => exact nodes_of_inner rfl (.tuple h hi) (TExpr.forall_nodesList ih)
  | construct h hd hv hl ha hi ih =>
    exact nodes_of_inner rfl (.construct h hd hv hl ha hi) (TExpr.forall_nodesList ih)
  | binary h ha hb iha ihb =>
    exact nodes_of_inner rfl (.binary h ha hb) (List.forall_mem_append.2 ⟨iha, ihb⟩)
  | unary h ha ih => exact nodes_of_inner rfl (.unary h ha) ih
  | borrow h ha ih => exact nodes_of_inner rfl (.borrow h ha) ih
  | deref h ha ih => exact nodes_of_inner rfl (.deref h ha) ih
  | assign h h' ha hb iha ihb =>
    exact nodes_of_inner rfl (.assign h h' ha hb) (List.forall_mem_append.2 ⟨iha, ihb⟩)

/-- A name that stands for a value of one type is used at that type only. -/
theorem uses_plain {e : TExpr} (h : Typed r outer Γ e) {x : String} {t : Ty}
    (hx : Γ.lookup x = some (.plain t)) : ∀ s ∈ e.uses x, s = t := by
  -- a binder of another name leaves the name as it is, and one of the same name hides it
  have under : ∀ {Γ : Context} {b : Binder} {entry : Entry} {e : TExpr},
      Γ.lookup x = some (.plain t) →
      (List.lookup x ((b.name, entry) :: Γ) = some (.plain t) → ∀ s ∈ e.uses x, s = t) →
      ∀ s ∈ if b.name = x then [] else e.uses x, s = t := by
    intro Γ b entry e hx h
    split
    · nofun
    · refine h ?_
      rw [List.lookup_cons, beq_eq_false_iff_ne.2 (Ne.symm ‹_›)]
      exact hx
  induction h with
  | lit => nofun
  | @plain Γ i y hy | @general Γ i y hy | @outer Γ i y _ hy =>
    intro s hs
    rw [TExpr.uses] at hs
    split at hs
    · rename_i hyx
      subst hyx
      rw [hy] at hx
      cases hx <;> simp_all
    · cases hs
  | call _ _ _ ihf iha => exact List.forall_mem_append.2 ⟨ihf hx, iha hx⟩
  | lam _ _ ih => exact under hx ih
  | thunk _ _ _ _ _ ih => exact @under _ _ .general _ hx fun _ => ih hx
  | letPlain _ _ _ _ ihv ihb => exact List.forall_mem_append.2 ⟨ihv hx, under hx ihb⟩
  | letGeneral _ _ _ _ _ ihv ihb => exact List.forall_mem_append.2 ⟨ihv hx, under hx ihb⟩
  | seq _ _ ih => exact TExpr.forall_usesList fun e he => ih e he hx
  | cond _ _ _ _ _ _ ihc iht ihe =>
    exact List.forall_mem_append.2 ⟨List.forall_mem_append.2 ⟨ihc hx, iht hx⟩, ihe hx⟩
  | matchOn _ _ _ _ _ _ ihs ihg ihb =>
    refine List.forall_mem_append.2 ⟨ihs hx, TExpr.forall_usesArms ?_ ?_⟩
    · exact fun a ha hn g hg => ihg a ha g hg ((Context.lookup_bindNames hn).trans hx)
    · exact fun a ha hn => ihb a ha ((Context.lookup_bindNames hn).trans hx)
  | tuple _ _ ih => exact TExpr.forall_usesList fun e he => ih e he hx
  | construct _ _ _ _ _ _ ih => exact TExpr.forall_usesList fun e he => ih e he hx
  | binary _ _ _ iha ihb => exact List.forall_mem_append.2 ⟨iha hx, ihb hx⟩
  | unary _ _ ih => exact ih hx
  | borrow _ _ ih => exact ih hx
  | deref _ _ ih => exact ih hx
  | assign _ _ _ _ iha ihb => exact List.forall_mem_append.2 ⟨iha hx, ihb hx⟩

end Typed

/-- The name of a `let` whose value had to be evaluated is used at the type of the value only. -/
theorem Typed.uses_letIn {r : Registries} {outer : TypeEnv} {Γ : Context} {e : TExpr}
    (h : Typed r outer Γ e) {i : Info} {b : Binder} {v body : TExpr}
    (hmem : .letIn i b v body ∈ e.nodes) (hv : v.isValue = false) :
    ∀ t ∈ body.uses b.name, t = b.ty := by
  obtain ⟨Γ', hlet⟩ := h.nodes _ hmem
  cases hlet with
  | letPlain _ _ _ hbody => exact hbody.uses_plain (List.lookup_cons_self ..)
  | letGeneral hval => exact absurd (hval.symm.trans hv) nofun

/-- In a group that is accepted, the names of such `let`s have one type, also where they are assigned
to. -/
theorem checkGroup_letUses {r : Registries} (hr : r.Defined) (hfree : r.ErrorFree) {env : TypeEnv}
    (henv : env.Below 0) (hproper : env.Proper) (tracing : Bool) {decls : List Decl}
    (h : (checkGroup r env tracing decls).diagnostics = []) :
    ∀ f ∈ (checkGroup r env tracing decls).decls.filterMap TDecl.function?,
      ∀ i b v body, .letIn i b v body ∈ f.body.nodes → v.isValue = false →
        ∀ t ∈ body.uses b.name, t = b.ty := by
  obtain ⟨v, ps, ks, hv, he, -, hdecls, hks⟩ := checkGroup_knows hr hfree henv hproper tracing h
  intro f hf i b value body hmem hval
  rw [hdecls, List.mem_filterMap] at hf
  obtain ⟨t, ht, hf⟩ := hf
  obtain ⟨k, hk, rfl⟩ := List.mem_map.1 ht
  rw [Checker.Checked.function?_settle, Option.some.injEq] at hf
  subst hf
  obtain ⟨p, hp⟩ := Checker.knows_of_mem hks k hk
  exact (hp.body.typed.here hv he).uses_letIn hmem hval

/-- The types of the `let`s in a group that consists of one declaration, each with those of its uses;
none if anything is at fault. -/
def Decl.letUses (d : Decl) : Option (List (Ty × List Ty)) :=
  let result := checkGroup (Module.registries [d]).1 (.ofGlobals ∅) false [d]
  if result.diagnostics.isEmpty then
    some ((result.decls.filterMap TDecl.function?).flatMap (·.body.letUses))
  else none

/-- A function that assigns to a name with a general type:
`fn hole() { let f = fn(x) { x }; f := fn(n) { n + 1 }; f(true) }`. -/
def hole : Decl :=
  let name := Name.mk .synthetic
  let var := Expr.var .synthetic
  .fn ⟨.synthetic, name "hole", [], none, none,
    .letIn .synthetic (name "f") none (.lam .synthetic [⟨name "x", none⟩] (var "x"))
      (.seq .synthetic
        [.assign .synthetic (var "f") (.lam .synthetic [⟨name "n", none⟩]
          (.binary .synthetic .add .synthetic (var "n") (.lit .synthetic (.int 1)))),
        .call .synthetic (var "f") [.lit .synthetic (.bool true)]])⟩

/-- The value that is a lambda need not be evaluated. The name is assigned to at one type, and then
read at another. -/
theorem hole_letUses : hole.letUses = some [(.fn (.var 1) (.var 1) (.ofVar 5),
    [.fn .s32 .s32 (.ofVar 5), .fn .bool .bool (.ofVar 5)])] := by decide +kernel

/-- A function in which a written type variable is found to be a type after a `let` has quantified it:
`fn fixed() { let id: 'a -> 'a = fn(x) { x }; let y: 'a = 1; id(true) }`. -/
def fixed : Decl :=
  let name := Name.mk .synthetic
  let a := TypeExpr.var .synthetic "a"
  .fn ⟨.synthetic, name "fixed", [], none, none,
    .letIn .synthetic (name "id") (some (.fn .synthetic a a none))
      (.lam .synthetic [⟨name "x", none⟩] (.var .synthetic "x"))
      (.letIn .synthetic (name "y") (some a) (.lit .synthetic (.int 1))
        (.call .synthetic (.var .synthetic "id") [.lit .synthetic (.bool true)]))⟩

/-- The use is no instance of what the type of the name turns out to be. -/
theorem fixed_letUses : fixed.letUses = some [(.fn .s32 .s32 .pure, [.fn .bool .bool .pure]),
    (.s32, [])] := by decide +kernel

end RowCheck
