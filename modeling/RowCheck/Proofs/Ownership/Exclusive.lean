import RowCheck.Proofs.Ownership.Visits

/-!
Exclusive access. What a loan forbids is reported wherever it is done, in whatever activation: if an
access to a local would disturb a loan of it that is needed later, a conflict is told of at the access.
But only the borrow of a name makes a loan. A reference that is derived from another one carries the
loans of that one, and nothing tells the two apart.
-/
namespace RowCheck

/-- Whether every access that would disturb a loan which is needed later is among some faults. -/
def Flow.ExcludesIn (flow : Flow) (faults : List Diagnostic) : Prop :=
  ∀ i p loan, flow.points[i]? = some p → flow.Disturbs p.event loan → flow.Needs loan i →
    ∃ d ∈ faults, d.category = .conflictingBorrow ∧ d.location = some p.span

/-- Access to a local is exclusive while a unique loan of it is needed, and so is a change of it while
any loan is: whatever is done against that in an activation that comes to be created is reported. -/
theorem TFunction.checkOwnership_excludes (f : TFunction) {g : Frame}
    (hg : (Frame.of [] f.body).Reaches g) :
    ∃ flow, g.Flows flow ∧ flow.ExcludesIn f.checkOwnership.2 := by
  obtain ⟨s, hs, hfaults⟩ := f.exists_entered hg
  obtain ⟨⟨ν, hstands⟩, -⟩ := hs.stands
  have hforward := ((Lowering.blamed g.body).walks .value hstands).led.forward
  refine ⟨_, ⟨s, hs, rfl⟩, fun i p loan hp hdisturbs hneeds => ?_⟩
  obtain ⟨d, hd, other, htells⟩ := hforward.tells_of_disturbs hp hdisturbs hneeds
  obtain ⟨e, he, hcategory, -, hlocation⟩ :=
    Lowering.close_shows (Lowering.lower .value g.body s).1 g.body.span hd
  exact ⟨e, hfaults he, hcategory.trans htells.category, hlocation.trans htells.location⟩

/-- A function that borrows something twice for itself, and uses both references:
`fn lendTwice(p: t) { let a = &mut target; let b = &mut target; *b := 1; *a }`. -/
def lendTwice (t : TypeExpr) (target : Expr) : Decl :=
  let name := Name.mk .synthetic
  let deref := fun x => Expr.deref .synthetic (.var .synthetic x)
  .fn ⟨.synthetic, name "lendTwice", [⟨name "p", some t⟩], none, none,
    .letIn .synthetic (name "a") none (.borrow ⟨0, 14, 15⟩ true target)
      (.letIn .synthetic (name "b") none (.borrow ⟨0, 24, 25⟩ true target)
        (.seq .synthetic [.assign .synthetic (deref "b") (.lit .synthetic (.int 1)), deref "a"]))⟩

theorem lendTwice_excludes : ∃ f,
    (lendTwice (.named .synthetic "s32" []) (.var .synthetic "p")).function? = some f ∧
    (∃ d ∈ f.checkOwnership.2, d.category = .conflictingBorrow ∧ d.location = some ⟨0, 24, 25⟩) ∧
    ∃ flow, (Frame.of [] f.body).Flows flow ∧ flow.ExcludesIn f.checkOwnership.2 := by
  obtain ⟨f, hf⟩ : ∃ f,
      (lendTwice (.named .synthetic "s32" []) (.var .synthetic "p")).function? = some f :=
    Option.isSome_iff_exists.1 (by decide +kernel)
  have htold : ∀ f ∈ (lendTwice (.named .synthetic "s32" []) (.var .synthetic "p")).function?,
      ∃ d ∈ f.checkOwnership.2, d.category = .conflictingBorrow ∧ d.location = some ⟨0, 24, 25⟩ := by
    decide +kernel
  exact ⟨f, hf, htold f hf, f.checkOwnership_excludes (.refl _)⟩

/-- If it is the target of a reference that is borrowed, no loan is made, and nothing is found. -/
theorem lendTwice_reborrowed : ∃ f,
    (lendTwice (.ref .synthetic true (.named .synthetic "s32" []))
      (.deref .synthetic (.var .synthetic "p"))).function? = some f ∧ f.checkOwnership.2 = [] :=
  ⟨Option.get _ (by decide +kernel), (Option.some_get _).symm, by decide +kernel⟩

end RowCheck
