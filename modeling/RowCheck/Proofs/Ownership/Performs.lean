import RowCheck.Proofs.Ownership.Pointers
import RowCheck.Proofs.Ownership.References

/-!
Flows against the runs of an activation. A path through the flow performs the steps of a run, one point
for each step but for calls that are given nothing. On the way each local holds loans for the pointers
in its value. So a loan is needed where a pointer is disturbed that is used later.
-/
namespace RowCheck

theorem getElem?_of_prefix {α : Type} {l l' : List α} (h : l <+: l') {i : Nat} {x : α}
    (hx : l[i]? = some x) : l'[i]? = some x := by
  obtain ⟨hi, rfl⟩ := List.getElem?_eq_some_iff.1 hx
  exact List.prefix_iff_getElem?.1 h i hi

namespace Flow

variable {f f' : Flow} {ν ν' : List Nat} {p q : Pointer} {loan i : Nat} {L L' : Loans}
  {R R' : Set Pointer} {μ : Memory} {point : FlowPoint} {a b u : Step}
  {S before between later : List Step} {t : List Nat}

/-- Whether a loan stands for a pointer, where the locals have some numbers, in the order in which they
are made. -/
def IsLoan (f : Flow) (ν : List Nat) (p : Pointer) (loan : Nat) : Prop :=
  ∃ i, ν[p.place]? = some i ∧ f.loans[loan]? = some ⟨i, p.kind, p.span⟩

/-- Whether there is a loan for each of some pointers. -/
def Carries (f : Flow) (ν : List Nat) (L : Loans) (R : Set Pointer) : Prop :=
  ∀ p ∈ R, ∃ loan ∈ L, f.IsLoan ν p loan

/-- What happens at a point when a step is taken. -/
def Performs (f : Flow) (ν : List Nat) (μ : Memory) (point : FlowPoint) : Step → Prop
  | .define .. => ∃ i, point.event = .define i
  | .assign place R span => point.span = span ∧ ∃ i, ν[place]? = some i ∧
      point.event = .assign i ∧ f.Carries ν (f.holding i) R
  | .use place kind span => point.span = span ∧ ∃ i, ν[place]? = some i ∧
      point.event = .use i kind ∧ f.Carries ν (f.holding i) (μ.held place)
  | .lend p => point.span = p.span ∧ ∃ loan, f.IsLoan ν p loan ∧ point.event = .borrow loan
  | .pass R => ∃ L, point.event = .consume L ∧ f.Carries ν L R

/-- Whether a path from the start of a flow performs some steps. -/
inductive Executes (f : Flow) (ν : List Nat) : List Nat → List Step → Prop
  | nil : Executes f ν [] []
  | point {t : List Nat} {S : List Step} {i : Nat} {point : FlowPoint} {a : Step} : Executes f ν t S →
      (∀ j ∈ t.getLast?, j ∈ point.before) → f.points[i]? = some point →
      f.Performs ν (Memory.after [] S) point a → Executes f ν (t ++ [i]) (S ++ [a])
  | idle {t : List Nat} {S : List Step} : Executes f ν t S → Executes f ν t (S ++ [.pass ∅])

/-! ## Later flows -/

/-- A flow in which more is known. -/
structure Gains (f f' : Flow) (ν ν' : List Nat) : Prop where
  flow : f.Extends f'
  holdings : ∀ i, ∀ loan ∈ f.holding i, loan ∈ f'.holding i
  places : ν <+: ν'

theorem IsLoan.gains (h : f.IsLoan ν p loan) (hf : f.Gains f' ν ν') : f'.IsLoan ν' p loan := by
  obtain ⟨i, hi, hl⟩ := h
  exact ⟨i, getElem?_of_prefix hf.places hi, getElem?_of_begins hf.flow.loans hl⟩

theorem Carries.gains (h : f.Carries ν L R) (hf : f.Gains f' ν ν') : f'.Carries ν' L R :=
  fun p hp => (h p hp).imp fun _ => And.imp_right (·.gains hf)

theorem carries_empty (L : Loans) : f.Carries ν L ∅ := nofun

theorem Carries.mono (h : f.Carries ν L R) (hL : ∀ loan ∈ L, loan ∈ L') (hR : R' ⊆ R) :
    f.Carries ν L' R' := fun p hp => by
  obtain ⟨loan, hl, hloan⟩ := h p (hR hp)
  exact ⟨loan, hL loan hl, hloan⟩

theorem Carries.union (h : f.Carries ν L R) (h' : f.Carries ν L' R') :
    f.Carries ν (L.union L') (R ∪ R') := by
  rintro p (hp | hp)
  · exact h.mono (fun _ hl => SortedSet.mem_union.2 (.inl hl)) subset_rfl p hp
  · exact h'.mono (fun _ hl => SortedSet.mem_union.2 (.inr hl)) subset_rfl p hp

theorem Performs.gains (h : f.Performs ν μ point a) (hf : f.Gains f' ν ν') :
    f'.Performs ν' μ point a := by
  cases a with
  | define => exact h
  | assign | use =>
    obtain ⟨hspan, i, hi, hevent, hheld⟩ := h
    exact ⟨hspan, i, getElem?_of_prefix hf.places hi, hevent,
      (hheld.gains hf).mono (hf.holdings i) subset_rfl⟩
  | lend =>
    obtain ⟨hspan, loan, hloan, hevent⟩ := h
    exact ⟨hspan, loan, hloan.gains hf, hevent⟩
  | pass =>
    obtain ⟨L, hevent, hheld⟩ := h
    exact ⟨L, hevent, hheld.gains hf⟩

theorem Executes.gains (h : f.Executes ν t S) (hf : f.Gains f' ν ν') : f'.Executes ν' t S := by
  induction h with
  | nil => exact .nil
  | point _ hbefore hpoint hperforms ih =>
    exact .point ih hbefore (getElem?_of_begins hf.flow.points hpoint) (hperforms.gains hf)
  | idle _ ih => exact .idle ih

/-! ## Disturbed pointers -/

/-- A loan stands for one pointer only. -/
theorem IsLoan.eq (hν : ν.Nodup) (hp : f.IsLoan ν p loan) (hq : f.IsLoan ν q loan) : p = q := by
  obtain ⟨i, hi, hl⟩ := hp
  obtain ⟨j, hj, hl'⟩ := hq
  obtain ⟨rfl, hkind, hspan⟩ := Loan.mk.inj (Option.some.inj (hl.symm.trans hl'))
  have hplace := (List.getElem?_inj (List.getElem?_eq_some_iff.1 hi).1 hν).1 (hi.trans hj.symm)
  obtain ⟨place, kind, span⟩ := p
  obtain ⟨place', kind', span'⟩ := q
  simp only at hplace hkind hspan
  rw [hplace, hkind, hspan]

/-- The last step of a run is performed at the last point of its path, or is a call that is given
nothing. -/
theorem Executes.last (h : f.Executes ν t (S ++ [a])) :
    (∃ t' i point, t = t' ++ [i] ∧ f.Executes ν t' S ∧ (∀ j ∈ t'.getLast?, j ∈ point.before) ∧
      f.points[i]? = some point ∧ f.Performs ν (Memory.after [] S) point a) ∨
    a = .pass ∅ ∧ f.Executes ν t S := by
  generalize hS : S ++ [a] = steps at h
  cases h with
  | nil => exact absurd hS (by simp)
  | @point t' S' i point a' h hbefore hpoint hperforms =>
    obtain ⟨rfl, ha⟩ := List.append_inj' hS rfl
    obtain rfl : a = a' := by simpa using ha
    exact .inl ⟨t', i, point, rfl, h, hbefore, hpoint, hperforms⟩
  | idle h =>
    obtain ⟨rfl, ha⟩ := List.append_inj' hS rfl
    exact .inr ⟨by simpa using ha, h⟩

theorem Executes.prefix (h : f.Executes ν t (S ++ later)) : ∃ t', f.Executes ν t' S := by
  induction later using List.reverseRecOn generalizing t with
  | nil => exact ⟨t, by simpa using h⟩
  | append_singleton later a ih =>
    rw [← List.append_assoc] at h
    obtain ⟨t', i, point, -, h, -⟩ | ⟨-, h⟩ := h.last
    · exact ih h
    · exact ih h

/-- A path goes on to a point that may come next. -/
theorem isChain_concat {t₁ t₂ : List Nat} {i j : Nat} (h : (i :: t₂).IsChain f.Next)
    (hbefore : ∀ k ∈ (t₁ ++ i :: t₂).getLast?, k ∈ point.before) (hpoint : f.points[j]? = some point) :
    (i :: (t₂ ++ [j])).IsChain f.Next := by
  rw [← List.cons_append]
  refine List.isChain_append.2 ⟨h, List.isChain_singleton j, ?_⟩
  rintro k hk _ ⟨⟩
  exact ⟨point, hpoint, hbefore k (by rw [List.getLast?_append, hk]; rfl)⟩

/-- From the point where a step is taken the path goes on through points that perform the steps behind
it. -/
theorem Executes.path (h : f.Executes ν t (before ++ a :: between)) (ha : a ≠ .pass ∅) :
    ∃ t₁ i t₂ point, t = t₁ ++ i :: t₂ ∧ f.points[i]? = some point ∧
      f.Performs ν (Memory.after [] before) point a ∧ (i :: t₂).IsChain f.Next ∧
      ∀ k ∈ t₂, ∃ b ∈ between, ∃ μ point, f.points[k]? = some point ∧ f.Performs ν μ point b := by
  induction between using List.reverseRecOn generalizing t with
  | nil =>
    obtain ⟨t', i, point, rfl, -, -, hpoint, hperforms⟩ | ⟨hidle, -⟩ := h.last
    · exact ⟨t', i, [], point, rfl, hpoint, hperforms, List.isChain_singleton i,
        List.forall_mem_nil _⟩
    · exact absurd hidle ha
  | append_singleton between b ih =>
    rw [← List.cons_append, ← List.append_assoc] at h
    obtain ⟨t', j, point, rfl, h, hbefore, hpoint, hperforms⟩ | ⟨-, h⟩ := h.last
    · obtain ⟨t₁, i, t₂, first, rfl, hfirst, htaken, hchain, hothers⟩ := ih h
      refine ⟨t₁, i, t₂ ++ [j], first, by simp, hfirst, htaken, isChain_concat hchain hbefore hpoint,
        List.forall_mem_append.2 ⟨fun k hk => ?_, List.forall_mem_singleton.2 ?_⟩⟩
      · obtain ⟨b', hb', hrest⟩ := hothers k hk
        exact ⟨b', List.mem_append_left _ hb', hrest⟩
      · exact ⟨b, by simp, _, point, hpoint, hperforms⟩
    · obtain ⟨t₁, i, t₂, first, rfl, hfirst, htaken, hchain, hothers⟩ := ih h
      refine ⟨t₁, i, t₂, first, rfl, hfirst, htaken, hchain, fun k hk => ?_⟩
      obtain ⟨b', hb', hrest⟩ := hothers k hk
      exact ⟨b', List.mem_append_left _ hb', hrest⟩

/-- Where a pointer is used, a loan for it is. -/
theorem Performs.uses (h : f.Performs ν μ point u) (hp : p ∈ u.uses μ) :
    ∃ loan ∈ f.usesAt point, f.IsLoan ν p loan := by
  unfold usesAt
  cases u with
  | use place kind span =>
    obtain ⟨-, i, -, hevent, hheld⟩ := h
    rw [hevent]
    exact hheld p hp
  | pass R =>
    obtain ⟨L, hevent, hheld⟩ := h
    rw [hevent]
    exact hheld p hp
  | define | assign | lend => exact absurd hp (Set.notMem_empty p)

/-- Where a pointer is disturbed, a loan for it is. -/
theorem Performs.disturbs (hν : ν.Nodup) (h : f.Performs ν μ point a) (ha : a.Disturbs p)
    (hp : f.IsLoan ν p loan) : f.Disturbs point.event loan ∧ a.position = some point.span := by
  obtain ⟨i, hi, hl⟩ := id hp
  have hloan : f.loanAt loan = ⟨i, p.kind, p.span⟩ := by rw [loanAt, hl, Option.getD_some]
  cases a with
  | lend q =>
    obtain ⟨hspan, new, hnew, hevent⟩ := h
    obtain ⟨hplace, hne, hkind⟩ := ha
    obtain ⟨j, hj, hl'⟩ := id hnew
    obtain rfl : i = j := Option.some.inj (hi.symm.trans (hplace ▸ hj))
    have hloan' : f.loanAt new = ⟨i, q.kind, q.span⟩ := by rw [loanAt, hl', Option.getD_some]
    rw [hevent, Flow.Disturbs, hloan, hloan']
    refine ⟨⟨rfl, ?_, hkind⟩, congrArg some hspan.symm⟩
    rintro rfl
    exact hne (hnew.eq hν hp)
  | use place kind span =>
    obtain ⟨hspan, j, hj, hevent, -⟩ := h
    rw [hevent, Step.position, hspan]
    refine ⟨?_, rfl⟩
    cases kind with
    | move =>
      obtain rfl : place = p.place := ha
      rw [Flow.Disturbs, hloan]
      exact Option.some.inj (hi.symm.trans hj)
    | copy | read =>
      obtain ⟨rfl, hunique⟩ : place = p.place ∧ p.kind = .unique := ha
      show (f.loanAt loan).place = j ∧ (f.loanAt loan).kind = .unique
      rw [hloan]
      exact ⟨Option.some.inj (hi.symm.trans hj), hunique⟩
  | assign place R span =>
    obtain ⟨hspan, j, hj, hevent, -⟩ := h
    obtain rfl : place = p.place := ha
    rw [hevent, Flow.Disturbs, hloan, Step.position, hspan]
    exact ⟨Option.some.inj (hi.symm.trans hj), rfl⟩
  | define | pass => exact ha.elim

/-- A loan is made where a local is borrowed. -/
theorem Performs.made (h : f.Performs ν μ point b) (hmade : point.event = .borrow loan) :
    ∃ p, b = .lend p ∧ f.IsLoan ν p loan := by
  cases b with
  | lend p =>
    obtain ⟨-, new, hnew, hevent⟩ := h
    obtain rfl := FlowEvent.borrow.inj (hmade.symm.trans hevent)
    exact ⟨p, rfl, hnew⟩
  | define =>
    obtain ⟨i, hevent⟩ := h
    cases hmade.symm.trans hevent
  | assign | use =>
    obtain ⟨-, i, -, hevent, -⟩ := h
    cases hmade.symm.trans hevent
  | pass =>
    obtain ⟨L, hevent, -⟩ := h
    cases hmade.symm.trans hevent

/-- Where a pointer is disturbed, a loan for it is needed, if a later step uses one, and the pointer is
not made anew before. -/
theorem Executes.needs (hν : ν.Nodup)
    (h : f.Executes ν t (before ++ a :: (between ++ u :: later))) (ha : a.Disturbs p)
    (hidle : u ≠ .pass ∅) (hu : ∀ point, f.Performs ν (Memory.after [] (before ++ a :: between))
      point u → ∃ loan ∈ f.usesAt point, f.IsLoan ν p loan) (hlend : .lend p ∉ between) :
    ∃ i point loan, f.points[i]? = some point ∧ f.Disturbs point.event loan ∧ f.Needs loan i ∧
      a.position = some point.span := by
  have hsteps : before ++ a :: (between ++ u :: later) =
      ((before ++ a :: between) ++ [u]) ++ later := by simp
  rw [hsteps] at h
  obtain ⟨t, h⟩ := h.prefix
  obtain ⟨t, j, last, rfl, h, hbefore, hlast, hused⟩ | ⟨hpass, -⟩ := h.last
  swap
  · exact absurd hpass hidle
  have hne : a ≠ .pass ∅ := by
    rintro rfl
    exact ha
  obtain ⟨t₁, i, t₂, first, rfl, hfirst, htaken, hchain, hothers⟩ := h.path hne
  obtain ⟨loan, huses, hloan⟩ := hu last hused
  obtain ⟨hdisturbs, hposition⟩ := htaken.disturbs hν ha hloan
  refine ⟨i, first, loan, hfirst, hdisturbs, ⟨t₂, j, isChain_concat hchain hbefore hlast,
    ⟨last, hlast, huses⟩, fun k hk => ?_⟩, hposition⟩
  rintro ⟨point, hpoint, hmade⟩
  obtain ⟨b, hb, μ, point', hpoint', hperforms⟩ := hothers k hk
  obtain rfl := Option.some.inj (hpoint.symm.trans hpoint')
  obtain ⟨q, rfl, hq⟩ := hperforms.made hmade
  exact hlend (hq.eq hν hloan ▸ hb)

end Flow
end RowCheck
