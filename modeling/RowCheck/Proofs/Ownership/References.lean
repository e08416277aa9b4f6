import Mathlib.Data.List.Forall2
import RowCheck.Proofs.Ownership.Endings
import RowCheck.Proofs.Ownership.Visits

/-!
Loans against the references that they stand for. While an activation is walked, each local in scope
holds loans for the references in its value, and a loan stands for its reference as long as what it
refers to is in scope. What would outlive its local is told of, where a scope is left and where a
value is stored.
-/
namespace RowCheck

/-- Whether it is told that what a reference refers to does not live long enough. -/
structure Diagnostic.TellsDangling (d : Diagnostic) (q : Reference) : Prop where
  category : d.category = .danglingBorrow
  message : d.message = s!"`{q.name}` does not live long enough"
  location : d.location = some q.span

/-! ## Loans of references -/

theorem getElem?_of_begins {α : Type} {xs ys : Array α} (h : xs.toList <+: ys.toList) {i : Nat}
    {x : α} (hx : xs[i]? = some x) : ys[i]? = some x := by
  obtain ⟨rest, hrest⟩ := h
  rw [← Array.getElem?_toList] at hx ⊢
  rw [← hrest, List.getElem?_append_left (List.getElem?_eq_some_iff.1 hx).1, hx]

namespace Activation

variable {a a' : Activation} {q : Reference} {loan k n : Nat} {L L' : Loans} {R R' : Set Reference}
  {σ : Slots} {e : String × Nat} {c : Slot}

/-- Whether an activation goes on in another one, as far as its outermost scopes go. -/
structure Continues (a a' : Activation) (depth : Nat) : Prop where
  flow : a.flow.Extends a'.flow
  holdings : ∀ i, ∀ loan ∈ a.flow.holding i, loan ∈ a'.flow.holding i
  regions : ∀ r : Region, r <:+ a.region → r.length ≤ depth → r <:+ a'.region

/-- Whether a local is in scope, with a name and at a depth. -/
structure InScope (a : Activation) (x : Local) (name : String) (depth : Nat) : Prop where
  name : x.name = name
  depth : x.region.length = depth
  region : x.region <:+ a.region

theorem InScope.continues {x : Local} {name : String} {depth : Nat} (h : a.InScope x name depth)
    (ha : a.Continues a' n) (hn : depth ≤ n) : a'.InScope x name depth :=
  ⟨h.name, h.depth, ha.regions _ h.region (h.depth.trans_le hn)⟩

/-- Whether a loan stands for a reference to a local in scope. -/
def Stands (a : Activation) (q : Reference) (loan : Nat) : Prop :=
  ∃ l x, a.flow.loans[loan]? = some l ∧ l.span = q.span ∧ a.flow.locals[l.place]? = some x ∧
    a.InScope x q.name q.depth

theorem Stands.continues (h : a.Stands q loan) (ha : a.Continues a' n) (hq : q.depth ≤ n) :
    a'.Stands q loan := by
  obtain ⟨l, x, hl, hspan, hx, hin⟩ := h
  exact ⟨l, x, getElem?_of_begins ha.flow.loans hl, hspan, getElem?_of_begins ha.flow.locals hx,
    hin.continues ha hq⟩

theorem Stands.depth_le (h : a.Stands q loan) : q.depth ≤ a.region.length := by
  obtain ⟨l, x, -, -, -, hin⟩ := h
  exact hin.depth ▸ hin.region.length_le

/-- Whether all references in a value are to locals in scope, and among its loans. -/
def Carries (a : Activation) (L : Loans) (R : Set Reference) : Prop :=
  ∀ q ∈ R, ∃ loan ∈ L, a.Stands q loan

theorem carries_empty (L : Loans) : a.Carries L ∅ := nofun

theorem Carries.mono (h : a.Carries L R) (hL : ∀ loan ∈ L, loan ∈ L') (hR : R' ⊆ R) :
    a.Carries L' R' := fun q hq => by
  obtain ⟨loan, hl, hstands⟩ := h q (hR hq)
  exact ⟨loan, hL loan hl, hstands⟩

theorem Carries.inl (h : a.Carries L R) (L' : Loans) : a.Carries (L.union L') R :=
  h.mono (fun _ hl => SortedSet.mem_union.2 (.inl hl)) subset_rfl

theorem Carries.inr (h : a.Carries L R) (L' : Loans) : a.Carries (L'.union L) R :=
  h.mono (fun _ hl => SortedSet.mem_union.2 (.inr hl)) subset_rfl

theorem Carries.union (h : a.Carries L R) (h' : a.Carries L' R') :
    a.Carries (L.union L') (R ∪ R') := by
  rintro q (hq | hq)
  · exact h.inl L' q hq
  · exact h'.inr L q hq

theorem Carries.depth_le (h : a.Carries L R) (hq : q ∈ R) : q.depth ≤ a.region.length := by
  obtain ⟨loan, -, hstands⟩ := h q hq
  exact hstands.depth_le

theorem Carries.continues (h : a.Carries L R) (ha : a.Continues a' n) (hR : ∀ q ∈ R, q.depth ≤ n) :
    a'.Carries L R := fun q hq => by
  obtain ⟨loan, hl, hstands⟩ := h q hq
  exact ⟨loan, hl, hstands.continues ha (hR q hq)⟩

theorem Carries.persists (h : a.Carries L R) (ha : ∀ depth, a.Continues a' depth) :
    a'.Carries L R := fun q hq => by
  obtain ⟨loan, hl, hstands⟩ := h q hq
  exact ⟨loan, hl, hstands.continues (ha q.depth) le_rfl⟩

/-- Whether a local in scope is a slot. -/
structure HostsSlot (a : Activation) (e : String × Nat) (c : Slot) : Prop where
  name : e.1 = c.name
  place : ∃ x, a.flow.locals[e.2]? = some x ∧ a.InScope x c.name c.depth
  carries : a.Carries (a.flow.holding e.2) c.held
  within : ∀ q ∈ c.held, q.depth ≤ c.depth

theorem HostsSlot.continues (h : a.HostsSlot e c) (ha : a.Continues a' n) (hc : c.depth ≤ n) :
    a'.HostsSlot e c where
  name := h.name
  place := by
    obtain ⟨x, hx, hin⟩ := h.place
    exact ⟨x, getElem?_of_begins ha.flow.locals hx, hin.continues ha hc⟩
  carries := (h.carries.continues ha fun q hq => (h.within q hq).trans hc).mono (ha.holdings e.2)
    subset_rfl
  within := h.within

theorem HostsSlot.depth_le (h : a.HostsSlot e c) : c.depth ≤ a.region.length := by
  obtain ⟨x, -, hin⟩ := h.place
  exact hin.depth ▸ hin.region.length_le

/-- Whether the locals in scope are some slots at some depth. -/
structure Hosts (a : Activation) (k : Nat) (σ : Slots) : Prop where
  depth : a.region.length = k
  aligned : a.flow.Aligned
  slots : List.Forall₂ a.HostsSlot a.scopes σ

theorem Hosts.depth_of_mem (h : a.Hosts k σ) :
    ∀ e ∈ a.scopes, ∃ x, a.flow.locals[e.2]? = some x ∧ x.region.length ≤ k := by
  refine ((List.forall₂_and_left _ _).1 (h.slots.imp fun e c hc => ⟨?_, hc⟩)).1
  obtain ⟨x, hx, hin⟩ := hc.place
  exact ⟨x, hx, h.depth ▸ hin.region.length_le⟩

/-- What a name stands for. -/
theorem Hosts.find? (h : a.Hosts k σ) (x : String) :
    (∃ e c, a.scopes.find? (fun s => decide (s.1 = x)) = some e ∧ σ.find? x = some c ∧
      a.HostsSlot e c) ∨
    a.scopes.find? (fun s => decide (s.1 = x)) = none ∧ σ.find? x = none := by
  obtain ⟨-, -, hslots⟩ := h
  generalize a.scopes = scopes at hslots
  induction hslots with
  | nil => exact .inr ⟨rfl, rfl⟩
  | @cons e c scopes σ hslot _ ih =>
    by_cases hx : e.1 = x
    · exact .inl ⟨e, c, by simp [hx], by simp [Slots.find?, ← hslot.name, hx], hslot⟩
    · have hc : c.name ≠ x := hslot.name ▸ hx
      simpa [Slots.find?, hx, hc] using ih

/-- A value is put into the local that a name stands for. -/
theorem put_hosts {scopes : List (String × Nat)} {x : String}
    (h : List.Forall₂ a.HostsSlot scopes σ)
    (hput : ∀ e c, scopes.find? (fun s => decide (s.1 = x)) = some e → a.HostsSlot e c →
      a.HostsSlot e { c with held := {q ∈ R | q.depth ≤ c.depth} }) :
    List.Forall₂ a.HostsSlot scopes (σ.put x R) := by
  induction h with
  | nil => exact .nil
  | @cons e c scopes σ hslot hrest ih =>
    rw [Slots.put]
    by_cases hx : e.1 = x
    · rw [if_pos (hslot.name ▸ hx)]
      exact .cons (hput e c (by simp [hx]) hslot) hrest
    · rw [if_neg (hslot.name ▸ hx)]
      exact .cons hslot (ih fun e c he => hput e c (by simpa [hx] using he))

end Activation

namespace Lowering

variable {s s' s'' : Lowering} {k n : Nat} {σ : Slots} {L : Loans} {R : Set Reference}
  {q : Reference} {loan : Nat}

theorem Grows.continues (h : s.Grows s') {depth : Nat} (hregions : ∀ r : Region,
    r <:+ s.activation.region → r.length ≤ depth → r <:+ s'.activation.region) :
    s.activation.Continues s'.activation depth :=
  ⟨h.flow, h.holdings, hregions⟩

theorem Stays.continues (h : s.Stays s') (depth : Nat) :
    s.activation.Continues s'.activation depth :=
  h.toGrows.continues fun _ hr _ => h.region ▸ hr

theorem Stays.stands (h : s.Stays s') (hq : s.activation.Stands q loan) :
    s'.activation.Stands q loan :=
  hq.continues (h.continues q.depth) le_rfl

theorem Stays.carries (h : s.Stays s') (hR : s.activation.Carries L R) :
    s'.activation.Carries L R := hR.persists h.continues

theorem Stays.hosts (h : s.Stays s') (hs : s.activation.Hosts k σ) : s'.activation.Hosts k σ where
  depth := h.region ▸ hs.depth
  aligned := h.aligned hs.aligned
  slots := h.scopes ▸ hs.slots.imp fun _ c hc => hc.continues (h.continues c.depth) le_rfl

/-! ## What is told -/

/-- Whether it is told that a reference outlives its local. -/
def TellsOf (s : Lowering) (q : Reference) : Prop := ∃ d ∈ s.faults, d.TellsDangling q

theorem TellsOf.grows (h : s.TellsOf q) (hs : s.Grows s') : s'.TellsOf q := by
  obtain ⟨d, hd, htells⟩ := h
  exact ⟨d, hs.faults.subset hd, htells⟩

/-- A report on a loan tells of the reference that it stands for. -/
theorem report_tells (hq : s.activation.Stands q loan) (position : Span) (note : String) :
    (report (dangling s.activation.flow loan position note) s).2.TellsOf q := by
  obtain ⟨l, x, hl, hspan, hx, hin⟩ := hq
  obtain ⟨d, hd, hcategory, hmessage, hlocation⟩ :=
    report_shows (dangling s.activation.flow loan position note) s
  have hloan : s.activation.flow.loanAt loan = l := by rw [Flow.loanAt, hl, Option.getD_some]
  have hlender : s.activation.flow.lender loan = x := by
    rw [Flow.lender, hloan, Flow.localAt, hx, Option.getD_some]
  refine ⟨d, hd, hcategory, hmessage.trans ?_, hlocation.trans ?_⟩
  · change s!"`{(s.activation.flow.lender loan).name}` does not live long enough" = _
    rw [hlender, hin.name]
  · change some (s.activation.flow.loanAt loan).span = _
    rw [hloan, hspan]

/-- A loop that goes on to its end takes each of its steps. -/
theorem forIn_takes {α : Type} {f : α → PUnit → LowerM (ForInStep PUnit)} {xs : List α} {x : α}
    (hx : x ∈ xs) (hstays : ∀ x, Obeys Stays (f x ⟨⟩))
    (hyields : ∀ x s, (f x ⟨⟩ s).1 = .yield ⟨⟩) (s : Lowering) :
    ∃ s', s.Stays s' ∧ (f x ⟨⟩ s').2.Stays (forIn xs PUnit.unit f s).2 := by
  induction xs generalizing s with
  | nil => cases hx
  | cons y ys ih =>
    have hstep : forIn (y :: ys) PUnit.unit f s = forIn ys PUnit.unit f (f y ⟨⟩ s).2 := by
      have hy : f y ⟨⟩ s = (.yield ⟨⟩, (f y ⟨⟩ s).2) := Prod.ext (hyields y s) rfl
      rw [List.forIn_cons]
      change StateT.bind _ _ s = _
      rw [StateT.bind, hy]
      rfl
    rw [hstep]
    rcases List.mem_cons.1 hx with rfl | hx
    · exact ⟨s, .refl s, Obeys.forIn ys ⟨⟩ (fun x _ => hstays x) _⟩
    · obtain ⟨s', hs, htaken⟩ := ih hx (f y ⟨⟩ s).2
      exact ⟨s', (hstays y s).trans hs, htaken⟩

theorem lender_inScope (hq : s.activation.Stands q loan) :
    s.activation.InScope (s.activation.flow.lender loan) q.name q.depth := by
  obtain ⟨l, x, hl, -, hx, hin⟩ := hq
  rwa [Flow.lender, Flow.loanAt, hl, Option.getD_some, Flow.localAt, hx, Option.getD_some]

/-- A loop over the loans of a value tells of each reference that it finds at fault. -/
theorem forIn_dangling_tells (P : Activation → Nat → Prop) [∀ a loan, Decidable (P a loan)]
    (position : Span) (note : String) {loans : List Nat} (hl : loan ∈ loans)
    (hq : s.activation.Stands q loan) (hP : ∀ s', s.Stays s' → P s'.activation loan) :
    (forIn loans PUnit.unit (fun loan _ => do
      let s : Lowering ← get
      if P s.activation loan then
        report (dangling s.activation.flow loan position note)
      pure (ForInStep.yield PUnit.unit)) s).2.TellsOf q := by
  obtain ⟨s', hs, htaken⟩ := forIn_takes hl (s := s) (f := fun loan _ => do
      let s : Lowering ← get
      if P s.activation loan then
        report (dangling s.activation.flow loan position note)
      pure (ForInStep.yield PUnit.unit))
    (fun _ => Obeys.get_bind fun _ => reportWhen_stays _ _ _)
    (fun x s => reportWhen_fst (P s.activation x) _ _ s)
  refine TellsOf.grows ?_ htaken.toGrows
  change ((if P s'.activation loan then _ else _ : LowerM (ForInStep PUnit)) s').2.TellsOf q
  rw [if_pos (hP s' hs)]
  exact report_tells (hs.stands hq) position note

/-- What leaves the scope of its local is told of. -/
theorem checkEscape_tells (hq : s.activation.Stands q loan) (hl : loan ∈ L) (position : Span)
    (hdepth : s.activation.region.length = q.depth) : (checkEscape L position s).2.TellsOf q := by
  refine forIn_dangling_tells (fun a loan => (a.flow.lender loan).region = a.region) position _ hl
    hq fun s' hs => ?_
  have hin := lender_inScope (hs.stands hq)
  exact hin.region.eq_of_length (hin.depth.trans (hs.region ▸ hdepth.symm))

/-- What is put where it outlives its local is told of. -/
theorem checkOutlives_tells (hq : s.activation.Stands q loan) (hl : loan ∈ L) {region : Region}
    (position : Span) (hdepth : region.length < q.depth) :
    (checkOutlives L region position s).2.TellsOf q := by
  refine forIn_dangling_tells (fun a loan => !(a.flow.lender loan).region.outlives region) position
    _ hl hq fun s' hs => ?_
  have hin := lender_inScope (hs.stands hq)
  have hlonger : ¬ (s'.activation.flow.lender loan).region <:+ region := fun h =>
    Nat.not_le.2 hdepth (hin.depth ▸ h.length_le)
  rwa [← Region.outlives_iff, Bool.not_eq_true, ← Bool.not_eq_true'] at hlonger

/-! ## Scopes -/

theorem declare_continues (x : String) (t : Ty) (span : Span) (L : Loans) (s : Lowering)
    (depth : Nat) : s.activation.Continues (declare x t span L s).2.activation depth :=
  (declare_grows x t span L s).continues fun _ hr _ => hr

theorem enterScope_continues (s : Lowering) (depth : Nat) :
    s.activation.Continues s.enterScope.2.activation depth :=
  (enterScope_grows s).continues fun _ hr _ => hr.trans (List.suffix_cons _ _)

/-- A new local holds what is put into it. -/
theorem declare_hosts (hs : s.activation.Hosts k σ) (hR : s.activation.Carries L R) (x : String)
    (t : Ty) (span : Span) : (declare x t span L s).2.activation.Hosts k (⟨x, k, R⟩ :: σ) := by
  have hcontinues := declare_continues x t span L s k
  have hwithin : ∀ q ∈ R, q.depth ≤ k := fun q hq => hs.depth ▸ hR.depth_le hq
  have haligned := (declare_grows x t span L s).aligned hs.aligned
  refine ⟨hs.depth, haligned, .cons ⟨rfl, ?_, ?_, hwithin⟩ ?_⟩
  · refine ⟨⟨x, t, span, s.activation.region⟩, ?_, rfl, hs.depth, List.suffix_rfl⟩
    exact Array.getElem?_push_size
  · refine (hR.continues hcontinues hwithin).mono (fun loan hl => ?_) subset_rfl
    change loan ∈ ((s.activation.flow.holdings.push L)[s.activation.flow.locals.size]?).getD ∅
    rwa [← hs.aligned, Array.getElem?_push_size]
  · exact hs.slots.imp fun e c hc => hc.continues hcontinues (hs.depth ▸ hc.depth_le)

/-- Whether a scope has been entered from somewhere, with some locals in it. -/
structure Within (outer s : Lowering) (n : Nat) : Prop extends Grows outer s where
  scopes : s.activation.scopes.drop n = outer.activation.scopes
  region : ∃ r, s.activation.region = r :: outer.activation.region

theorem enterScope_within (s : Lowering) : s.Within s.enterScope.2 0 :=
  ⟨enterScope_grows s, rfl, _, rfl⟩

theorem Within.stays (h : s.Within s' n) (hs : s'.Stays s'') : s.Within s'' n :=
  ⟨h.toGrows.trans hs.toGrows, hs.scopes ▸ h.scopes, hs.region ▸ h.region⟩

theorem Within.declare (h : s.Within s' n) (x : String) (t : Ty) (span : Span) (L : Loans) :
    s.Within (declare x t span L s').2 (n + 1) :=
  ⟨h.toGrows.trans (declare_grows x t span L s'), h.scopes, h.region⟩

theorem enterScope_hosts (hs : s.activation.Hosts k σ) :
    s.enterScope.2.activation.Hosts (k + 1) σ where
  depth := congrArg (· + 1) hs.depth
  aligned := hs.aligned
  slots := hs.slots.imp fun _ c hc => hc.continues (enterScope_continues s c.depth) le_rfl

theorem enterScope_carries (hR : s.activation.Carries L R) :
    s.enterScope.2.activation.Carries L R := hR.persists (enterScope_continues s)

theorem Within.leave_continues (h : s.Within s' n) (L : Loans) (position : Span) :
    s'.activation.Continues (leaveScope s.activation L position s').2.activation
      s.activation.region.length := by
  refine (leaveScope_grows s.activation L position s').continues fun region hregion hdepth => ?_
  obtain ⟨r, hr⟩ := h.region
  rw [hr, List.suffix_cons_iff] at hregion
  refine hregion.resolve_left fun heq => ?_
  rw [heq, List.length_cons] at hdepth
  exact absurd hdepth (Nat.not_succ_le_self _)

/-- When a scope is left, the locals around it are there as they were. -/
theorem Within.leave_hosts {τ : Slots} (h : s.Within s' n) (hs : s.activation.Hosts k σ)
    (hs' : s'.activation.Hosts (k + 1) τ) (L : Loans) (position : Span) :
    (leaveScope s.activation L position s').2.activation.Hosts k (τ.drop n) := by
  refine ⟨hs.depth, (leaveScope_grows s.activation L position s').aligned hs'.aligned, ?_⟩
  have hslots := List.forall₂_drop n hs'.slots
  rw [h.scopes] at hslots
  -- `τ` bounds the depth of a local by that of the inner scope only; around it, it is known better.
  refine ((List.forall₂_and_left _ _).2 ⟨hs.depth_of_mem, hslots⟩).imp ?_
  rintro e c ⟨⟨x, hx, hdepth⟩, hc⟩
  refine hc.continues (h.leave_continues L position) (hs.depth ▸ ?_)
  obtain ⟨y, hy, hin⟩ := hc.place
  obtain rfl := Option.some.inj ((getElem?_of_begins h.flow.locals hx).symm.trans hy)
  exact hin.depth ▸ hdepth

/-- All names of a pattern hold what it matches. -/
theorem declarePattern_hosts {outer : Lowering} (hs : s.activation.Hosts k σ)
    (hR : s.activation.Carries L R) (hw : outer.Within s n) (p : TPattern) :
    (declarePattern p L s).2.activation.Hosts k (σ.bindNames k R p.bindings) ∧
      outer.Within (declarePattern p L s).2 (n + p.bindings.length) := by
  unfold declarePattern Slots.bindNames
  generalize p.bindings = names
  induction names generalizing s σ n with
  | nil => exact ⟨hs, hw⟩
  | cons b names ih =>
    rw [List.length_cons, Nat.add_comm names.length, ← Nat.add_assoc]
    have hcontinues := declare_continues b.1 b.2.1 b.2.2 L s k
    rw [List.forIn_cons]
    exact ih (declare_hosts hs hR b.1 b.2.1 b.2.2)
      (hR.continues hcontinues fun q hq => hs.depth ▸ hR.depth_le hq) (hw.declare b.1 b.2.1 b.2.2 L)

end Lowering

end RowCheck
