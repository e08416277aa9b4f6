import RowCheck.Proofs.Ownership.Dangling
import RowCheck.Proofs.Ownership.Performs

/-!
Walking along a run. While an activation is walked, the path of a run leads to the frontier, and each
name in scope stands for the local that it has on the run, with loans for what the local holds.
-/
namespace RowCheck

/-- Whether a local is as on a run. -/
structure Flow.HostsContent (f : Flow) (ν : List Nat) (i : Nat) (c : Content) : Prop where
  place : ∃ x, f.locals[i]? = some x ∧ x.ty = c.ty
  carries : f.Carries ν (f.holding i) c.held

/-- Whether the locals of an activation, and the names in scope, are as on a run. -/
structure Activation.Stores (a : Activation) (env : Names) (ν : List Nat) (μ : Memory) : Prop where
  scopes : List.Forall₂ (fun e n => e.1 = n.1 ∧ ν[n.2]? = some e.2) a.scopes env
  aligned : a.flow.Aligned
  distinct : ν.Nodup
  count : ν.length = μ.length
  contents : ∀ (place i : Nat) (c : Content), ν[place]? = some i → μ[place]? = some c →
    a.flow.HostsContent ν i c

/-- Whether the walk of an activation has arrived where some steps lead. -/
structure Lowering.Arrives (s : Lowering) (env : Names) (ν : List Nat) (S : List Step) (t : List Nat) :
    Prop where
  stores : s.activation.Stores env ν (Memory.after [] S)
  executes : s.activation.flow.Executes ν t S
  ends : ∀ i ∈ t.getLast?, i ∈ s.activation.frontier

namespace Activation.Stores

variable {a : Activation} {env : Names} {ν : List Nat} {μ : Memory} {place i : Nat}

theorem exists_content (h : a.Stores env ν μ) (hi : ν[place]? = some i) :
    ∃ c, μ[place]? = some c ∧ a.flow.HostsContent ν i c := by
  have hlt : place < μ.length := h.count ▸ (List.getElem?_eq_some_iff.1 hi).1
  have hc := List.getElem?_eq_getElem hlt
  exact ⟨_, hc, h.contents place i _ hi hc⟩

theorem carries (h : a.Stores env ν μ) (hi : ν[place]? = some i) :
    a.flow.Carries ν (a.flow.holding i) (μ.held place) := by
  obtain ⟨c, hc, hcontent⟩ := h.exists_content hi
  exact Memory.held_of_getElem? hc ▸ hcontent.carries

theorem below (h : a.Stores env ν μ) : ∀ i ∈ ν, i < a.flow.locals.size := by
  intro i hi
  obtain ⟨place, hplace⟩ := List.mem_iff_getElem?.1 hi
  obtain ⟨c, -, ⟨x, hx, -⟩, -⟩ := h.exists_content hplace
  exact (Array.getElem?_eq_some_iff.1 hx).1

/-- What a name stands for. -/
theorem find? (h : a.Stores env ν μ) (x : String) :
    (∃ e place, a.scopes.find? (fun s => decide (s.1 = x)) = some e ∧ env.find? x = some place ∧
      ν[place]? = some e.2) ∨
    a.scopes.find? (fun s => decide (s.1 = x)) = none ∧ env.find? x = none := by
  obtain ⟨hscopes, -⟩ := h
  generalize a.scopes = scopes at hscopes
  induction hscopes with
  | nil => exact .inr ⟨rfl, rfl⟩
  | @cons e n scopes env hentry _ ih =>
    by_cases hx : e.1 = x
    · exact .inl ⟨e, n.2, by simp [hx], by simp [Names.find?, ← hentry.1, hx], hentry.2⟩
    · have hn : n.1 ≠ x := hentry.1 ▸ hx
      simpa [Names.find?, hx, hn] using ih

end Activation.Stores

namespace Lowering

variable {s s' s'' : Lowering} {env env' : Names} {ν ν' : List Nat} {μ : Memory} {S S' : List Step}
  {t t' : List Nat} {L L' : Loans} {R : Set Pointer} {a : Step} {i place : Nat}

theorem Grows.gains (h : s.Grows s') (hν : ν <+: ν') :
    s.activation.flow.Gains s'.activation.flow ν ν' := ⟨h.flow, h.holdings, hν⟩

theorem hostsContent_grows {c : Content} (h : s.activation.flow.HostsContent ν i c) (hs : s.Grows s')
    (hν : ν <+: ν') : s'.activation.flow.HostsContent ν' i c where
  place := h.place.imp fun _ => And.imp_left (getElem?_of_begins hs.flow.locals)
  carries := (h.carries.gains (hs.gains hν)).mono (hs.holdings i) subset_rfl

theorem stores_grows (h : s.activation.Stores env ν μ) (hs : s.Grows s')
    (hscopes : s'.activation.scopes = s.activation.scopes) : s'.activation.Stores env ν μ where
  scopes := hscopes ▸ h.scopes
  aligned := hs.aligned h.aligned
  distinct := h.distinct
  count := h.count
  contents place i c hi hc := hostsContent_grows (h.contents place i c hi hc) hs (List.prefix_refl ν)

/-- A walk that has come further, but to where the steps lead too. -/
theorem Arrives.stays (h : s.Arrives env ν S t) (hs : s.Stays s')
    (hfrontier : ∀ i ∈ s.activation.frontier, i ∈ s'.activation.frontier) : s'.Arrives env ν S t where
  stores := stores_grows h.stores hs.toGrows hs.scopes
  executes := h.executes.gains (hs.gains (List.prefix_refl ν))
  ends i hi := hfrontier i (h.ends i hi)

/-! ## Points -/

/-- A point behind the frontier performs one more step, which may have been prepared. -/
theorem Arrives.point (h : s.Arrives env ν S t) (hs : s.Grows s')
    (hfrontier : s'.activation.frontier = s.activation.frontier) (hν : ν <+: ν')
    (hstores : s'.activation.Stores env' ν' (Memory.after [] (S ++ [a]))) {event : FlowEvent}
    {span : Span} (ha : s'.activation.flow.Performs ν' (Memory.after [] S)
      ⟨event, span, s'.activation.frontier⟩ a) :
    (point event span s').2.Arrives env' ν' (S ++ [a]) (t ++ [s'.activation.flow.points.size]) where
  stores := stores_grows hstores (point_stays event span s').toGrows rfl
  executes := by
    have hgains := (point_stays event span s').gains (List.prefix_refl ν')
    refine .point ((h.executes.gains (hs.gains hν)).gains hgains) (fun j hj => ?_)
      (Flow.getElem?_push_size ..) (ha.gains hgains)
    rw [hfrontier]
    exact h.ends j hj
  ends j hj := by
    obtain rfl : s'.activation.flow.points.size = j := by simpa using hj
    exact SortedSet.mem_ofList.2 (List.mem_singleton_self _)

/-- Whether walking goes on with a run: a path performs its steps, and its value has loans for its
pointers. -/
def Takes (r : Loans × Lowering) (env : Names) (ν : List Nat) (S : List Step) (o : Run) : Prop :=
  ∃ ν' t, ν <+: ν' ∧ r.2.Arrives env ν' (S ++ o.steps) t ∧ r.2.activation.flow.Carries ν' r.1 o.value

/-- What is walked behind a run goes on with another one. -/
theorem Takes.next {r r' : Loans × Lowering} {o : Run} (h : Takes r env ν S o) (o' : Run)
    (h' : ∀ ν' t, ν <+: ν' → r.2.Arrives env ν' (S ++ o.steps) t →
      r.2.activation.flow.Carries ν' r.1 o.value → Takes r' env ν' (S ++ o.steps) o') :
    Takes r' env ν S ⟨o.steps ++ o'.steps, o'.value⟩ := by
  obtain ⟨ν', t, hν, harrives, hvalue⟩ := h
  obtain ⟨ν'', t', hν', harrives', hvalue'⟩ := h' ν' t hν harrives hvalue
  exact ⟨ν'', t', hν.trans hν', List.append_assoc .. ▸ harrives', hvalue'⟩

/-- A value that is there already becomes a part of the value. -/
theorem Takes.union {r : Loans × Lowering} {o : Run} (h : Takes r env ν S o)
    (hR : s.activation.flow.Carries ν L R) (hs : s.Grows r.2) :
    Takes (L.union r.1, r.2) env ν S ⟨o.steps, R ∪ o.value⟩ := by
  obtain ⟨ν', t, hν, harrives, hvalue⟩ := h
  exact ⟨ν', t, hν, harrives, (hR.gains (hs.gains hν)).union hvalue⟩

theorem Arrives.takes (h : s.Arrives env ν S t) (hR : s.activation.flow.Carries ν L R) :
    Takes (L, s) env ν S ⟨[], R⟩ :=
  ⟨ν, t, List.prefix_refl ν, by simpa using h, hR⟩

theorem Arrives.idle (h : s.Arrives env ν S t) (L : Loans) : Takes (L, s) env ν S .idle :=
  h.takes (Flow.carries_empty L)

/-- A walk that has come further, but to where the run leads too. -/
theorem Takes.stays {r : Loans × Lowering} {o : Run} (h : Takes r env ν S o) (hs : r.2.Stays s')
    (hfrontier : ∀ i ∈ r.2.activation.frontier, i ∈ s'.activation.frontier)
    (hL : ∀ loan ∈ r.1, loan ∈ L) : Takes (L, s') env ν S o := by
  obtain ⟨ν', t, hν, harrives, hvalue⟩ := h
  exact ⟨ν', t, hν, harrives.stays hs hfrontier,
    (hvalue.gains (hs.gains (List.prefix_refl ν'))).mono hL subset_rfl⟩

/-- The value is of no use. -/
theorem Takes.drop {r : Loans × Lowering} {o : Run} (h : Takes r env ν S o) (L : Loans) :
    Takes (L, r.2) env ν S o.drop := by
  obtain ⟨ν', t, hν, harrives, -⟩ := h
  exact ⟨ν', t, hν, harrives, Flow.carries_empty L⟩

theorem Takes.reportWhen {o : Run} (h : Takes (L, s) env ν S o) {c : Prop} [Decidable c]
    {d : Diagnostic} : Takes ((do
      if c then report d
      return L : LowerM Loans) s) env ν S o := by
  by_cases hc : c
  · rw [if_pos hc]
    exact h.stays (report_stays d s) (fun _ hi => (activation_report d s).symm ▸ hi) fun _ => id
  · rw [if_neg hc]
    exact h

/-- A step that leaves the locals as they are. -/
theorem Arrives.takes_point (h : s.Arrives env ν S t) {event : FlowEvent} {span : Span}
    (hμ : ∀ μ : Memory, μ.step a = μ)
    (ha : s.activation.flow.Performs ν (Memory.after [] S) ⟨event, span, s.activation.frontier⟩ a)
    (hR : s.activation.flow.Carries ν L R) :
    Takes (L, (Lowering.point event span s).2) env ν S ⟨[a], R⟩ := by
  have hstores : s.activation.Stores env ν (Memory.after [] (S ++ [a])) := by
    simpa [hμ] using h.stores
  exact ⟨ν, _, List.prefix_refl ν, h.point (.refl s) rfl (List.prefix_refl ν) hstores ha,
    hR.gains ((point_stays event span s).gains (List.prefix_refl ν))⟩

theorem useVar_takes (h : s.Arrives env ν S t) (role : Role) (x : String) (u : Ty) (span : Span) :
    Takes (useVar role x u span s) env ν S (env.use (Memory.after [] S) x (useKind role u) span) := by
  unfold useVar Names.use
  obtain ⟨e, place, he, hplace, hi⟩ | ⟨he, hplace⟩ := h.stores.find? x
  · rw [find?_bind_of_some he, hplace]
    have hheld := h.stores.carries hi
    exact h.takes_point (fun _ => rfl) ⟨rfl, e.2, hi, rfl, hheld⟩ hheld
  · rw [find?_bind_of_none he, hplace]
    exact h.idle ∅

theorem borrowVar_takes (h : s.Arrives env ν S t) (kind : BorrowKind) (x : String) (span : Span) :
    Takes (borrowVar kind x span s) env ν S (env.lend x kind span) := by
  unfold borrowVar Names.lend
  obtain ⟨e, place, he, hplace, hi⟩ | ⟨he, hplace⟩ := h.stores.find? x
  · rw [find?_bind_of_some he, hplace]
    have hmade := h.stays (addLoan_stays ⟨e.2, kind, span⟩ s) fun _ => id
    have hloan : ({ s.activation.flow with loans := s.activation.flow.loans.push ⟨e.2, kind, span⟩ } :
        Flow).IsLoan ν ⟨place, kind, span⟩ s.activation.flow.loans.size :=
      ⟨e.2, hi, Array.getElem?_push_size⟩
    refine hmade.takes_point (fun _ => rfl) ⟨rfl, _, hloan, rfl⟩ ?_
    rintro p rfl
    exact ⟨_, SortedSet.mem_ofList.2 (List.mem_singleton_self _), hloan⟩
  · rw [find?_bind_of_none he, hplace]
    exact h.idle ∅

/-- A call that is given something has a point; one that is given nothing need not have one. -/
theorem consume_takes (h : s.Arrives env ν S t) (hR : s.activation.flow.Carries ν L R)
    {R' : Set Pointer} (hR' : s.activation.flow.Carries ν L' R') (span : Span) :
    Takes ((do
      unless L.isEmpty do Lowering.point (.consume L) span
      return L' : LowerM Loans) s) env ν S ⟨[.pass R], R'⟩ := by
  by_cases hL : L.isEmpty = true
  · have hnone : R = ∅ := by
      refine Set.eq_empty_of_forall_notMem fun p hp => ?_
      obtain ⟨loan, hl, -⟩ := hR p hp
      rw [SortedSet.isEmpty, List.isEmpty_iff] at hL
      exact absurd (hL ▸ SortedSet.mem_def.1 hl) List.not_mem_nil
    subst hnone
    rw [if_pos hL]
    have hstores : s.activation.Stores env ν (Memory.after [] (S ++ [.pass ∅])) := by
      simpa [Memory.step] using h.stores
    exact ⟨ν, t, List.prefix_refl ν, ⟨hstores, h.executes.idle, h.ends⟩, hR'⟩
  · rw [if_neg hL]
    exact h.takes_point (fun _ => rfl) ⟨L, rfl, hR⟩ hR'

/-! ## Locals -/

/-- A new local has the next number, and holds what is put into it. -/
theorem addLocal_stores (h : s.activation.Stores env ν μ) (hR : s.activation.flow.Carries ν L R)
    (x : String) (u : Ty) (span : Span) : (s.activation.addLocal x u span L).Stores
      ((x, μ.length) :: env) (ν ++ [s.activation.flow.locals.size]) (μ ++ [⟨u, R⟩]) := by
  have hgrows := addLocal_grows x u span L s
  have hν : ν <+: ν ++ [s.activation.flow.locals.size] := List.prefix_append _ _
  have hnew : (ν ++ [s.activation.flow.locals.size])[μ.length]? =
      some s.activation.flow.locals.size := by
    rw [← h.count, List.getElem?_concat_length]
  refine ⟨.cons ⟨rfl, hnew⟩ (h.scopes.imp fun e n hn => ⟨hn.1, getElem?_of_prefix hν hn.2⟩),
    hgrows.aligned h.aligned, ?_, by simp [h.count], fun place i c hi hc => ?_⟩
  · refine List.nodup_append.2 ⟨h.distinct, List.nodup_singleton _, fun i hi j hj => ?_⟩
    obtain rfl := List.mem_singleton.1 hj
    exact Nat.ne_of_lt (h.below i hi)
  rcases Nat.lt_or_ge place μ.length with hlt | hge
  · rw [List.getElem?_append_left hlt] at hc
    rw [List.getElem?_append_left (h.count.symm ▸ hlt)] at hi
    exact hostsContent_grows (h.contents place i c hi hc) hgrows hν
  · obtain rfl : place = μ.length := by
      have hlt := (List.getElem?_eq_some_iff.1 hc).1
      rw [List.length_append, List.length_singleton] at hlt
      exact Nat.le_antisymm (Nat.le_of_lt_succ hlt) hge
    obtain rfl := Option.some.inj (hnew.symm.trans hi)
    rw [List.getElem?_concat_length] at hc
    obtain rfl := Option.some.inj hc
    refine ⟨⟨_, Array.getElem?_push_size, rfl⟩, ?_⟩
    refine (hR.gains (hgrows.gains hν)).mono (fun loan hl => ?_) subset_rfl
    change loan ∈ ((s.activation.flow.holdings.push L)[s.activation.flow.locals.size]?).getD ∅
    rwa [← h.aligned, Array.getElem?_push_size]

theorem declare_arrives (h : s.Arrives env ν S t) (hR : s.activation.flow.Carries ν L R) (x : String)
    (u : Ty) (span : Span) : (declare x u span L s).2.Arrives
      ((x, (Memory.after [] S).length) :: env) (ν ++ [s.activation.flow.locals.size])
      (S ++ [.define u R]) (t ++ [s.activation.flow.points.size]) := by
  have hstores := addLocal_stores h.stores hR x u span
  have hafter : Memory.after [] S ++ [⟨u, R⟩] = Memory.after [] (S ++ [.define u R]) := by
    simp [Memory.step]
  exact h.point (addLocal_grows x u span L s) rfl (List.prefix_append _ _) (hafter ▸ hstores) ⟨_, rfl⟩

/-- All names of a pattern hold what it matches. -/
theorem declarePattern_arrives (h : s.Arrives env ν S t) (hR : s.activation.flow.Carries ν L R)
    (p : TPattern) : ∃ ν' t', ν <+: ν' ∧ (declarePattern p L s).2.Arrives
      (env.bind (Memory.after [] S).length p.bindings) ν'
      (S ++ p.bindings.map fun n => .define n.2.1 R) t' := by
  unfold declarePattern
  generalize p.bindings = names
  induction names generalizing s env ν S t with
  | nil =>
    refine ⟨ν, t, List.prefix_refl ν, ?_⟩
    rw [List.map_nil, List.append_nil]
    exact h
  | cons b names ih =>
    have hdeclared := declare_arrives h hR b.1 b.2.1 b.2.2
    have hν : ν <+: ν ++ [s.activation.flow.locals.size] := List.prefix_append _ _
    have hcarries := hR.gains ((declare_grows b.1 b.2.1 b.2.2 L s).gains hν)
    obtain ⟨ν', t', hν', harrives⟩ := ih hdeclared hcarries
    have hlength : (Memory.after [] (S ++ [.define b.2.1 R])).length =
        (Memory.after [] S).length + 1 := by
      simp [Memory.step]
    rw [hlength, List.append_assoc, List.singleton_append] at harrives
    refine ⟨ν', t', hν.trans hν', ?_⟩
    rw [List.forIn_cons, List.map_cons]
    exact harrives

theorem enterScope_arrives (h : s.Arrives env ν S t) : s.enterScope.2.Arrives env ν S t where
  stores := stores_grows h.stores (enterScope_grows s) rfl
  executes := h.executes.gains ((enterScope_grows s).gains (List.prefix_refl ν))
  ends := h.ends

/-- Behind a scope the names stand for the locals that they have stood for before it. -/
theorem Takes.leave {r : Loans × Lowering} {o : Run} (hr : Takes r env' ν' (S ++ S') o)
    (h : s.Arrives env ν S t) (hν : ν <+: ν') (hs : r.2.Grows s')
    (hscopes : s'.activation.scopes = s.activation.scopes)
    (hfrontier : ∀ i ∈ r.2.activation.frontier, i ∈ s'.activation.frontier) :
    Takes (r.1, s') env ν S ⟨S' ++ o.steps, o.value⟩ := by
  obtain ⟨ν'', t', hν', ⟨hstores, hexecutes, hends⟩, hvalue⟩ := hr
  have hall := hν.trans hν'
  have hgains := hs.gains (List.prefix_refl ν'')
  refine ⟨ν'', t', hall, ?_, (hvalue.gains hgains)⟩
  rw [← List.append_assoc]
  refine ⟨⟨?_, hs.aligned hstores.aligned, hstores.distinct, hstores.count, fun place i c hi hc =>
    hostsContent_grows (hstores.contents place i c hi hc) hs (List.prefix_refl ν'')⟩,
    hexecutes.gains hgains, fun i hi => hfrontier i (hends i hi)⟩
  exact hscopes ▸ h.stores.scopes.imp fun e n hn => ⟨hn.1, getElem?_of_prefix hall hn.2⟩

/-- What is put into a local is held by it. -/
theorem addHolding_carries (h : s.activation.Stores env ν μ) (hR : s.activation.flow.Carries ν L R)
    (hi : ν[place]? = some i) :
    let f := { s.activation.flow with
      holdings := s.activation.flow.holdings.modify i (·.union L) }
    f.Carries ν (f.holding i) R := by
  refine (hR.gains ((addHolding_stays i L s).gains (List.prefix_refl ν))).mono (fun loan hl => ?_)
    subset_rfl
  have hlt : i < s.activation.flow.holdings.size :=
    (h.below i (List.mem_of_getElem? hi)).trans_eq h.aligned.symm
  exact (holding_modify s.activation.flow i i L).2 (.inr ⟨rfl, hlt, hl⟩)

theorem addHolding_stores (h : s.activation.Stores env ν μ) (hR : s.activation.flow.Carries ν L R)
    (hi : ν[place]? = some i) (span : Span) :
    ({ s.activation with flow := { s.activation.flow with
      holdings := s.activation.flow.holdings.modify i (·.union L) } } : Activation).Stores env ν
        (μ.step (.assign place R span)) := by
  have hgrows := (addHolding_stays i L s).toGrows
  refine ⟨h.scopes, hgrows.aligned h.aligned, h.distinct, ?_, fun place' j c hj hc => ?_⟩
  · rw [Memory.step, List.length_modify, h.count]
  rw [Memory.step, List.getElem?_modify] at hc
  obtain ⟨c', hc', rfl⟩ := Option.map_eq_some_iff.1 hc
  have hold := hostsContent_grows (h.contents place' j c' hj hc') hgrows (List.prefix_refl ν)
  split
  · rename_i hplace
    subst hplace
    obtain rfl := Option.some.inj (hi.symm.trans hj)
    exact ⟨hold.place, addHolding_carries h hR hi⟩
  · exact hold

theorem assignVar_takes (h : s.Arrives env ν S t) (hR : s.activation.flow.Carries ν L R) (x : String)
    (span target : Span) :
    Takes (∅, (assignVar x L span target s).2) env ν S (env.assign x R target) := by
  unfold assignVar Names.assign
  obtain ⟨e, place, he, hplace, hi⟩ | ⟨he, hplace⟩ := h.stores.find? x
  · rw [find?_bind_of_some he, hplace]
    have hchecked := checkOutlives_stays L (s.activation.flow.localAt e.2).region span s
    have hstored := hchecked.trans (addHolding_stays e.2 L _)
    have hheld := stores_grows h.stores hchecked.toGrows hchecked.scopes
    have hvalue := hR.gains (hchecked.gains (List.prefix_refl ν))
    have hstores := addHolding_stores hheld hvalue hi target
    have hafter : (Memory.after [] S).step (.assign place R target) =
        Memory.after [] (S ++ [.assign place R target]) := by simp
    refine ⟨ν, _, List.prefix_refl ν, h.point hstored.toGrows ?_ (List.prefix_refl ν)
      (hafter ▸ hstores) ⟨rfl, e.2, hi, rfl, addHolding_carries hheld hvalue hi⟩, Flow.carries_empty _⟩
    exact (checkOutlives_steady L _ span s).frontier
  · rw [find?_bind_of_none he, hplace]
    exact h.idle ∅

/-- A closure takes the locals that it uses, one after the other. -/
theorem capture_takes (h : s.Arrives env ν S t) (span : Span) (names : List String) :
    Takes ((capture span names s).1.2, (capture span names s).2) env ν S
      (env.capture (Memory.after [] S) span names) := by
  induction names generalizing s ν S t with
  | nil => exact h.idle ∅
  | cons x names ih =>
    rw [capture, Names.capture]
    obtain ⟨e, place, he, hplace, hi⟩ | ⟨he, hplace⟩ := h.stores.find? x
    · rw [find?_bind_of_some he, hplace]
      obtain ⟨c, hc, ⟨z, hz, hty⟩, -⟩ := h.stores.exists_content hi
      have htype : (s.activation.flow.localAt e.2).ty = (Memory.after [] S).ty place := by
        rw [Flow.localAt, hz, Memory.ty, hc]
        exact hty
      have hheld := h.stores.carries hi
      let s₁ := (point (.use e.2 (useKind .value (s.activation.flow.localAt e.2).ty)) span s).2
      have hused : Takes (s.activation.flow.holding e.2, s₁) env ν S
          ⟨[.use place (useKind .value ((Memory.after [] S).ty place)) span],
            (Memory.after [] S).held place⟩ :=
        h.takes_point (fun _ => rfl) ⟨rfl, e.2, hi, htype ▸ rfl, hheld⟩ hheld
      let taken := capture span names s₁
      let rest := env.capture (Memory.after [] S) span names
      have hall : Takes ((s.activation.flow.holding e.2).union taken.1.2, taken.2) env ν S
          ⟨.use place (useKind .value ((Memory.after [] S).ty place)) span :: rest.steps,
            (Memory.after [] S).held place ∪ rest.value⟩ := by
        refine hused.next ⟨rest.steps, (Memory.after [] S).held place ∪ rest.value⟩
          fun ν' t' _ harrives hvalue => ?_
        have hrest := (ih harrives).union hvalue (capture_stays span names s₁).toGrows
        simpa [Memory.step] using hrest
      exact hall
    · rw [find?_bind_of_none he, hplace]
      exact ih h

end Lowering
end RowCheck
