import RowCheck.Proofs.Ownership.Live
import RowCheck.Proofs.Ownership.Tracks

/-!
Runs of a flow and traces of an activation. A run follows a trace if its points show the events of the
trace one by one. Only two things are passed over: that a closure is created, which has no point, and
that a temporary is consumed, which is no event. A point that is added behind some points takes the
runs that end there one event further, and no other ones.
-/
namespace RowCheck
namespace Flow

variable {f f' : Flow} {p : FlowPoint} {t : List Nat} {u w : Trace} {e : TraceEvent} {i : Nat}
  {P Q : Set Trace} {behind behind' : SortedSet Nat}

/-- Whether what happens at a point is an event of a trace. -/
def Shows (f : Flow) (p : FlowPoint) : TraceEvent → Prop
  | .define _ => ∃ i, p.event = .define i
  | .assign _ => ∃ i, p.event = .assign i
  | .use _ name moves span => p.span = span ∧ ∃ i, f.touched? p = some i ∧
      (f.localAt i).name = name ∧ (moves = true ↔ p.event = .use i .move)
  | .create .. => False

/-- Whether what happens at a point is all that happens in a trace. -/
inductive Presents (f : Flow) (p : FlowPoint) : Trace → Prop
  | shows {e : TraceEvent} : f.Shows p e → Presents f p [e]
  | consume {loans : Loans} : p.event = .consume loans → Presents f p []

/-- Whether the points of a run show what happens in a trace. -/
inductive Follows (f : Flow) : List Nat → Trace → Prop
  | nil : Follows f [] []
  | point {t : List Nat} {u w : Trace} {i : Nat} {p : FlowPoint} : Follows f t u →
      f.points[i]? = some p → f.Presents p w → Follows f (t ++ [i]) (u ++ w)
  | create {t : List Nat} {u : Trace} {locals : Scope} {body : TExpr} : Follows f t u →
      Follows f t (u ++ [.create locals body])

/-- Whether a run follows the beginning of a trace. -/
def Passes (f : Flow) (t : List Nat) (u : Trace) : Prop := ∃ w, w <+: u ∧ f.Follows t w

theorem Follows.passes (h : f.Follows t u) : f.Passes t u := ⟨u, List.prefix_refl u, h⟩

theorem Passes.append (h : f.Passes t u) (w : Trace) : f.Passes t (u ++ w) := by
  obtain ⟨v, hv, h⟩ := h
  exact ⟨v, hv.trans (List.prefix_append u w), h⟩

/-! ## Later flows -/

theorem Extends.points_getElem? (h : f.Extends f') (hi : i < f.points.size) :
    f'.points[i]? = f.points[i]? := by
  obtain ⟨later, hlater⟩ := h.points
  rw [← Array.getElem?_toList, ← Array.getElem?_toList, ← hlater,
    List.getElem?_append_left (by simpa using hi)]

theorem Bounded.admits (h : f.Bounded) (hp : f.points[i]? = some p) : f.Admits p :=
  h p (Array.mem_toList_iff.2 (Array.mem_of_getElem? hp))

theorem Shows.later (h : f.Shows p e) (he : f.Extends f') (hp : f.Admits p) : f'.Shows p e := by
  cases e with
  | define | assign => exact h
  | use place name moves span =>
    obtain ⟨hspan, i, hi, hname, hmoves⟩ := h
    exact ⟨hspan, i, he.touched? hp ▸ hi, he.localAt (hp.place i hi) ▸ hname, hmoves⟩
  | create => exact h

theorem Presents.later (h : f.Presents p w) (he : f.Extends f') (hp : f.Admits p) :
    f'.Presents p w := by
  cases h with
  | shows h => exact .shows (h.later he hp)
  | consume h => exact .consume h

theorem Follows.later (h : f.Follows t u) (he : f.Extends f') (hb : f.Bounded) :
    f'.Follows t u := by
  induction h with
  | nil => exact .nil
  | point _ hp hw ih =>
    have hi := (Array.getElem?_eq_some_iff.1 hp).1
    exact .point ih ((he.points_getElem? hi).trans hp) (hw.later he (hb.admits hp))
  | create _ ih => exact .create ih

theorem Passes.later (h : f.Passes t u) (he : f.Extends f') (hb : f.Bounded) : f'.Passes t u := by
  obtain ⟨w, hw, h⟩ := h
  exact ⟨w, hw, h.later he hb⟩

/-! ## Runs -/

theorem IsRun.init (h : f.IsRun (t ++ [i])) : f.IsRun t where
  start j hj := by
    cases t with
    | nil => cases hj
    | cons k t => exact h.start j hj
  steps := (List.isChain_append.1 h.steps).1

/-- The last point of a run is entered from the one before it, or from none. -/
theorem IsRun.entered (h : f.IsRun (t ++ [i])) :
    ∃ p, f.points[i]? = some p ∧ (t = [] → p.before = ∅) ∧ ∀ j ∈ t.getLast?, j ∈ p.before := by
  rcases List.eq_nil_or_concat' t with rfl | ⟨t, j, rfl⟩
  · obtain ⟨p, hp, hbefore⟩ := h.start i rfl
    exact ⟨p, hp, fun _ => hbefore, nofun⟩
  · obtain ⟨p, hp, hj⟩ := (List.isChain_append.1 h.steps).2.2 j (by simp) i rfl
    refine ⟨p, hp, fun hnil => absurd hnil (by simp), fun k hk => ?_⟩
    obtain rfl : j = k := by simpa using hk
    exact hj

theorem IsRun.lt_size (h : f.IsRun t) : ∀ i ∈ t, i < f.points.size := by
  induction t using List.reverseRecOn with
  | nil => exact List.forall_mem_nil _
  | append_singleton t i ih =>
    obtain ⟨p, hp, -⟩ := h.entered
    exact List.forall_mem_append.2 ⟨ih h.init,
      List.forall_mem_singleton.2 (Array.getElem?_eq_some_iff.1 hp).1⟩

/-- A run through points that have been there already is one of the flow as it was. -/
theorem Extends.isRun (he : f.Extends f') (h : f'.IsRun t) (hlt : ∀ i ∈ t, i < f.points.size) :
    f.IsRun t where
  start i hi := by
    rw [← he.points_getElem? (hlt i (List.mem_of_mem_head? hi))]
    exact h.start i hi
  steps := h.steps.imp_of_mem_imp fun i j _ hj ⟨p, hp, hi⟩ =>
    ⟨p, (he.points_getElem? (hlt j hj)).symm.trans hp, hi⟩

theorem IsRun.lt_last (h : f.IsRun (t ++ [i])) (hf : f.Forward) : ∀ j ∈ t, j < i := fun j hj =>
  (List.pairwise_append.1 (h.pairwise hf)).2.2 j hj i List.mem_cons_self

/-! ## Where runs end -/

/-- Whether the runs that end in some points follow some of the traces. -/
def Ends (f : Flow) (behind : SortedSet Nat) (P : Set Trace) : Prop :=
  ∀ t, ∀ i ∈ behind, f.IsRun (t ++ [i]) → ∃ u ∈ P, f.Follows (t ++ [i]) u

theorem ends_empty (f : Flow) : f.Ends ∅ P := fun _ i hi => absurd hi (SortedSet.not_mem_empty i)

theorem Ends.mono (h : f.Ends behind P) (hP : P ⊆ Q) : f.Ends behind Q := by
  intro t i hi ht
  obtain ⟨u, hu, h⟩ := h t i hi ht
  exact ⟨u, hP hu, h⟩

theorem Ends.union (h : f.Ends behind P) (h' : f.Ends behind' Q) :
    f.Ends (behind.union behind') (P ∪ Q) := by
  intro t i hi ht
  rcases SortedSet.mem_union.1 hi with hi | hi
  · exact h.mono Set.subset_union_left t i hi ht
  · exact h'.mono Set.subset_union_right t i hi ht

/-- Points that are added lie on no runs that end in earlier ones. -/
theorem Ends.later (h : f.Ends behind P) (he : f.Extends f') (hb : f.Bounded) (hf : f'.Forward)
    (hlt : ∀ i ∈ behind, i < f.points.size) : f'.Ends behind P := by
  intro t i hi ht
  have hold : ∀ j ∈ t ++ [i], j < f.points.size := List.forall_mem_append.2
    ⟨fun j hj => Nat.lt_trans (ht.lt_last hf j hj) (hlt i hi), List.forall_mem_singleton.2 (hlt i hi)⟩
  obtain ⟨u, hu, h⟩ := h t i hi (he.isRun ht hold)
  exact ⟨u, hu, h.later he hb⟩

/-! ## Points -/

theorem Forward.push (h : f.Forward) (hp : ∀ i ∈ p.before, i < f.points.size) :
    (f.push p).Forward := by
  intro j q hq i hi
  rw [Flow.push, Array.getElem?_push] at hq
  split at hq
  · rename_i hj
    obtain rfl := Option.some.inj hq
    exact hj ▸ hp i hi
  · exact h j q hq i hi

theorem Forward.of_points (h : f.Forward) (hp : f'.points = f.points) : f'.Forward := by
  intro j p hj
  exact h j p (hp ▸ hj)

theorem getElem?_push_size (f : Flow) (p : FlowPoint) :
    (f.push p).points[f.points.size]? = some p := Array.getElem?_push_size

/-- A run through a new point ends there. -/
theorem isRun_push (hf : f.Forward) (hp : ∀ i ∈ p.before, i < f.points.size)
    (h : (f.push p).IsRun t) :
    (∀ i ∈ t, i < f.points.size) ∨ ∃ t', t = t' ++ [f.points.size] := by
  rcases List.eq_nil_or_concat' t with rfl | ⟨t, i, rfl⟩
  · exact .inl (List.forall_mem_nil _)
  · have hi : i < f.points.size + 1 := by
      have := h.lt_size i (by simp)
      rwa [Flow.push, Array.size_push] at this
    rcases Nat.lt_succ_iff_lt_or_eq.1 hi with hi | rfl
    · exact .inl (List.forall_mem_append.2 ⟨fun j hj =>
        Nat.lt_trans (h.lt_last (hf.push hp) j hj) hi, List.forall_mem_singleton.2 hi⟩)
    · exact .inr ⟨t, rfl⟩

/-- A run that ends in a new point follows one of the traces that have come before it, and on. -/
theorem Ends.follows_push (h : f.Ends p.before P) (hidle : p.before = ∅ → ∃ u ∈ P, f.Follows [] u)
    (hb : f.Bounded) (hf : f.Forward) (hlt : ∀ i ∈ p.before, i < f.points.size)
    (hp : f.Admits p) (hw : f.Presents p w) (ht : (f.push p).IsRun (t ++ [f.points.size])) :
    ∃ u ∈ Traces.after [w] P, (f.push p).Follows (t ++ [f.points.size]) u := by
  have he := f.extends_push p
  have hinit := he.isRun ht.init (ht.lt_last (hf.push hlt))
  have hbefore : (t = [] → p.before = ∅) ∧ ∀ j ∈ t.getLast?, j ∈ p.before := by
    obtain ⟨q, hq, hbefore⟩ := ht.entered
    obtain rfl := Option.some.inj ((f.getElem?_push_size p).symm.trans hq)
    exact hbefore
  obtain ⟨u, hu, hfollows⟩ : ∃ u ∈ P, f.Follows t u := by
    rcases List.eq_nil_or_concat' t with rfl | ⟨t, j, rfl⟩
    · exact hidle (hbefore.1 rfl)
    · exact h t j (hbefore.2 j (by simp)) hinit
  exact ⟨u ++ w, ⟨u, hu, w, List.mem_singleton_self w, rfl⟩,
    .point (hfollows.later he hb) (f.getElem?_push_size p) (hw.later he hp)⟩

end Flow
end RowCheck
