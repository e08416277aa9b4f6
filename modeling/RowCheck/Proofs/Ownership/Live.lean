import Mathlib.Data.List.Chain
import RowCheck.Ownership.Loans
import RowCheck.Proofs.SortedMap

/-!
What the pass over a flow finds out about loans, told by the runs of the flow. A loan is live after a
point just if it is needed there: some run goes on from the point to a use of the loan, and does not
make the loan on the way. So an access is found to be in conflict just if it disturbs a loan that is
needed later.
-/
namespace RowCheck
namespace Flow

variable {f : Flow} {i j loan : Nat}

/-- Whether a point may come just after another one. -/
def Next (f : Flow) (i j : Nat) : Prop := ∃ p, f.points[j]? = some p ∧ i ∈ p.before

/-- Whether a loan is made at a point. -/
def Makes (f : Flow) (loan i : Nat) : Prop := ∃ p, f.points[i]? = some p ∧ p.event = .borrow loan

/-- Whether a value that may carry a loan is used at a point: a temporary with the loan, or a local
that holds it by one of its definitions. -/
def Uses (f : Flow) (loan i : Nat) : Prop := ∃ p, f.points[i]? = some p ∧ loan ∈ f.usesAt p

/-- A run of an activation, as far as it has come: it begins at a point with none before it, and each
point may come just after the one before. -/
structure IsRun (f : Flow) (t : List Nat) : Prop where
  start : ∀ i ∈ t.head?, ∃ p, f.points[i]? = some p ∧ p.before = ∅
  steps : t.IsChain f.Next

/-- Whether some run goes on from a point to a use of a loan, without making the loan on the way. -/
def Needs (f : Flow) (loan i : Nat) : Prop :=
  ∃ between j, (i :: (between ++ [j])).IsChain f.Next ∧ f.Uses loan j ∧
    ∀ k ∈ between, ¬ f.Makes loan k

theorem needs_of_uses (h : f.Next i j) (hj : f.Uses loan j) : f.Needs loan i :=
  ⟨[], j, List.isChain_pair.2 h, hj, List.forall_mem_nil _⟩

theorem Needs.back (h : f.Needs loan j) (hj : ¬ f.Makes loan j) (hn : f.Next i j) :
    f.Needs loan i := by
  obtain ⟨between, k, hpath, hk, hmakes⟩ := h
  exact ⟨j :: between, k, hpath.cons_cons hn, hk, List.forall_mem_cons.2 ⟨hj, hmakes⟩⟩

/-! ## Runs -/

/-- Whether every edge leads to a higher number. -/
def Forward (f : Flow) : Prop :=
  ∀ (j : Nat) (p : FlowPoint), f.points[j]? = some p → ∀ i ∈ p.before, i < j

/-- Every point is on some run. -/
theorem Forward.exists_isRun (h : f.Forward) (i : Nat) {p : FlowPoint}
    (hp : f.points[i]? = some p) : ∃ t, f.IsRun (t ++ [i]) := by
  induction i using Nat.strong_induction_on generalizing p with
  | _ i ih =>
    by_cases hbefore : p.before = ∅
    · exact ⟨[], by simpa using ⟨p, hp, hbefore⟩, List.isChain_singleton i⟩
    · obtain ⟨j, hj⟩ : ∃ j, j ∈ p.before := by
        by_contra hnone
        exact hbefore (SortedSet.ext_mem fun x => by simpa using fun hx => hnone ⟨x, hx⟩)
      have hlt := h i p hp j hj
      obtain ⟨q, hq⟩ : ∃ q, f.points[j]? = some q := by
        have hi := (Array.getElem?_eq_some_iff.1 hp).1
        exact ⟨_, Array.getElem?_eq_getElem (Nat.lt_trans hlt hi)⟩
      obtain ⟨t, hstart, hsteps⟩ := ih j hlt hq
      refine ⟨t ++ [j], ?_, List.isChain_append.2 ⟨hsteps, List.isChain_singleton i, ?_⟩⟩
      · simpa [List.head?_append] using hstart
      · simpa using ⟨p, hp, hj⟩

/-- Along a run the numbers ascend. -/
theorem IsRun.pairwise (h : f.Forward) {t : List Nat} (ht : f.IsRun t) : t.Pairwise (· < ·) :=
  List.isChain_iff_pairwise.1 (ht.steps.imp fun i j ⟨p, hp, hi⟩ => h j p hp i hi)

/-- A run that has come to a point where a loan is needed goes on to a use of the loan. -/
theorem Needs.exists_isRun (h : f.Needs loan i) {t : List Nat} (ht : f.IsRun (t ++ [i])) :
    ∃ between j, f.IsRun (t ++ i :: (between ++ [j])) ∧ f.Uses loan j ∧
      ∀ k ∈ between, ¬ f.Makes loan k := by
  obtain ⟨between, j, hpath, hj, hmakes⟩ := h
  refine ⟨between, j, ⟨?_, List.isChain_split.2 ⟨ht.steps, hpath⟩⟩, hj, hmakes⟩
  simpa [List.head?_append] using ht.start

/-! ## Liveness -/

/-- What has been found of the points to come is about loans that are needed. -/
def Founded (f : Flow) (outs : Array Loans) : Prop :=
  ∀ i, ∀ loan ∈ (outs[i]?).getD ∅, f.Needs loan i

theorem size_foldl_modify {live : Loans} (js : List Nat) (outs : Array Loans) :
    (js.foldl (fun outs i => outs.modify i (·.union live)) outs).size = outs.size := by
  induction js generalizing outs with
  | nil => rfl
  | cons j js ih => rw [List.foldl_cons, ih, Array.size_modify]

theorem mem_foldl_modify {live : Loans} (js : List Nat) {outs : Array Loans} :
    loan ∈ ((js.foldl (fun outs i => outs.modify i (·.union live)) outs)[i]?).getD ∅ ↔
      loan ∈ (outs[i]?).getD ∅ ∨ i ∈ js ∧ i < outs.size ∧ loan ∈ live := by
  induction js generalizing outs with
  | nil => simp
  | cons j js ih =>
    rw [List.foldl_cons, ih, Array.getElem?_modify, Array.size_modify, List.mem_cons]
    by_cases hji : j = i
    · subst hji
      rw [if_pos rfl]
      cases ho : outs[j]? with
      | none =>
        have hsize : ¬ j < outs.size := Nat.not_lt.2 (Array.getElem?_eq_none_iff.1 ho)
        simp [hsize]
      | some o =>
        have hsize : j < outs.size := (Array.getElem?_eq_some_iff.1 ho).1
        simp only [Option.map_some, Option.getD_some, SortedSet.mem_union, hsize, true_and, true_or]
        tauto
    · rw [if_neg hji]
      simp [Ne.symm hji]

/-- A loan that is live before a point is needed before it. -/
theorem Founded.liveBefore {outs : Array Loans} (h : f.Founded outs) {p : FlowPoint}
    (hp : f.points[j]? = some p) (hi : i ∈ p.before)
    (hl : loan ∈ f.liveBefore p ((outs[j]?).getD ∅)) : f.Needs loan i := by
  have hnext : f.Next i j := ⟨p, hp, hi⟩
  rw [Flow.liveBefore, SortedSet.mem_union] at hl
  rcases hl with hl | hl
  · have hkept : loan ∈ (outs[j]?).getD ∅ ∧ p.event ≠ .borrow loan := by
      split at hl
      · rename_i made he
        rw [SortedSet.mem_filter, bne_iff_ne] at hl
        exact ⟨hl.1, fun hsame => hl.2 (FlowEvent.borrow.inj (hsame.symm.trans he))⟩
      · rename_i hnot
        exact ⟨hl, hnot loan⟩
    refine (h j loan hkept.1).back ?_ hnext
    rintro ⟨q, hq, hmade⟩
    obtain rfl := Option.some.inj (hp.symm.trans hq)
    exact hkept.2 hmade
  · exact needs_of_uses hnext ⟨p, hp, hl⟩

theorem getElem?_of_mem_zipIdx {e : FlowPoint × Nat} (he : e ∈ f.points.toList.zipIdx) :
    f.points[e.2]? = some e.1 := by
  rw [← Array.getElem?_toList]
  exact List.mk_mem_zipIdx_iff_getElem?.1 he

theorem founded_liveAfter (f : Flow) : f.Founded f.liveAfter := by
  have hpoints : ∀ e ∈ f.points.toList.zipIdx, f.points[e.2]? = some e.1 := fun _ =>
    getElem?_of_mem_zipIdx
  unfold liveAfter
  generalize f.points.toList.zipIdx = ps at hpoints
  induction ps with
  | nil =>
    intro i loan hl
    rw [List.foldr_nil, Array.getElem?_replicate] at hl
    split at hl <;> exact absurd hl (SortedSet.not_mem_empty loan)
  | cons e ps ih =>
    have hlater := ih fun e he => hpoints e (List.mem_cons_of_mem _ he)
    intro i loan hl
    rw [List.foldr_cons] at hl
    rcases (mem_foldl_modify _).1 hl with hl | ⟨hi, -, hl⟩
    · exact hlater i loan hl
    · exact hlater.liveBefore (hpoints e List.mem_cons_self) hi hl

/-- What is live before some points has been found to be live after those that may come just before
them. -/
def Settled (f : Flow) (ps : List (FlowPoint × Nat)) (outs : Array Loans) : Prop :=
  ∀ e ∈ ps, ∀ i ∈ e.1.before, ∀ loan ∈ f.liveBefore e.1 ((outs[e.2]?).getD ∅),
    loan ∈ (outs[i]?).getD ∅

theorem pairwise_zipIdx {α : Type} (l : List α) (n : Nat) :
    (l.zipIdx n).Pairwise fun a b => a.2 < b.2 := by
  induction l generalizing n with
  | nil => exact .nil
  | cons a l ih =>
    rw [List.zipIdx_cons, List.pairwise_cons]
    exact ⟨fun b hb => (List.mk_mem_zipIdx_iff_le_and_getElem?_sub.1 hb).1, ih (n + 1)⟩

/-- One pass is enough, since a point tells only those with lower numbers what is live before it. -/
theorem Forward.settled_liveAfter (h : f.Forward) :
    f.Settled f.points.toList.zipIdx f.liveAfter := by
  have hpoints : ∀ e ∈ f.points.toList.zipIdx, f.points[e.2]? = some e.1 := fun _ =>
    getElem?_of_mem_zipIdx
  have hsorted := pairwise_zipIdx f.points.toList 0
  unfold liveAfter
  generalize f.points.toList.zipIdx = ps at hpoints hsorted
  suffices hboth : ∀ outs, outs = ps.foldr (fun p outs =>
      let live := f.liveBefore p.1 ((outs[p.2]?).getD ∅)
      p.1.before.toList.foldl (fun outs i => outs.modify i (·.union live)) outs)
      (Array.replicate f.points.size ∅) → outs.size = f.points.size ∧ f.Settled ps outs from
    (hboth _ rfl).2
  induction ps with
  | nil =>
    rintro outs rfl
    exact ⟨Array.size_replicate, List.forall_mem_nil _⟩
  | cons e ps ih =>
    rintro outs rfl
    rw [List.pairwise_cons] at hsorted
    obtain ⟨hsize, hsettled⟩ :=
      ih (fun e he => hpoints e (List.mem_cons_of_mem _ he)) hsorted.2 _ rfl
    rw [List.foldr_cons]
    generalize ps.foldr _ _ = later at hsize hsettled
    dsimp only
    -- what is found of a point itself, or of one behind it, is not changed any more
    have hsame : ∀ e' ∈ e :: ps, ∀ loan, loan ∈ ((e.1.before.toList.foldl
        (fun outs i => outs.modify i (·.union (f.liveBefore e.1 ((later[e.2]?).getD ∅))))
        later)[e'.2]?).getD ∅ ↔ loan ∈ (later[e'.2]?).getD ∅ := by
      intro e' he' loan
      rw [mem_foldl_modify]
      refine or_iff_left fun hi => ?_
      have hlt := h e.2 e.1 (hpoints e List.mem_cons_self) e'.2 (SortedSet.mem_def.2 hi.1)
      rcases List.mem_cons.1 he' with rfl | he'
      · exact Nat.lt_irrefl _ hlt
      · exact Nat.lt_asymm hlt (hsorted.1 e' he')
    refine ⟨(size_foldl_modify _ _).trans hsize, fun e' he' i hi loan hl => ?_⟩
    rw [SortedSet.ext_mem (hsame e' he')] at hl
    rw [mem_foldl_modify]
    rcases List.mem_cons.1 he' with rfl | hmem
    · have hlt := h e'.2 e'.1 (hpoints e' List.mem_cons_self) i hi
      have hin := (Array.getElem?_eq_some_iff.1 (hpoints e' List.mem_cons_self)).1
      exact .inr ⟨SortedSet.mem_def.1 hi, hsize ▸ Nat.lt_trans hlt hin, hl⟩
    · exact .inl (hsettled e' hmem i hi loan hl)

/-- A loan is live after a point just if it is needed there. -/
theorem Forward.mem_liveAfter_iff (h : f.Forward) :
    loan ∈ (f.liveAfter[i]?).getD ∅ ↔ f.Needs loan i := by
  refine ⟨f.founded_liveAfter i loan, ?_⟩
  rintro ⟨between, j, hpath, ⟨p, hp, huses⟩, hmakes⟩
  have hstep : ∀ {i j p}, f.points[j]? = some p → i ∈ p.before →
      loan ∈ f.liveBefore p ((f.liveAfter[j]?).getD ∅) → loan ∈ (f.liveAfter[i]?).getD ∅ :=
    fun {i j p} hp hi => h.settled_liveAfter (p, j)
      (List.mk_mem_zipIdx_iff_getElem?.2 (Array.getElem?_toList ▸ hp)) i hi loan
  induction between generalizing i with
  | nil =>
    obtain ⟨q, hq, hi⟩ := List.isChain_pair.1 hpath
    obtain rfl := Option.some.inj (hp.symm.trans hq)
    exact hstep hp hi (SortedSet.mem_union.2 (.inr huses))
  | cons k between ih =>
    rw [List.cons_append, List.isChain_cons_cons] at hpath
    obtain ⟨⟨q, hq, hi⟩, hpath⟩ := hpath
    rw [List.forall_mem_cons] at hmakes
    have hlive := ih hpath hmakes.2
    refine hstep hq hi (SortedSet.mem_union.2 (.inl ?_))
    split
    · rename_i made he
      rw [SortedSet.mem_filter, bne_iff_ne]
      exact ⟨hlive, fun hsame => hmakes.1 ⟨q, hq, hsame ▸ he⟩⟩
    · exact hlive

/-! ## Conflicts -/

/-- Whether an event would disturb a loan: a unique one is disturbed by every other access to its
local, a shared one if the local is moved, assigned to, or borrowed as unique. -/
def Disturbs (f : Flow) (event : FlowEvent) (loan : Nat) : Prop :=
  match event with
  | .borrow new => (f.loanAt loan).place = (f.loanAt new).place ∧ loan ≠ new ∧
      ((f.loanAt new).kind = .unique ∨ (f.loanAt loan).kind = .unique)
  | .use i .move | .assign i => (f.loanAt loan).place = i
  | .use i _ => (f.loanAt loan).place = i ∧ (f.loanAt loan).kind = .unique
  | .define _ | .consume _ => False

theorem disturbs_of_conflict? {p : FlowPoint} {live : Loans} {c : Conflict}
    (h : f.conflict? p live = some c) :
    c.loan ∈ live ∧ f.Disturbs p.event c.loan ∧ c.place = (f.loanAt c.loan).place := by
  have hlocal : ∀ {l i}, l ∈ live.toList.filter (fun l => decide ((f.loanAt l).place = i)) →
      l ∈ live ∧ (f.loanAt l).place = i := fun hl =>
    (List.mem_filter.1 hl).imp SortedSet.mem_def.2 of_decide_eq_true
  unfold conflict? at h
  dsimp only at h
  split at h <;> rename_i he <;> rw [he]
  · obtain ⟨l, hl, rfl⟩ := Option.map_eq_some_iff.1 h
    obtain ⟨hmem, hplace⟩ := hlocal (List.mem_of_find?_eq_some hl)
    have hkind := List.find?_some hl
    simp only [Bool.and_eq_true, bne_iff_ne, Bool.or_eq_true, decide_eq_true_eq] at hkind
    exact ⟨hmem, ⟨hplace, hkind⟩, hplace.symm⟩
  · obtain ⟨l, hl, rfl⟩ := Option.map_eq_some_iff.1 h
    obtain ⟨hmem, hplace⟩ := hlocal (List.mem_of_mem_head? hl)
    exact ⟨hmem, hplace, hplace.symm⟩
  · rename_i kind hkind
    obtain ⟨l, hl, rfl⟩ := Option.map_eq_some_iff.1 h
    obtain ⟨hmem, hplace⟩ := hlocal (List.mem_of_find?_eq_some hl)
    have hunique : (f.loanAt l).kind = .unique := by simpa using List.find?_some hl
    cases kind with
    | move => exact absurd rfl hkind
    | copy | read => exact ⟨hmem, ⟨hplace, hunique⟩, hplace.symm⟩
  · obtain ⟨l, hl, rfl⟩ := Option.map_eq_some_iff.1 h
    obtain ⟨hmem, hplace⟩ := hlocal (List.mem_of_mem_head? hl)
    exact ⟨hmem, hplace, hplace.symm⟩
  · cases h
  · cases h

/-- An access that would disturb a live loan is found to be in conflict with that one or another. -/
theorem exists_conflict? {p : FlowPoint} {live : Loans} (hl : loan ∈ live)
    (h : f.Disturbs p.event loan) : ∃ c, f.conflict? p live = some c := by
  have hlocal : ∀ {i}, (f.loanAt loan).place = i →
      loan ∈ live.toList.filter (fun l => decide ((f.loanAt l).place = i)) := fun hi =>
    List.mem_filter.2 ⟨SortedSet.mem_def.1 hl, decide_eq_true hi⟩
  have hfind : ∀ {i} {q : Nat → Bool}, (f.loanAt loan).place = i → q loan = true →
      ((live.toList.filter (fun l => decide ((f.loanAt l).place = i))).find? q).isSome :=
    fun hi hq => List.find?_isSome.2 ⟨loan, hlocal hi, hq⟩
  have hhead : ∀ {i}, (f.loanAt loan).place = i →
      (live.toList.filter (fun l => decide ((f.loanAt l).place = i))).head?.isSome := fun hi => by
    rw [List.isSome_head?]
    exact List.ne_nil_of_mem (hlocal hi)
  rw [← Option.isSome_iff_exists]
  unfold conflict?
  dsimp only
  cases he : p.event with
  | borrow new =>
    rw [he] at h
    obtain ⟨hplace, hne, hkind⟩ := h
    rw [Option.isSome_map]
    exact hfind hplace (by simpa using ⟨hne, hkind⟩)
  | use i kind =>
    rw [he] at h
    cases kind with
    | move =>
      rw [Option.isSome_map]
      exact hhead h
    | copy | read =>
      rw [Option.isSome_map]
      exact hfind h.1 (decide_eq_true h.2)
  | assign i =>
    rw [he] at h
    rw [Option.isSome_map]
    exact hhead h
  | define | consume =>
    rw [he] at h
    exact h.elim

/-- Whether a diagnostic tells that the access at a point is in conflict with a loan: it stands at the
access, and shows first where the loan was made. -/
structure TellsConflict (f : Flow) (d : Diagnostic) (p : FlowPoint) (loan : Nat) : Prop where
  category : d.category = .conflictingBorrow
  location : d.location = some p.span
  label : d.labels.head? = some ⟨(f.loanAt loan).span,
    s!"`{(f.lender loan).name}` is borrowed as {kindName (f.loanAt loan).kind} here"⟩

theorem tellsConflict_conflictReport {p : FlowPoint} {c : Conflict}
    (hc : c.place = (f.loanAt c.loan).place) (i : Nat) :
    f.TellsConflict (f.conflictReport i p.span c) p c.loan := by
  have hname : (f.localAt c.place).name = (f.lender c.loan).name := by rw [hc, lender]
  unfold conflictReport
  dsimp only
  rw [hname]
  split <;> exact ⟨rfl, rfl, rfl⟩

/-- What is reported of a flow is about accesses that would disturb a loan that is needed later. -/
theorem needs_of_mem_conflictFaults {d : Diagnostic} (hd : d ∈ f.conflictFaults) :
    ∃ i p loan, f.points[i]? = some p ∧ f.TellsConflict d p loan ∧ f.Disturbs p.event loan ∧
      f.Needs loan i := by
  obtain ⟨⟨p, i⟩, hp, hd⟩ := List.mem_filterMap.1 hd
  obtain ⟨c, hc, rfl⟩ := Option.map_eq_some_iff.1 hd
  obtain ⟨hlive, hdisturbs, hplace⟩ := disturbs_of_conflict? hc
  have hpoint : f.points[i]? = some p := by
    rw [← Array.getElem?_toList]
    exact List.mk_mem_zipIdx_iff_getElem?.1 hp
  exact ⟨i, p, c.loan, hpoint, tellsConflict_conflictReport hplace i, hdisturbs,
    f.founded_liveAfter i c.loan hlive⟩

/-- Every access that would disturb a loan that is needed later is reported, if not for that loan then
for another one. -/
theorem Forward.tells_of_disturbs (h : f.Forward) {p : FlowPoint} (hp : f.points[i]? = some p)
    (hd : f.Disturbs p.event loan) (hn : f.Needs loan i) :
    ∃ d ∈ f.conflictFaults, ∃ other, f.TellsConflict d p other := by
  obtain ⟨c, hc⟩ := exists_conflict? (h.mem_liveAfter_iff.2 hn) hd
  refine ⟨_, List.mem_filterMap.2 ⟨(p, i), ?_, ?_⟩,
    c.loan, tellsConflict_conflictReport (disturbs_of_conflict? hc).2.2 i⟩
  · exact List.mk_mem_zipIdx_iff_getElem?.2 (Array.getElem?_toList ▸ hp)
  · rw [hc, Option.map_some]

/-- Whether what happens at a point would disturb a loan that is needed behind it. -/
def Clashes (f : Flow) (loan i : Nat) : Prop :=
  (∃ p, f.points[i]? = some p ∧ f.Disturbs p.event loan) ∧ f.Needs loan i

/-- What is found at a point, if anything is. -/
def conflictAt? (f : Flow) (e : FlowPoint × Nat) : Option Conflict :=
  f.conflict? e.1 ((f.liveAfter[e.2]?).getD ∅)

theorem Forward.clashes_of_conflictAt? (h : f.Forward) {p : FlowPoint} {c : Conflict}
    (hp : f.points[i]? = some p) (hc : f.conflictAt? (p, i) = some c) : f.Clashes c.loan i := by
  obtain ⟨hlive, hdisturbs, -⟩ := disturbs_of_conflict? hc
  exact ⟨⟨p, hp, hdisturbs⟩, h.mem_liveAfter_iff.1 hlive⟩

theorem Forward.isSome_conflictAt?_iff (h : f.Forward) {p : FlowPoint} (hp : f.points[i]? = some p) :
    (f.conflictAt? (p, i)).isSome ↔ ∃ loan, f.Clashes loan i := by
  rw [Option.isSome_iff_exists]
  constructor
  · rintro ⟨c, hc⟩
    exact ⟨c.loan, h.clashes_of_conflictAt? hp hc⟩
  · rintro ⟨loan, ⟨q, hq, hdisturbs⟩, hneeds⟩
    obtain rfl := Option.some.inj (hp.symm.trans hq)
    exact exists_conflict? (h.mem_liveAfter_iff.2 hneeds) hdisturbs

/-- The points at which something is found, in the order of evaluation. -/
def conflictPoints (f : Flow) : List Nat :=
  (f.points.toList.zipIdx.filter fun e => (f.conflictAt? e).isSome).map (·.2)

theorem mem_zipIdx_points {p : FlowPoint} :
    (p, i) ∈ f.points.toList.zipIdx ↔ f.points[i]? = some p := by
  rw [List.mk_mem_zipIdx_iff_getElem?, Array.getElem?_toList]

theorem Forward.mem_conflictPoints (h : f.Forward) :
    i ∈ f.conflictPoints ↔ ∃ loan, f.Clashes loan i := by
  constructor
  · intro hi
    obtain ⟨⟨p, j⟩, he, rfl⟩ := List.mem_map.1 hi
    obtain ⟨hp, hfound⟩ := List.mem_filter.1 he
    exact (h.isSome_conflictAt?_iff (mem_zipIdx_points.1 hp)).1 hfound
  · rintro ⟨loan, hclash⟩
    obtain ⟨p, hp, -⟩ := hclash.1
    exact List.mem_map.2 ⟨(p, i), List.mem_filter.2 ⟨mem_zipIdx_points.2 hp,
      (h.isSome_conflictAt?_iff hp).2 ⟨loan, hclash⟩⟩, rfl⟩

theorem pairwise_conflictPoints (f : Flow) : f.conflictPoints.Pairwise (· < ·) :=
  List.pairwise_map.2 ((pairwise_zipIdx _ 0).sublist List.filter_sublist)

/-- Each report stands for one of these points. -/
theorem conflictFaults_forall₂ (f : Flow) :
    List.Forall₂ (fun i d => ∃ p c, f.points[i]? = some p ∧ f.conflictAt? (p, i) = some c ∧
      d = f.conflictReport i p.span c) f.conflictPoints f.conflictFaults := by
  have hpoints : ∀ e ∈ f.points.toList.zipIdx, f.points[e.2]? = some e.1 := fun _ =>
    getElem?_of_mem_zipIdx
  unfold conflictPoints conflictFaults
  generalize f.points.toList.zipIdx = es at hpoints
  induction es with
  | nil => exact .nil
  | cons e es ih =>
    rw [List.forall_mem_cons] at hpoints
    have hrest := ih hpoints.2
    cases hc : f.conflictAt? e with
    | none =>
      rw [List.filter_cons_of_neg (by simp [hc]), List.filterMap_cons_none]
      · exact hrest
      · change (f.conflictAt? e).map _ = none
        rw [hc]
        rfl
    | some c =>
      rw [List.filter_cons_of_pos (by simp [hc]), List.map_cons, List.filterMap_cons_some]
      · exact .cons ⟨e.1, c, hpoints.1, hc, rfl⟩ hrest
      · change (f.conflictAt? e).map _ = _
        rw [hc]
        rfl

/-- Where every edge leads to a higher number, one pass over the points finds what the paths say. A loan
is live after a point just if some path goes on from there to a use of the loan and does not make it
anew on the way; and the conflicts that are reported are, one for each and in order, the points where
something happens that would disturb a loan which is live after them. -/
theorem Forward.conflictFaults_exact (h : f.Forward) :
    (∀ i loan, loan ∈ (f.liveAfter[i]?).getD ∅ ↔ f.Needs loan i) ∧
    ∃ found : List Nat, found.Pairwise (· < ·) ∧ (∀ i, i ∈ found ↔ ∃ loan, f.Clashes loan i) ∧
      List.Forall₂ (fun i d => ∃ p loan, f.points[i]? = some p ∧ f.Clashes loan i ∧
        f.TellsConflict d p loan) found f.conflictFaults := by
  refine ⟨fun i loan => h.mem_liveAfter_iff, f.conflictPoints, f.pairwise_conflictPoints,
    fun i => h.mem_conflictPoints, f.conflictFaults_forall₂.imp ?_⟩
  rintro i d ⟨p, c, hp, hc, rfl⟩
  have hplace := (disturbs_of_conflict? hc).2.2
  exact ⟨p, c.loan, hp, h.clashes_of_conflictAt? hp hc, tellsConflict_conflictReport hplace i⟩

/-- `let r = &mut x; x; *r; x`, with the local `x` and the local `r` that holds its loan. -/
def readWhileLent : Flow where
  locals := #[⟨"x", .prim .s32, ⟨0, 4, 5⟩, []⟩, ⟨"r", .ref .unique (.prim .s32), ⟨0, 8, 9⟩, []⟩]
  loans := #[⟨0, .unique, ⟨0, 12, 18⟩⟩]
  holdings := #[∅, SortedSet.ofList [0]]
  points := #[
    ⟨.define 0, ⟨0, 4, 5⟩, ∅⟩,
    ⟨.borrow 0, ⟨0, 12, 18⟩, SortedSet.ofList [0]⟩,
    ⟨.define 1, ⟨0, 8, 9⟩, SortedSet.ofList [1]⟩,
    ⟨.use 0 .copy, ⟨0, 20, 21⟩, SortedSet.ofList [2]⟩,
    ⟨.use 1 .read, ⟨0, 23, 25⟩, SortedSet.ofList [3]⟩,
    ⟨.use 0 .copy, ⟨0, 27, 28⟩, SortedSet.ofList [4]⟩]

/-- Its unique loan is needed up to the use of `r`, and so the first use of `x` is in conflict with
it, and the second one is not. -/
theorem readWhileLent_conflictFaults_exact :
    readWhileLent.Forward ∧
    readWhileLent.conflictFaults.map (·.location) = [some ⟨0, 20, 21⟩] ∧
    readWhileLent.Needs 0 3 ∧ ¬ readWhileLent.Needs 0 5 ∧
    ∃ found : List Nat, found.Pairwise (· < ·) ∧
      (∀ i, i ∈ found ↔ ∃ loan, readWhileLent.Clashes loan i) ∧
      List.Forall₂ (fun i d => ∃ p loan, readWhileLent.points[i]? = some p ∧
        readWhileLent.Clashes loan i ∧ readWhileLent.TellsConflict d p loan)
        found readWhileLent.conflictFaults := by
  have hforward : readWhileLent.Forward := by
    have hpoints : ∀ e ∈ readWhileLent.points.toList.zipIdx,
        ∀ i ∈ e.1.before.toList, i < e.2 := by decide
    exact fun j p hp i hi => hpoints (p, j) (mem_zipIdx_points.2 hp) i (SortedSet.mem_def.1 hi)
  obtain ⟨hlive, hfaults⟩ := hforward.conflictFaults_exact
  exact ⟨hforward, by decide, (hlive 3 0).1 (by decide), fun h => absurd ((hlive 5 0).2 h) (by decide),
    hfaults⟩

end Flow
end RowCheck
