import RowCheck.Proofs.Unify.Effects

/-!
The end of a pass. It refuses some of the inclusions that have waited, with a report for each, and
makes the others hold. Labels stop flowing before the rounds run out, since every round but the last
gives some row one of finitely many labels.
-/
namespace RowCheck

def Constraint.inclusion? : Constraint → Option Inclusion
  | inclusion row within why => some ⟨row, within, why⟩
  | _ => none

namespace Unifier

variable {u u' u'' : Unifier}

/-! ## What waits -/

/-- Whether the rows of an inclusion were made. -/
def Made (u : Unifier) (i : Inclusion) : Prop := i.row.Below u.rowCount ∧ i.within.Below u.rowCount

theorem Made.grows {i : Inclusion} (h : u.Made i) (hg : u.Grows u') : u'.Made i :=
  ⟨h.1.mono hg.rows, h.2.mono hg.rows⟩

/-- Of what waits, the inclusions are given back, and the rest is acted on. -/
theorem takePending_does (hu : u.Valid) {cs : List Constraint}
    (hcs : ∀ c ∈ cs, c.Below u.rowCount) :
    u.Does (takePending cs) (fun is u' => SameInclusions u u' ∧
      is = cs.filterMap Constraint.inclusion?) := by
  induction cs generalizing u with
  | nil => exact .pure hu ⟨.of_eq rfl rfl, rfl⟩
  | cons c cs ih =>
    simp only [List.mem_cons, forall_eq_or_imp] at hcs
    have other : LeavesInclusions (constrain c) → c.inclusion? = none →
        u.Does (constrain c >>= fun _ => takePending cs) (fun is u' => SameInclusions u u' ∧
          is = (c :: cs).filterMap Constraint.inclusion?) := by
      intro hc hnone
      refine (hc.does (constrain_does hu hcs.1)).bind fun _ u₁ h₁ hsame => ?_
      refine (ih h₁.valid fun c hc => (hcs.2 c hc).mono h₁.rows).imp fun is u₂ _ h => ⟨?_, ?_⟩
      · exact trans_of SameInclusions hsame.1 h.1
      · rw [h.2, List.filterMap_cons_none hnone]
    cases c with
    | inclusion row within why =>
      refine (ih hu hcs.2).bind fun is u₁ h₁ h => .pure h₁.valid ⟨h.1, ?_⟩
      rw [h.2]
      rfl
    | equal a b why => exact other (unify_leavesInclusions a b why) rfl
    | numeric t why => exact other (requireNumeric_leavesInclusions t why) rfl

/-! ## Labels that are lacking -/

/-- The labels out of a set that the including rows lack, counted for each inclusion. -/
def gap (u : Unifier) (labels : Finset String) : List Inclusion → Nat
  | [] => 0
  | i :: is => (labels.filter (fun x => x ∉ (u.findRow i.within).labels)).card + u.gap labels is

theorem gap_cons (u : Unifier) (labels : Finset String) (i : Inclusion) (is : List Inclusion) :
    u.gap labels (i :: is) =
      (labels.filter (fun x => x ∉ (u.findRow i.within).labels)).card + u.gap labels is := rfl

theorem gap_le_mul (u : Unifier) (labels : Finset String) (is : List Inclusion) :
    u.gap labels is ≤ is.length * labels.card := by
  induction is with
  | nil => simp [gap]
  | cons i is ih =>
    have := Finset.card_filter_le labels (fun x => x ∉ (u.findRow i.within).labels)
    rw [gap_cons, List.length_cons, Nat.succ_mul]
    omega

section

variable {labels : Finset String} {r : Row}

theorem Grows.lacking_subset (h : u.Grows u') (hu : u.Valid) (labels : Finset String) (r : Row) :
    labels.filter (fun x => x ∉ (u'.findRow r).labels) ⊆
      labels.filter (fun x => x ∉ (u.findRow r).labels) :=
  Finset.monotone_filter_right _ fun _ _ hx hmem => hx (h.mem_labels hu hmem)

theorem Grows.gap_le (h : u.Grows u') (hu : u.Valid) (labels : Finset String)
    (is : List Inclusion) : u'.gap labels is ≤ u.gap labels is := by
  induction is with
  | nil => exact Nat.le_refl _
  | cons i is ih =>
    rw [gap_cons, gap_cons]
    exact Nat.add_le_add (Finset.card_le_card (h.lacking_subset hu labels i.within)) ih

/-- Gaining a label out of the set makes the gap smaller. -/
theorem Grows.lacking_lt (h : u.Grows u') (hu : u.Valid) {x : String} (hx : x ∈ labels)
    (hn : x ∉ (u.findRow r).labels) (hx' : x ∈ (u'.findRow r).labels) :
    (labels.filter (fun x => x ∉ (u'.findRow r).labels)).card <
      (labels.filter (fun x => x ∉ (u.findRow r).labels)).card := by
  refine Finset.card_lt_card ⟨h.lacking_subset hu labels r, fun hsub => ?_⟩
  have := Finset.mem_filter.1 (hsub (Finset.mem_filter.2 ⟨hx, hn⟩))
  exact this.2 hx'

end

/-- Whether all labels of the included rows are in a set. -/
def Within (u : Unifier) (labels : Finset String) (is : List Inclusion) : Prop :=
  ∀ i ∈ is, ∀ x ∈ (u.findRow i.row).labels, x ∈ labels

/-! ## Settling inclusions -/

section

variable {τ : Type} {is left left' refused refused' : List (τ × Inclusion)}

/-- The inclusions in a list of marked ones. -/
abbrev unmarked (is : List (τ × Inclusion)) : List Inclusion := is.map Prod.snd

/-- How a stretch of a pass settles some inclusions: the refused ones are reported in their order, and
never hold. The mark on an inclusion tells which one it is. -/
structure Settles (u u' : Unifier) (is left refused : List (τ × Inclusion)) : Prop where
  perm : is.Perm (left ++ refused)
  reported : ∃ ds, u'.mismatches = u.mismatches ++ ds ∧
    List.Forall₂ (fun i d => Inclusion.Reported i.2 d) refused ds
  refuses : ∀ i ∈ refused, u'.Refuses i.2.row i.2.within

theorem Settles.mem (h : Settles u u' is left refused) {i : τ × Inclusion} (hi : i ∈ left) :
    i ∈ is := h.perm.mem_iff.2 (List.mem_append_left _ hi)

theorem settles_nothing (h : u'.mismatches = u.mismatches) (is : List (τ × Inclusion)) :
    Settles u u' is is [] where
  perm := by simp
  reported := ⟨[], by simp [h], .nil⟩
  refuses := by simp

theorem Settles.trans (h : Settles u u' is left refused) (hu' : u'.Valid) (hg : u'.Grows u'')
    (h' : Settles u' u'' left left' refused') : Settles u u'' is left' (refused ++ refused') where
  perm := by
    refine h.perm.trans ((h'.perm.append_right refused).trans ?_)
    rw [List.append_assoc]
    exact List.perm_append_comm.append_left left'
  reported := by
    obtain ⟨ds, hds, hall⟩ := h.reported
    obtain ⟨ds', hds', hall'⟩ := h'.reported
    exact ⟨ds ++ ds', by rw [hds', hds, List.append_assoc], List.rel_append hall hall'⟩
  refuses i hi := by
    rcases List.mem_append.1 hi with hi | hi
    · exact (h.refuses i hi).grows hu' hg
    · exact h'.refuses i hi

theorem Settles.kept (h : Settles u u' is left refused) (i : τ × Inclusion) :
    Settles u u' (i :: is) (i :: left) refused := { h with perm := h.perm.cons i }

theorem settles_refused {i : τ × Inclusion} {d : Diagnostic} (hd : i.2.Reported d)
    (hm : u'.mismatches = u.mismatches ++ [d]) (hr : u'.Refuses i.2.row i.2.within) :
    Settles u u' (i :: is) is [i] where
  perm := (List.perm_append_singleton i is).symm
  reported := ⟨[d], hm, .cons hd .nil⟩
  refuses _ hj := List.mem_singleton.1 hj ▸ hr

end

/-! ## Rounds -/

/-- Whether all inclusions of a list have let their labels flow. -/
def AllFlow (u : Unifier) (is : List Inclusion) : Prop := ∀ i ∈ is, u.Flows i.row i.within

/-- What a round of labels flowing does, apart from the reports: either nothing changes since all
labels have flowed, or some row gains a label. -/
structure Round (u u' : Unifier) (is left : List Inclusion) (changed : Bool) : Prop where
  still : changed = false → u'.substitution = u.substitution ∧ u'.AllFlow left
  gap_le : ∀ labels, u'.gap labels left ≤ u.gap labels is
  gap_lt : ∀ labels, u.Within labels is → changed = true → u'.gap labels left < u.gap labels is
  labels : ∀ labels, u.Within labels is → ∀ r, (∀ x ∈ (u.findRow r).labels, x ∈ labels) →
    ∀ x ∈ (u'.findRow r).labels, x ∈ labels

theorem Flows.of_substitution {row within : Row} (h : u.Flows row within)
    (hs : u'.substitution = u.substitution) : u'.Flows row within := by
  rw [Flows, findRow, findRow, hs]
  exact h

section

variable {is left : List Inclusion} {i : Inclusion} {changed : Bool}

/-- A round that begins with an inclusion through which labels flow. -/
theorem Round.kept (hu : u.Valid) (h₁ : u.Grows u') (h₂ : u'.Grows u'')
    (hflows : u'.Flows i.row i.within)
    (hchange : u' = u ∨ ∃ x ∈ (u.findRow i.row).labels, x ∉ (u.findRow i.within).labels ∧
      x ∈ (u'.findRow i.within).labels)
    (hlabels : ∀ r x, x ∈ (u'.findRow r).labels →
      x ∈ (u.findRow r).labels ∨ x ∈ (u.findRow i.row).labels)
    (h : Round u' u'' is left changed) :
    Round u u'' (i :: is) (i :: left)
      (u'.findRow i.within != u.findRow i.within || changed) := by
  have hlack : ∀ labels : Finset String,
      (labels.filter (fun x => x ∉ (u''.findRow i.within).labels)).card ≤
        (labels.filter (fun x => x ∉ (u.findRow i.within).labels)).card := fun labels =>
    Finset.card_le_card ((h₁.trans h₂).lacking_subset hu labels i.within)
  have hkeep : ∀ {labels : Finset String}, u.Within labels (i :: is) → ∀ r,
      (∀ x ∈ (u.findRow r).labels, x ∈ labels) → ∀ x ∈ (u'.findRow r).labels, x ∈ labels :=
    fun hl r hr x hx => (hlabels r x hx).elim (hr x) (hl i List.mem_cons_self x)
  have hwithin : ∀ {labels : Finset String}, u.Within labels (i :: is) → u'.Within labels is :=
    fun hl i hi => hkeep hl i.row (hl i (List.mem_cons_of_mem _ hi))
  refine ⟨fun hc => ?_, fun labels => ?_, fun labels hl hc => ?_, fun labels hl r hr => ?_⟩
  · simp only [Bool.or_eq_false_iff, bne_eq_false_iff_eq] at hc
    obtain rfl : u' = u := by
      refine hchange.resolve_right ?_
      rintro ⟨x, -, hn, hx⟩
      exact hn (hc.1 ▸ hx)
    obtain ⟨hs, hall⟩ := h.still hc.2
    refine ⟨hs, fun j hj => ?_⟩
    rcases List.mem_cons.1 hj with rfl | hj
    · exact hflows.of_substitution hs
    · exact hall j hj
  · rw [gap_cons, gap_cons]
    exact Nat.add_le_add (hlack labels) ((h.gap_le labels).trans (h₁.gap_le hu labels is))
  · rw [gap_cons, gap_cons]
    rcases hchange with rfl | ⟨x, hx, hn, hx'⟩
    · simp only [bne_self_eq_false, Bool.false_or] at hc
      exact Nat.add_lt_add_of_le_of_lt (hlack labels) (h.gap_lt labels (hwithin hl) hc)
    · have hlt := h₁.lacking_lt hu (hl i List.mem_cons_self x hx) hn hx'
      have hle := Finset.card_le_card (h₂.lacking_subset h₁.valid labels i.within)
      exact Nat.add_lt_add_of_lt_of_le (hle.trans_lt hlt)
        ((h.gap_le labels).trans (h₁.gap_le hu labels is))
  · exact h.labels labels (hwithin hl) r (hkeep hl r hr)

/-- A round that begins with an inclusion that is refused. -/
theorem Round.refused (hu : u.Valid) (hg : u.Grows u') (hs : u'.substitution = u.substitution)
    (h : Round u' u'' is left changed) :
    Round u u'' (i :: is) left (u'.findRow i.within != u.findRow i.within || changed) := by
  have hfind : ∀ r, u'.findRow r = u.findRow r := fun r => by rw [findRow, hs, findRow]
  have hwithin : ∀ {labels : Finset String}, u.Within labels (i :: is) → u'.Within labels is :=
    fun hl _ hj => by
      rw [hfind]
      exact hl _ (List.mem_cons_of_mem _ hj)
  have hgap : ∀ labels, u'.gap labels is ≤ u.gap labels (i :: is) := fun labels =>
    (hg.gap_le hu labels is).trans (Nat.le_add_left _ _)
  rw [hfind, bne_self_eq_false, Bool.false_or]
  refine ⟨fun hc => ?_, fun labels => (h.gap_le labels).trans (hgap labels),
    fun labels hl hc => (h.gap_lt labels (hwithin hl) hc).trans_le (hgap labels),
    fun labels hl r hr => h.labels labels (hwithin hl) r (hfind r ▸ hr)⟩
  obtain ⟨hs', hall⟩ := h.still hc
  exact ⟨hs'.trans hs, hall⟩

end

section

variable {τ : Type}

/-- A round of labels flowing drops the inclusions that it refuses. -/
theorem flowOnce_settles (hu : u.Valid) {is : List (τ × Inclusion)} (his : ∀ i ∈ is, u.Made i.2) :
    u.Does (flowOnce (unmarked is)) (fun r u' => ∃ left refused, Settles u u' is left refused ∧
      r.1 = unmarked left ∧ u'.pending = u.pending ∧
      Round u u' (unmarked is) (unmarked left) r.2) := by
  induction is generalizing u with
  | nil =>
    refine .pure hu ⟨[], [], settles_nothing rfl [], rfl, rfl, ?_⟩
    exact ⟨fun _ => ⟨rfl, by simp [AllFlow]⟩, fun _ => Nat.le_refl _, fun _ _ h => absurd h nofun,
      fun _ _ _ => id⟩
  | cons i is ih =>
    simp only [List.mem_cons, forall_eq_or_imp] at his
    rw [unmarked, List.map_cons]
    unfold flowOnce
    refine .get_bind (((includeLabels_changesRows _ _).leavesInclusions.does
      (includeLabels_does hu i.2.row his.1.2)).bind fun missing u₁ h₁ hflow => ?_)
    obtain ⟨hsame, hempty, hmissing, hchange, hlabels⟩ := hflow
    dsimp only
    split
    · rename_i he
      refine .get_bind ((ih h₁.valid (fun j hj => (his.2 j hj).grows h₁.toGrows)).bind
        fun r u₂ h₂ hrest => ?_)
      obtain ⟨left, refused, hsettles, hleft, hpending, hround⟩ := hrest
      refine .pure h₂.valid ⟨i :: left, refused, ?_, ?_, ?_, ?_⟩
      · exact ((settles_nothing hsame.mismatches is).trans h₁.valid h₂.toGrows hsettles).kept i
      · rw [hleft]
        rfl
      · rw [hpending, hsame.pending]
      · exact hround.kept hu h₁.toGrows h₂.toGrows (hempty he) hchange hlabels
    · rename_i hne
      obtain ⟨rfl, hrefuses⟩ := hmissing hne
      refine (reportMissing_does hu missing i.2).bind fun _ u₂ h₂ hreport => ?_
      obtain ⟨hs, hp, d, hd, hm⟩ := hreport
      refine .get_bind ((ih h₂.valid (fun j hj => (his.2 j hj).grows h₂.toGrows)).bind
        fun r u₃ h₃ hrest => ?_)
      obtain ⟨left, refused, hsettles, hleft, hpending, hround⟩ := hrest
      refine .pure h₃.valid ⟨left, i :: refused, ?_, hleft, hpending.trans hp, ?_⟩
      · exact (settles_refused hd hm (hrefuses.grows hu h₂.toGrows)).trans h₂.valid h₃.toGrows
          hsettles
      · exact hround.refused hu h₂.toGrows hs

/-- Labels flow until all have flowed, if there are more rounds than labels that can be gained. -/
theorem flow_settles (hu : u.Valid) (n : Nat) {is : List (τ × Inclusion)}
    (his : ∀ i ∈ is, u.Made i.2) :
    u.Does (flow n (unmarked is)) (fun r u' => ∃ left refused, Settles u u' is left refused ∧
      r = unmarked left ∧ u'.pending = u.pending ∧
      ∀ labels, u.Within labels (unmarked is) → u.gap labels (unmarked is) < n →
        u'.AllFlow (unmarked left)) := by
  induction n generalizing u is with
  | zero =>
    exact .pure hu ⟨is, [], settles_nothing rfl is, rfl, rfl, fun _ _ h => absurd h (by simp)⟩
  | succ n ih =>
    unfold flow
    refine (flowOnce_settles hu his).bind fun r u₁ h₁ honce => ?_
    obtain ⟨left, refused, hsettles, hleft, hpending, hround⟩ := honce
    dsimp only
    split
    · rename_i hchanged
      rw [hleft]
      refine (ih h₁.valid fun i hi => (his i (hsettles.mem hi)).grows h₁.toGrows).imp
        fun r' u₂ h₂ hrest => ?_
      obtain ⟨left', refused', hsettles', hleft', hpending', hall⟩ := hrest
      refine ⟨left', refused ++ refused', hsettles.trans h₁.valid h₂.toGrows hsettles', hleft',
        hpending'.trans hpending, fun labels hl hn => hall labels (fun i hi => ?_) ?_⟩
      · obtain ⟨j, hj, rfl⟩ := List.mem_map.1 hi
        have hmem : j.2 ∈ unmarked is := List.mem_map_of_mem (hsettles.mem hj)
        exact hround.labels labels hl j.2.row (hl j.2 hmem)
      · have := hround.gap_lt labels hl hchanged
        omega
    · rename_i hchanged
      refine .pure h₁.valid ⟨left, refused, hsettles, hleft, hpending, fun _ _ _ => ?_⟩
      exact (hround.still (by simpa using hchanged)).2

end

/-- There are enough rounds. -/
theorem gap_lt_flowBound (u : Unifier) (is : List Inclusion) :
    ∃ labels, u.Within labels is ∧ u.gap labels is < u.flowBound is := by
  refine ⟨(SortedSet.ofList (is.flatMap (fun i => (u.findRow i.row).labels.toList))).toList.toFinset,
    fun i hi x hx => ?_, ?_⟩
  · rw [List.mem_toFinset, ← SortedSet.mem_def, SortedSet.mem_ofList, List.mem_flatMap]
    exact ⟨i, hi, hx⟩
  · refine Nat.lt_succ_of_le ((u.gap_le_mul _ is).trans (Nat.mul_le_mul_left _ ?_))
    exact List.toFinset_card_le _

/-! ## Tails -/

/-- Binding a tail to a row without labels lets no label flow. -/
theorem Grows.labels_of_bound (h : u.Grows u') (hu : u.Valid) {v : RowVar} {t : Option RowVar}
    (hs : u'.substitution = u.substitution.bindRow v ⟨∅, t⟩)
    (ht : ∀ w, t = some w → u'.substitution.row? w = none) (r : Row) :
    (u'.findRow r).labels = (u.findRow r).labels := by
  by_cases hv : (u.findRow r).tail = some v
  · have hb := by simpa using congrArg (fun s => s.row? v) hs
    rw [h.findRow_of_bound hu hv hb ht]
    exact SortedSet.ext_mem (by simp)
  · cases hw : (u.findRow r).tail with
    | none => rw [h.findRow_of_closed hu hw]
    | some w =>
      rw [h.tail_findRow_of_unbound hu hw]
      rw [hs, Substitution.row?_bindRow, if_neg (fun e : v = w => hv (e ▸ hw))]
      exact hu.acyclic.row?_tail_findRow hw

/-- Once labels have flowed, identifying tails makes inclusions hold, and lets no label flow. -/
theorem identifyTail_does (hu : u.Valid) {i : Inclusion} (hi : u.Made i) :
    u.Does (identifyTail i) (fun _ u' => (∀ r, (u'.findRow r).labels = (u.findRow r).labels) ∧
      (u.Flows i.row i.within → u'.Honours i.row i.within)) := by
  unfold identifyTail
  refine .get_bind (.get_bind ?_)
  dsimp only
  split
  · rename_i ht
    exact .pure hu ⟨fun _ => rfl, fun h => ⟨h, fun v hv => by rw [ht] at hv; cases hv⟩⟩
  · rename_i v hv
    split
    · rename_i hw
      exact .pure hu ⟨fun _ => rfl, fun h => ⟨h, fun x hx => by rw [hw, ← hv, hx]⟩⟩
    · rename_i hne
      have hunbound : ∀ w, (u.findRow i.within).tail = some w →
          u.substitution.row? w = none ∧ w ≠ v ∧ w < u.rowCount := fun w hw =>
        ⟨hu.acyclic.row?_tail_findRow hw, fun e => hne (e ▸ hw),
          hu.substitution.findRow_below hi.2 w hw⟩
      refine (bindRowVar_does (b := ⟨∅, _⟩) hu (hu.acyclic.row?_tail_findRow hv)
        (hu.substitution.findRow_below hi.1 v hv) hunbound).imp fun _ u' h hs => ?_
      have hfree : ∀ w, (u.findRow i.within).tail = some w → u'.substitution.row? w = none := by
        intro w hw
        rw [hs, Substitution.row?_bindRow, if_neg (hunbound w hw).2.1.symm]
        exact (hunbound w hw).1
      have hlabels := h.labels_of_bound hu hs hfree
      refine ⟨hlabels, fun hflows => ⟨fun x hx => ?_, fun w hw => ?_⟩⟩
      · rw [hlabels] at hx ⊢
        exact hflows x hx
      · have hb := by simpa using congrArg (fun s => s.row? v) hs
        rw [h.findRow_of_bound hu hv hb hfree] at hw
        have hw : (u.findRow i.within).tail = some w := hw
        rw [h.tail_findRow_of_unbound hu hw (hfree w hw), hw]

theorem identifyTails_does (hu : u.Valid) {is : List Inclusion} (his : ∀ i ∈ is, u.Made i) :
    u.Does (forIn is PUnit.unit fun i _ => do
      identifyTail i
      pure (ForInStep.yield PUnit.unit)) (fun _ u' => u.AllFlow is →
        ∀ i ∈ is, u'.Honours i.row i.within) := by
  induction is generalizing u with
  | nil => exact .pure hu fun _ => by simp
  | cons i is ih =>
    simp only [List.mem_cons, forall_eq_or_imp] at his
    rw [List.forIn_cons]
    have hstep : u.Does (do
        identifyTail i
        pure (ForInStep.yield PUnit.unit)) (fun r u' => r = ForInStep.yield PUnit.unit ∧
          (∀ r, (u'.findRow r).labels = (u.findRow r).labels) ∧
          (u.Flows i.row i.within → u'.Honours i.row i.within)) :=
      (identifyTail_does hu his.1).bind fun _ u₁ h₁ h => .pure h₁.valid ⟨rfl, h⟩
    refine hstep.bind fun r u₁ h₁ hident => ?_
    obtain ⟨rfl, hlabels, hhonours⟩ := hident
    refine (ih h₁.valid fun j hj => (his.2 j hj).grows h₁.toGrows).imp
      fun _ u₂ h₂ hrest hall => ?_
    simp only [AllFlow, List.mem_cons, forall_eq_or_imp] at hall ⊢
    refine ⟨(hhonours hall.1).grows h₁.valid h₂.toGrows, hrest fun j hj x hx => ?_⟩
    rw [hlabels] at hx ⊢
    exact hall.2 j hj x hx

/-- Letting labels flow and then identifying tails refuses some inclusions, and makes the others
hold. -/
theorem inclusions_settle {τ : Type} (hu : u.Valid) {is : List (τ × Inclusion)}
    (his : ∀ i ∈ is, u.Made i.2) :
    u.Does (do
      let left ← flow (flowBound (← get) (unmarked is)) (unmarked is)
      for i in left do
        identifyTail i) (fun _ u' => u'.pending = u.pending ∧ ∃ left refused,
          Settles u u' is left refused ∧ ∀ i ∈ left, u'.Honours i.2.row i.2.within) := by
  refine .get_bind ((flow_settles hu _ his).bind fun r u₁ h₁ hflow => ?_)
  obtain ⟨left, refused, hsettles, rfl, hpending, hall⟩ := hflow
  have hmade : ∀ i ∈ unmarked left, u₁.Made i := by
    intro i hi
    obtain ⟨j, hj, rfl⟩ := List.mem_map.1 hi
    exact (his j (hsettles.mem hj)).grows h₁.toGrows
  refine ((Moves.forIn (fun i => (identifyTail_changesRows i).leavesInclusions) _).does
    (identifyTails_does h₁.valid hmade)).imp fun _ u₂ h₂ hident => ?_
  obtain ⟨hsame, hhonours⟩ := hident
  obtain ⟨labels, hlabels, hgap⟩ := u.gap_lt_flowBound (unmarked is)
  refine ⟨hsame.pending.trans hpending, left, refused, ?_, fun i hi =>
    hhonours (hall labels hlabels hgap) i.2 (List.mem_map_of_mem hi)⟩
  have hlast : Settles u₁ u₂ left left [] := settles_nothing hsame.mismatches left
  simpa using hsettles.trans h₁.valid h₂.toGrows hlast

/-- The inclusions that have waited were made. -/
theorem Valid.made_pending (hu : u.Valid) :
    ∀ i ∈ u.pending.filterMap Constraint.inclusion?, u.Made i := by
  intro i hi
  obtain ⟨c, hc, he⟩ := List.mem_filterMap.1 hi
  have hbelow := hu.pending c hc
  cases c <;> cases he
  exact hbelow

/-- The end of a pass refuses some of the inclusions that have waited, and makes the others hold. -/
theorem finish_settles {τ : Type} (hu : u.Valid) {is : List (τ × Inclusion)}
    (his : u.pending.filterMap Constraint.inclusion? = unmarked is) :
    u.Grows (finish u).2 ∧ (finish u).2.pending = [] ∧ ∃ left refused,
      Settles u (finish u).2 is left refused ∧
      ∀ i ∈ left, (finish u).2.Honours i.2.row i.2.within := by
  have h₀ : u.Grows { u with pending := [] } :=
    hu.grows_of_eq rfl (by simp) (List.prefix_refl _)
  have hmade : ∀ i ∈ is, u.Made i.2 := fun i hi =>
    hu.made_pending _ (his ▸ List.mem_map_of_mem hi)
  have hdoes : Does { u with pending := [] } (do
      let inclusions ← takePending u.pending
      let inclusions ← flow (flowBound (← get) inclusions) inclusions
      for i in inclusions do
        identifyTail i) (fun _ u' => u'.pending = [] ∧ ∃ left refused,
          Settles u u' is left refused ∧ ∀ i ∈ left, u'.Honours i.2.row i.2.within) := by
    refine (takePending_does h₀.valid hu.pending).bind fun js u₁ h₁ htake => ?_
    obtain ⟨hsame, rfl⟩ := htake
    rw [his]
    refine (inclusions_settle h₁.valid fun i hi => (hmade i hi).grows (h₀.trans h₁.toGrows)).imp
      fun _ u₂ h₂ hsettle => ?_
    obtain ⟨hpending, left, refused, hsettles, hhonours⟩ := hsettle
    refine ⟨hpending.trans hsame.pending, left, refused, ?_, hhonours⟩
    have hfirst : Settles u u₁ is is [] := settles_nothing (u := u) hsame.mismatches is
    exact hfirst.trans h₁.valid h₂.toGrows hsettles
  exact ⟨h₀.trans hdoes.1.toGrows, hdoes.2⟩

/-- At the end of a pass without errors, all inclusions hold that have waited. -/
theorem finish_grows (hu : u.Valid) :
    u.Grows (finish u).2 ∧ ((finish u).2.errors = u.errors →
      ∀ row within why, .inclusion row within why ∈ u.pending →
        (finish u).2.Honours row within) := by
  have hunmarked : u.pending.filterMap Constraint.inclusion? =
      unmarked ((u.pending.filterMap Constraint.inclusion?).map fun i => ((), i)) := by simp
  obtain ⟨hg, -, left, refused, hsettles, hhonours⟩ := finish_settles hu hunmarked
  refine ⟨hg, fun he row within why hmem => ?_⟩
  obtain ⟨ds, hds, hall⟩ := hsettles.reported
  rw [mismatches, he, mismatches, List.self_eq_append_right] at hds
  subst hds
  obtain rfl := List.forall₂_nil_right_iff.1 hall
  refine hhonours ((), ⟨row, within, why⟩) ?_
  have hperm := hsettles.perm
  rw [List.append_nil] at hperm
  exact hperm.mem_iff.1 (List.mem_map_of_mem (List.mem_filterMap.2 ⟨_, hmem, rfl⟩))

end Unifier

end RowCheck
