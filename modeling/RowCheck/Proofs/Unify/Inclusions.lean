import RowCheck.Proofs.Unify.Runs

/-!
Inclusions over a whole pass. At every moment, each inclusion that was asked for holds, or waits, or
is refused and reported; no operation changes that, and the end of a pass leaves nothing to wait.
-/
namespace RowCheck

namespace PassOp

/-- The inclusion that an operation asks for. -/
def inclusion? : PassOp → Option Inclusion
  | .include row within why => some ⟨row, within, why⟩
  | _ => none

theorem inclusion?_eq_some {op : PassOp} {i : Inclusion} :
    op.inclusion? = some i ↔ op = .include i.row i.within i.why := by
  constructor
  · intro h
    cases op <;> cases h
    rfl
  · rintro rfl
    rfl

/-- The inclusions that some operations ask for, each with the position of the operation. -/
def calls (ops : List PassOp) : List (Nat × Inclusion) :=
  ops.zipIdx.filterMap (fun (op, n) => op.inclusion?.map (fun i => (n, i)))

theorem mem_calls {ops : List PassOp} {n : Nat} {i : Inclusion} :
    (n, i) ∈ calls ops ↔ ops[n]? = some (.include i.row i.within i.why) := by
  simp only [calls, List.mem_filterMap, Option.map_eq_some_iff, Prod.mk.injEq, Prod.exists,
    inclusion?_eq_some]
  constructor
  · rintro ⟨op, m, hmem, j, rfl, rfl, rfl⟩
    exact List.mem_zipIdx_iff_getElem?.1 hmem
  · intro h
    exact ⟨_, n, List.mem_zipIdx_iff_getElem?.2 h, i, rfl, rfl, rfl⟩

theorem calls_concat (ops : List PassOp) (op : PassOp) :
    calls (ops ++ [op]) = calls ops ++ (op.inclusion?.map (fun i => (ops.length, i))).toList := by
  rw [calls, List.zipIdx_append, List.filterMap_append, ← calls]
  cases h : op.inclusion? <;> simp [h]

/-- No two inclusions are asked for at one position. -/
theorem nodup_calls (ops : List PassOp) : ((calls ops).map Prod.fst).Nodup := by
  induction ops using List.reverseRecOn with
  | nil => exact .nil
  | append_singleton ops op ih =>
    rw [calls_concat, List.map_append]
    refine List.nodup_append.2 ⟨ih, by cases op.inclusion? <;> simp, fun n hn m hm => ?_⟩
    obtain ⟨⟨n, i⟩, hmem, rfl⟩ := List.mem_map.1 hn
    have hlt : n < ops.length := (List.getElem?_eq_some_iff.1 (mem_calls.1 hmem)).1
    cases h : op.inclusion? with
    | none => simp [h] at hm
    | some j =>
      obtain rfl : m = ops.length := by simpa [h] using hm
      exact Nat.ne_of_lt hlt

end PassOp

namespace Unifier

variable {u : Unifier}

/-- The account of the inclusions that were asked for up to a state. -/
structure Accounts (u : Unifier) (calls held waiting refused : List (Nat × Inclusion)) : Prop where
  perm : calls.Perm (held ++ waiting ++ refused)
  holds : ∀ i ∈ held, u.Honours i.2.row i.2.within
  waits : u.pending = waiting.map (fun i => .inclusion i.2.row i.2.within i.2.why)
  refuses : ∀ i ∈ refused, u.Refuses i.2.row i.2.within
  reported : List.Forall₂ (fun i d => Inclusion.Reported i.2 d) refused u.mismatches

variable {calls held waiting refused : List (Nat × Inclusion)} {op : PassOp} {ops : List PassOp}

/-- An operation that has nothing to do with inclusions changes nothing in the account. -/
theorem Accounts.same {u' : Unifier} (h : u.Accounts calls held waiting refused) (hu : u.Valid)
    (hg : u.Grows u') (hs : SameInclusions u u') : u'.Accounts calls held waiting refused where
  perm := h.perm
  holds i hi := (h.holds i hi).grows hu hg
  waits := hs.pending.trans h.waits
  refuses i hi := (h.refuses i hi).grows hu hg
  reported := hs.mismatches ▸ h.reported

/-- The account after one more inclusion is asked for. -/
theorem Accounts.includeRow (h : u.Accounts calls held waiting refused) (hu : u.Valid)
    {i : Inclusion} (hr : i.row.Below u.rowCount) (hw : i.within.Below u.rowCount) (n : Nat) :
    ∃ held waiting refused, (includeRow i.row i.within i.why u).2.Accounts (calls ++ [(n, i)])
      held waiting refused := by
  obtain ⟨hadv, hsettles⟩ := includeRow_settles hu hr hw
  have hheld := fun j hj => (h.holds j hj).grows hu hadv.toGrows
  have hrefused := fun j hj => (h.refuses j hj).grows hu hadv.toGrows
  have hperm := h.perm.append_right [(n, i)]
  rcases hsettles with ⟨hh, hp, hm⟩ | ⟨hp, hm⟩ | ⟨hh, hp, d, hd, hm⟩
  · refine ⟨(n, i) :: held, waiting, refused, ?_, ?_, hp.trans h.waits, hrefused, hm ▸ h.reported⟩
    · exact hperm.trans (List.perm_append_singleton _ _)
    · simpa using ⟨hh, fun a b => hheld (a, b)⟩
  · refine ⟨held, waiting ++ [(n, i)], refused, ?_, hheld, ?_, hrefused, hm ▸ h.reported⟩
    · refine hperm.trans ?_
      simp only [List.append_assoc]
      exact (List.perm_append_comm.append_left waiting).append_left held
    · rw [hp, h.waits, List.map_append]
      rfl
  · refine ⟨held, waiting, refused ++ [(n, i)], ?_, hheld, hp.trans h.waits, ?_, ?_⟩
    · rwa [List.append_assoc] at hperm
    · intro j hj
      rcases List.mem_append.1 hj with hj | hj
      · exact hrefused j hj
      · exact List.mem_singleton.1 hj ▸ hh
    · exact hm ▸ List.rel_append h.reported (.cons hd .nil)

/-- At the end of a pass nothing waits any more. -/
theorem Accounts.finish (h : u.Accounts calls held waiting refused) (hu : u.Valid) :
    ∃ held refused, (finish u).2.Accounts calls held [] refused := by
  have hwaiting : u.pending.filterMap Constraint.inclusion? = unmarked waiting := by
    rw [h.waits, List.filterMap_map]
    show waiting.filterMap (fun i => some i.2) = _
    rw [List.filterMap_eq_map']
  obtain ⟨hg, hp, left, dropped, hsettles, hhonours⟩ := finish_settles hu hwaiting
  obtain ⟨ds, hds, hall⟩ := hsettles.reported
  refine ⟨held ++ left, refused ++ dropped, ?_, ?_, hp, ?_, hds ▸ List.rel_append h.reported hall⟩
  · refine h.perm.trans (((hsettles.perm.append_left held).append_right refused).trans ?_)
    simp only [List.append_assoc, List.append_nil]
    exact (List.perm_append_comm.append_left left).append_left held
  · intro i hi
    rcases List.mem_append.1 hi with hi | hi
    · exact (h.holds i hi).grows hu hg
    · exact hhonours i hi
  · intro i hi
    rcases List.mem_append.1 hi with hi | hi
    · exact (h.refuses i hi).grows hu hg
    · exact hsettles.refuses i hi

end Unifier

namespace PassOp

open Unifier

/-- Every operation keeps account. -/
theorem step_accounts {u : Unifier} (hu : u.Valid) {ops : List PassOp} {op : PassOp}
    (hop : op.Made u) (h : ∃ held waiting refused, u.Accounts (calls ops) held waiting refused) :
    ∃ held waiting refused, (op.step u).Accounts (calls (ops ++ [op])) held waiting refused := by
  obtain ⟨held, waiting, refused, h⟩ := h
  have other {α : Type} {m : UnifyM α} (hm : LeavesInclusions m) (hg : u.Grows (m u).2)
      (hnone : op.inclusion? = none) :
      ∃ held waiting refused, (m u).2.Accounts (calls (ops ++ [op])) held waiting refused := by
    rw [calls_concat, hnone]
    exact ⟨held, waiting, refused, by simpa using h.same hu hg (hm.moves u)⟩
  have hg := step_grows hu hop
  cases op with
  | freshTypeVar => exact other freshTypeVar_leavesInclusions hg rfl
  | freshRowVar => exact other freshRowVar_changesRows.leavesInclusions hg rfl
  | find t => exact other (find_leavesInclusions t) hg rfl
  | unify a b why => exact other (unify_leavesInclusions a b why) hg rfl
  | requireNumeric t why => exact other (requireNumeric_leavesInclusions t why) hg rfl
  | instantiate s span => exact other (instantiate_leavesInclusions s span) hg rfl
  | generalize t env topLevel => exact other (generalize_leavesInclusions t env topLevel) hg rfl
  | «include» row within why =>
    rw [calls_concat]
    exact h.includeRow (i := ⟨row, within, why⟩) hu hop.1 hop.2 ops.length
  | finish =>
    obtain ⟨held, refused, h⟩ := h.finish hu
    rw [calls_concat]
    refine ⟨held, [], refused, ?_⟩
    show (Unifier.finish u).2.Accounts (calls ops ++ []) held [] refused
    rwa [List.append_nil]

/-- At every moment of a pass, each inclusion that was asked for holds, or waits, or is refused. -/
theorem run_accounts {ops : List PassOp} (h : AllMade .empty ops) :
    ∃ held waiting refused,
      (run .empty ops).Accounts (calls ops) held waiting refused := by
  induction ops using List.reverseRecOn with
  | nil => exact ⟨[], [], [], .nil, by simp, rfl, by simp, .nil⟩
  | append_singleton ops op ih =>
    obtain ⟨hops, hop, -⟩ := allMade_append.1 h
    rw [run_concat]
    exact step_accounts (run_grows empty_valid hops).valid hop (ih hops)

end PassOp

/-- After the end of a pass, the effect mismatches belong one by one to the inclusions asked for that
do not hold, whatever has been done to their rows in the meantime. All others hold: the including row
has all labels of the row, and the row is closed or both have the same tail. -/
theorem inclusions_honoured {ops : List PassOp} (h : PassOp.AllMade .empty (ops ++ [.finish])) :
    ∃ refused : List Nat, refused.Nodup ∧
      List.Forall₂ (fun n d => ∃ row within why message,
          ops[n]? = some (.include row within why) ∧
          d = why.reportWithHelp .effectMismatch message)
        refused (PassOp.run .empty (ops ++ [.finish])).mismatches ∧
      ∀ n row within why, ops[n]? = some (.include row within why) →
        ((PassOp.run .empty (ops ++ [.finish])).Honours row within ↔ n ∉ refused) := by
  obtain ⟨hops, -, -⟩ := PassOp.allMade_append.1 h
  obtain ⟨held, waiting, refused, haccounts⟩ := PassOp.run_accounts hops
  obtain ⟨held, refused, hend⟩ :=
    haccounts.finish (PassOp.run_grows Unifier.empty_valid hops).valid
  rw [PassOp.run_concat]
  have hperm := hend.perm
  rw [List.append_nil] at hperm
  have hnodup : ((held ++ refused).map Prod.fst).Nodup :=
    (hperm.map Prod.fst).nodup_iff.1 (PassOp.nodup_calls ops)
  refine ⟨refused.map Prod.fst, ?_, ?_, fun n row within why hn =>
    ⟨fun hh hmem => ?_, fun hmem => ?_⟩⟩
  · rw [List.map_append] at hnodup
    exact (List.nodup_append.1 hnodup).2.1
  · obtain ⟨hlength, hall⟩ := List.forall₂_iff_zip.1 hend.reported
    refine List.forall₂_map_left_iff.2 (List.forall₂_iff_zip.2 ⟨hlength, fun {i d} hmem => ?_⟩)
    have hi := (List.of_mem_zip hmem).1
    have hcall := PassOp.mem_calls.1 (hperm.mem_iff.2 (List.mem_append_right _ hi))
    obtain ⟨message, hd⟩ := hall hmem
    exact ⟨_, _, _, message, hcall, hd⟩
  · obtain ⟨⟨m, i⟩, hi, rfl⟩ := List.mem_map.1 hmem
    have hcall := PassOp.mem_calls.1 (hperm.mem_iff.2 (List.mem_append_right _ hi))
    rw [hn] at hcall
    cases hcall
    exact (hend.refuses _ hi).not_honours hh
  · have hcall : (n, (⟨row, within, why⟩ : Inclusion)) ∈ PassOp.calls ops := PassOp.mem_calls.2 hn
    rcases List.mem_append.1 (hperm.mem_iff.1 hcall) with hi | hi
    · exact hend.holds _ hi
    · exact absurd (List.mem_map_of_mem hi) hmem

/-- A label arrives in an open row after the row was included twice: in an open row, which takes the
label, and in a closed one, which refuses it. -/
def lateLabel : List PassOp :=
  [.freshRowVar, .freshRowVar,
    .include (.ofVar 0) (.ofVar 1) (.of .synthetic .performedEffect),
    .include (.ofVar 0) (.closed ["net"]) (.of .synthetic .performedEffect),
    .include (.closed ["io"]) (.ofVar 0) (.of .synthetic .performedEffect)]

/-- The open row includes the label in the end, and the closed one is reported. -/
theorem lateLabel_honoured :
    (PassOp.run .empty (lateLabel ++ [.finish])).Honours (.ofVar 0) (.ofVar 1) ∧
    ¬ (PassOp.run .empty (lateLabel ++ [.finish])).Honours (.ofVar 0) (.closed ["net"]) ∧
    (PassOp.run .empty (lateLabel ++ [.finish])).mismatches.length = 1 := by
  have h : PassOp.AllMade .empty (lateLabel ++ [.finish]) :=
    ⟨trivial, trivial, ⟨by decide +kernel, by decide +kernel⟩,
      ⟨by decide +kernel, by decide +kernel⟩, ⟨by decide +kernel, by decide +kernel⟩, trivial,
      trivial⟩
  obtain ⟨refused, -, hreported, hall⟩ := inclusions_honoured h
  have hone : (PassOp.run .empty (lateLabel ++ [.finish])).mismatches.length = 1 := by
    decide +kernel
  have hnot : ¬ (PassOp.run .empty (lateLabel ++ [.finish])).Honours (.ofVar 0) (.closed ["net"]) :=
    fun hh => absurd (hh.flows "io" (by decide +kernel)) (by decide +kernel)
  have hmem : 3 ∈ refused := by_contra fun hn => hnot ((hall 3 _ _ _ rfl).2 hn)
  obtain ⟨n, rfl⟩ := List.length_eq_one_iff.1 (hreported.length_eq.trans hone)
  obtain rfl := List.mem_singleton.1 hmem
  exact ⟨(hall 2 _ _ _ rfl).2 (by decide), hnot, hone⟩

end RowCheck
