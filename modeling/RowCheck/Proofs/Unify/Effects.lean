import RowCheck.Proofs.Unify.Errors
import RowCheck.Proofs.Unify.Solve

/-!
Effect inclusions. An inclusion that is required holds, is refused with a report, or waits for the
end of the pass. One that holds goes on to hold, and one that is refused never holds.
-/
namespace RowCheck

/-- Whether a diagnostic reports that an inclusion is refused. -/
def Inclusion.Reported (i : Inclusion) (d : Diagnostic) : Prop :=
  ∃ message, d = i.why.reportWithHelp .effectMismatch message

namespace Unifier

variable {u u' u'' : Unifier}

/-- Whether one row has all labels of another one. -/
def Flows (u : Unifier) (row within : Row) : Prop :=
  ∀ x ∈ (u.findRow row).labels, x ∈ (u.findRow within).labels

/-- Whether one row includes another one for good: it has its labels, and the other one is closed or
has the same tail. -/
structure Honours (u : Unifier) (row within : Row) : Prop where
  flows : u.Flows row within
  tail : ∀ v, (u.findRow row).tail = some v → (u.findRow within).tail = some v

theorem Grows.tail_findRow_of_unbound (h : u.Grows u') (hu : u.Valid) {r : Row} {v : RowVar}
    (ht : (u.findRow r).tail = some v) (hv : u'.substitution.row? v = none) :
    u'.findRow r = u.findRow r := by
  rw [← h.findRow hu r]
  exact Substitution.findRow_unbound ht hv

theorem Grows.mem_labels (h : u.Grows u') (hu : u.Valid) {r : Row} {x : String}
    (hx : x ∈ (u.findRow r).labels) : x ∈ (u'.findRow r).labels := by
  rw [← h.findRow hu r]
  exact Substitution.mem_labels_findRow hx

/-- An inclusion that holds goes on to hold. -/
theorem Honours.grows {row within : Row} (h : u.Honours row within) (hu : u.Valid)
    (hg : u.Grows u') : u'.Honours row within := by
  have hrow := hg.findRow hu row
  have hwithin := hg.findRow hu within
  rw [findRow] at hrow hwithin
  cases ht : (u.findRow row).tail with
  | none =>
    rw [Substitution.findRow_closed ht] at hrow
    refine ⟨fun x hx => ?_, fun v hv => ?_⟩
    · rw [← hwithin]
      exact Substitution.mem_labels_findRow (h.flows x (hrow ▸ hx))
    · rw [← hrow, ht] at hv
      cases hv
  | some v =>
    rw [Substitution.findRow_eq_extend ht] at hrow
    rw [Substitution.findRow_eq_extend (h.tail v ht)] at hwithin
    refine ⟨fun x hx => ?_, fun w hw => ?_⟩
    · rw [← hrow, Row.mem_extend] at hx
      rw [← hwithin, Row.mem_extend]
      exact hx.imp_left (h.flows x)
    · rw [← hrow] at hw
      rw [← hwithin]
      exact hw

/-- Whether one row never includes another one: it is closed, and lacks one of its labels. -/
def Refuses (u : Unifier) (row within : Row) : Prop :=
  (u.findRow within).tail = none ∧ ∃ x ∈ (u.findRow row).labels, x ∉ (u.findRow within).labels

/-- An inclusion that is refused goes on to be refused. -/
theorem Refuses.grows {row within : Row} (h : u.Refuses row within) (hu : u.Valid)
    (hg : u.Grows u') : u'.Refuses row within := by
  obtain ⟨ht, x, hx, hn⟩ := h
  rw [Refuses, hg.findRow_of_closed hu ht]
  exact ⟨ht, x, hg.mem_labels hu hx, hn⟩

theorem Refuses.not_honours {row within : Row} (h : u.Refuses row within) :
    ¬ u.Honours row within := by
  obtain ⟨-, x, hx, hn⟩ := h
  exact fun hh => hn (hh.flows x hx)

/-- An action of a kind does what it does and is of that kind. -/
theorem Moves.does {α : Type} {m : UnifyM α} {R : Unifier → Unifier → Prop}
    {Q : α → Unifier → Prop} (hm : Moves R m) (h : u.Does m Q) :
    u.Does m (fun a u' => R u u' ∧ Q a u') := ⟨h.1, hm.moves u, h.2⟩

/-! ## Labels -/

/-- Letting labels flow changes nothing, or gives the including row a label that it lacked. It fails
only if the including row is closed. -/
theorem includeLabels_does (hu : u.Valid) (row : Row) {within : Row}
    (hw : within.Below u.rowCount) :
    u.Does (includeLabels row within) (fun missing u' =>
      (missing.isEmpty = true → u'.Flows row within) ∧
      (missing.isEmpty ≠ true → u' = u ∧ u.Refuses row within) ∧
      (u' = u ∨ ∃ x ∈ (u.findRow row).labels, x ∉ (u.findRow within).labels ∧
        x ∈ (u'.findRow within).labels) ∧
      (∀ r x, x ∈ (u'.findRow r).labels →
        x ∈ (u.findRow r).labels ∨ x ∈ (u.findRow row).labels)) := by
  unfold includeLabels
  refine .get_bind (.get_bind ?_)
  dsimp only
  split
  · rename_i h
    rw [SortedSet.isEmpty_diff] at h
    exact .pure hu ⟨fun _ => h, fun hne => absurd rfl hne, .inl rfl, fun _ _ => .inl⟩
  · rename_i hmissing
    have hlack := hmissing
    rw [SortedSet.isEmpty_diff] at hlack
    push Not at hlack
    obtain ⟨x, hx, hn⟩ := hlack
    split
    · rename_i v hv
      have hvlt := hu.substitution.findRow_below hw v hv
      refine (freshRowVar_does hu).bind fun rest u₁ h₁ hrest => ?_
      obtain ⟨rfl, hlt, hunbound, hrows, -⟩ := hrest
      refine (bindRowVar_does h₁.valid (v := v) ?_ ?_ ?_).bind fun _ u₂ h₂ e₂ => ?_
      · rw [hrows]
        exact hu.acyclic.row?_tail_findRow hv
      · exact hvlt.trans_le h₁.rows
      · rintro x hx
        cases hx
        exact ⟨hunbound, Nat.ne_of_gt hvlt, hlt⟩
      have hrest₂ : u₂.substitution.row? u.rowCount = none := by
        rw [e₂, Substitution.row?_bindRow, if_neg (Nat.ne_of_lt hvlt), hunbound]
      have hv₂ := by simpa using congrArg (fun s => s.row? v) e₂
      have hgrown : ∀ {r : Row}, (u.findRow r).tail = some v → u₂.findRow r =
          (⟨(u.findRow row).labels.diff (u.findRow within).labels, some u.rowCount⟩ : Row).extend
            (u.findRow r).labels := fun ht =>
        (h₁.trans h₂).findRow_of_bound hu ht hv₂ fun x hx => by
          cases hx
          exact hrest₂
      have hsame : ∀ {r : Row}, (u.findRow r).tail ≠ some v → u₂.findRow r = u.findRow r := by
        intro r hne
        cases ht : (u.findRow r).tail with
        | none => exact (h₁.trans h₂).findRow_of_closed hu ht
        | some w =>
          refine (h₁.trans h₂).tail_findRow_of_unbound hu ht ?_
          rw [e₂, Substitution.row?_bindRow, if_neg (fun h : v = w => hne (h ▸ ht)), hrows]
          exact hu.acyclic.row?_tail_findRow ht
      have hlabels : ∀ r x, x ∈ (u₂.findRow r).labels →
          x ∈ (u.findRow r).labels ∨ x ∈ (u.findRow row).labels := by
        intro r x hx
        by_cases ht : (u.findRow r).tail = some v
        · rw [hgrown ht, Row.mem_extend, SortedSet.mem_diff] at hx
          exact hx.imp_right And.left
        · exact .inl (hsame ht ▸ hx)
      have hflows : u₂.Flows row within := fun x hx => by
        rw [hgrown hv, Row.mem_extend, SortedSet.mem_diff]
        have hx := (hlabels row x hx).elim id id
        tauto
      refine .pure h₂.valid ⟨fun _ => hflows, fun hne => absurd rfl hne, .inr ?_, hlabels⟩
      exact ⟨x, hx, hn, hflows x ((h₁.trans h₂).mem_labels hu hx)⟩
    · rename_i hclosed
      exact .pure hu ⟨fun h => absurd h hmissing, fun _ => ⟨rfl, hclosed, x, hx, hn⟩, .inl rfl,
        fun _ _ => .inl⟩

theorem mismatches_report (u : Unifier) {d : Diagnostic} (h : d.category = .effectMismatch) :
    mismatches { u with errors := u.errors ++ [d] } = u.mismatches ++ [d] := by
  rw [mismatches, List.filter_append, List.filter_cons_of_pos (by simpa using h)]
  rfl

theorem report_reported (hu : u.Valid) (i : Inclusion) (message : String) :
    u.Does (report (i.why.reportWithHelp .effectMismatch message)) (fun _ u' =>
      u'.substitution = u.substitution ∧ u'.pending = u.pending ∧
      ∃ d, i.Reported d ∧ u'.mismatches = u.mismatches ++ [d]) :=
  ⟨(report_does hu _).1, rfl, rfl, _, ⟨message, rfl⟩,
    mismatches_report u (category_reportWithHelp ..)⟩

theorem reportMissing_does (hu : u.Valid) (missing : SortedSet String) (i : Inclusion) :
    u.Does (reportMissing missing i.within i.why) (fun _ u' =>
      u'.substitution = u.substitution ∧ u'.pending = u.pending ∧
      ∃ d, i.Reported d ∧ u'.mismatches = u.mismatches ++ [d]) :=
  .get_bind (report_reported hu i _)

/-- What becomes of an inclusion that is required: it holds, or it waits, or it is refused and that is
reported. -/
theorem includeRow_settles (hu : u.Valid) {i : Inclusion} (hr : i.row.Below u.rowCount)
    (hw : i.within.Below u.rowCount) :
    u.Does (includeRow i.row i.within i.why) (fun _ u' =>
      (u'.Honours i.row i.within ∧ u'.pending = u.pending ∧ u'.mismatches = u.mismatches) ∨
      (u'.pending = u.pending ++ [.inclusion i.row i.within i.why] ∧
        u'.mismatches = u.mismatches) ∨
      (u'.Refuses i.row i.within ∧ u'.pending = u.pending ∧
        ∃ d, i.Reported d ∧ u'.mismatches = u.mismatches ++ [d])) := by
  unfold includeRow
  refine ((includeLabels_changesRows _ _).leavesInclusions.does
    (includeLabels_does hu i.row hw)).bind fun missing u₁ h₁ hflow => ?_
  obtain ⟨hsame, hempty, hmissing, -⟩ := hflow
  split
  · rename_i he
    refine .get_bind ?_
    split
    · rename_i ht
      refine .pure h₁.valid (.inl ⟨⟨hempty he, fun v hv => ?_⟩, hsame.pending, hsame.mismatches⟩)
      rw [ht] at hv
      cases hv
    · rename_i v ht
      refine .get_bind ?_
      split
      · rename_i hv
        refine .pure h₁.valid (.inl ⟨⟨hempty he, fun w hw => ?_⟩, hsame.pending, hsame.mismatches⟩)
        rw [hv, ← ht, hw]
      · refine (defer_does h₁.valid (c := .inclusion i.row i.within i.why)
          ⟨hr.mono h₁.rows, hw.mono h₁.rows⟩).imp fun _ u₂ _ h => .inr (.inl ?_)
        subst h
        exact ⟨by rw [← hsame.pending], hsame.mismatches⟩
  · rename_i hne
    obtain ⟨rfl, hrefuses⟩ := hmissing hne
    refine (reportMissing_does hu missing i).imp fun _ u₂ h₂ h => .inr (.inr ?_)
    exact ⟨hrefuses.grows hu h₂.toGrows, h.2⟩

/-- An inclusion that was required without an error holds or waits. -/
theorem includeRow_does (hu : u.Valid) {row within : Row} (hr : row.Below u.rowCount)
    (hw : within.Below u.rowCount) (why : Provenance) :
    u.Does (includeRow row within why) (fun _ u' => u'.errors = u.errors →
      u'.Honours row within ∨ .inclusion row within why ∈ u'.pending) := by
  refine (includeRow_settles (i := ⟨row, within, why⟩) hu hr hw).imp fun _ u' _ h he => ?_
  rcases h with h | h | ⟨-, -, d, -, hd⟩
  · exact .inl h.1
  · exact .inr (h.1 ▸ List.mem_append_right _ List.mem_cons_self)
  · rw [mismatches, he] at hd
    simpa [mismatches] using congrArg List.length hd

theorem constrain_does (hu : u.Valid) {c : Constraint} (hc : c.Below u.rowCount) :
    u.Does (constrain c) (fun _ _ => True) := by
  cases c with
  | equal a b why => exact (unify_does hu hc.1 hc.2 why).imp fun _ _ _ _ => trivial
  | inclusion row within why =>
    exact (includeRow_does hu hc.1 hc.2 why).imp fun _ _ _ _ => trivial
  | numeric t why => exact (requireNumeric_does hu hc why).imp fun _ _ _ _ => trivial

end Unifier

end RowCheck
