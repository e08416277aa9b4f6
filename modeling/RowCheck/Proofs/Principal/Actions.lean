import RowCheck.Proofs.Principal.Fitting
import RowCheck.Proofs.Unify.Rounds

/-!
The actions of a pass that cannot fail on the functional core: looking up the head of a type, making
variables, letting rows without labels flow, and the end of a pass. All of them find nothing out.
-/
namespace RowCheck
namespace Unifier

variable {D : TyVar → Prop} {u u' : Unifier} {f : TyVar → Ty}

/-! ## Heads and new variables -/

/-- Looking up the head of a type finds nothing out. -/
theorem find_idles (hu : u.Tidy D) {t : Ty} (ht : u.Owns D t) :
    Idles D u (find t u).2 ∧ (find t u).2.Owns D (find t u).1 ∧
      (∀ v, (find t u).1 = .var v → (find t u).2.substitution.type? v = none) ∧
      ∀ f, (find t u).2.Allows f → (find t u).1.under f = t.under f := by
  obtain ⟨hadv, hstay, hhead⟩ := find_staysIn hu.toHolds ht.live ht.below
  obtain ⟨-, heq, hsame, hunbound, hbelow, hrows⟩ := find_does hu.toValid ht.below
  have hspares := hstay.spares hu
  refine ⟨⟨⟨hspares, hadv.rows, hadv.refines⟩, hstay.errors, fun f hf => ?_⟩,
    ⟨hhead.mono hspares.count, hbelow⟩, hunbound, fun f hf => ?_⟩
  · exact hf.of_apply_eq hu.acyclic hadv.valid.acyclic hsame hrows
  · rw [← hf.under_apply hadv.valid, ← heq, hf.under_apply hadv.valid]

theorem freshTypeVar_idles (hu : u.Tidy D) :
    (freshTypeVar u).1 = u.typeCount ∧ (freshTypeVar u).2.typeCount = u.typeCount + 1 ∧
      Idles D u (freshTypeVar u).2 := by
  obtain ⟨hadv, -⟩ := freshTypeVar_does hu.toValid
  have htype : ∀ v, (freshTypeVar u).2.substitution.type? v = u.substitution.type? v :=
    Substitution.type?_freshType u.substitution
  have hcount : (freshTypeVar u).2.typeCount = u.typeCount + 1 := Array.size_push _
  have hle : u.typeCount ≤ (freshTypeVar u).2.typeCount := by omega
  refine ⟨rfl, hcount, ⟨⟨⟨⟨⟨hadv.valid, hu.numeric, hu.rows, fun v t hv ht => ?_⟩,
    fun v hv => (hu.dead v hv).trans_le hle, fun v t ht w hw => ?_, hu.waiting⟩, hle,
    fun v _ => htype v⟩, hadv.rows, hadv.refines⟩, rfl, fun f hf => hf.of_types htype⟩⟩
  · rw [htype] at ht
    have hlt : v < u.typeCount := Substitution.lt_size_of_type? ht
    exact (hu.bound v t (Ty.live_var.2 ⟨hlt, (Ty.live_var.1 hv).2⟩) ht).mono hle
  · exact (hu.made v t (htype v ▸ ht) w hw).trans_le hle

theorem Tidy.not_dead (hu : u.Tidy D) : ¬ D u.typeCount :=
  fun h => Nat.lt_irrefl _ (hu.dead _ h)

/-- A new variable may be assigned any type. -/
theorem freshType_idles (hu : u.Tidy D) :
    (freshType u).1 = .var u.typeCount ∧ (freshType u).2.typeCount = u.typeCount + 1 ∧
      Idles D u (freshType u).2 ∧ (freshType u).2.Owns D (freshType u).1 := by
  obtain ⟨-, hcount, hidles⟩ := freshTypeVar_idles hu
  refine ⟨rfl, hcount, hidles, ⟨Ty.live_var.2 ⟨?_, hu.not_dead⟩, Ty.below_of_effects_eq_nil rfl⟩⟩
  exact Nat.lt_of_lt_of_eq (Nat.lt_succ_self _) hcount.symm

/-- What changes rows only, and leaves them without labels, finds nothing out. -/
theorem Tidy.idles_of_types (h : u.Tidy D) (hadv : u.Grows u')
    (ht : u'.substitution.types = u.substitution.types) (hn : u'.numeric = u.numeric)
    (he : u'.errors = u.errors) (hr : Bare u'.substitution.rows)
    (hw : ∀ c ∈ u'.pending, ∃ row within why, c = .inclusion row within why ∧ row.labels = ∅ ∧
      within.labels = ∅) : Idles D u u' :=
  ⟨⟨h.spares_of_types hadv.valid ht hn hr hw, hadv.rows, hadv.refines⟩, he,
    fun f hf => hf.of_types fun v => by
      rw [Substitution.type?, ht]
      rfl⟩

theorem KeepsBare.idles {α : Type} {m : UnifyM α} (h : KeepsBare m) (hu : u.Tidy D)
    (hg : u.Grows (m u).2) : Idles D u (m u).2 := by
  have hsame := (h.moves u).same.eqs
  exact hu.idles_of_types hg hsame.1 hsame.2.1 hsame.2.2.2 ((h.moves u).bare hu.rows)
    (hsame.2.2.1 ▸ hu.waiting)

theorem freshRowVar_idles (hu : u.Tidy D) : Idles D u (freshRowVar u).2 :=
  freshRowVar_keepsBare.idles hu (freshRowVar_does hu.toValid).1.toGrows

theorem freshRow_idles (hu : u.Tidy D) :
    Idles D u (freshRow u).2 ∧ (freshRow u).1.labels = ∅ ∧
      (freshRow u).1.Below (freshRow u).2.rowCount :=
  ⟨freshRowVar_idles hu, rfl, (freshRow_does hu.toValid).2⟩

/-! ## Inclusions -/

/-- From a row without labels there is nothing to flow. -/
theorem flows_of_bare (h : Bare u.substitution.rows) {row : Row} (hr : row.labels = ∅) (within : Row) :
    u.Flows row within := fun x hx => by
  rw [findRow, Substitution.labels_findRow h hr] at hx
  exact absurd hx (SortedSet.not_mem_empty x)

/-- An inclusion of a row without labels holds or waits. -/
theorem includeRow_idles (hu : u.Tidy D) {row within : Row} (hr : row.labels = ∅)
    (hw : within.labels = ∅) (hbr : row.Below u.rowCount) (hbw : within.Below u.rowCount)
    (why : Provenance) : Idles D u (includeRow row within why u).2 := by
  have hadv := (includeRow_does hu.toValid hbr hbw why).1
  have hempty : (∅ : SortedSet String).isEmpty = true := rfl
  have hrun : (includeRow row within why u).2 = u ∨ (includeRow row within why u).2 =
      { u with pending := u.pending ++ [.inclusion row within why] } := by
    rw [includeRow, bind_run, includeLabels_idle (flows_of_bare hu.rows hr within)]
    dsimp only
    rw [if_pos hempty, get_bind_run]
    cases (u.findRow row).tail with
    | none => exact .inl rfl
    | some v =>
      dsimp only
      rw [get_bind_run]
      by_cases h : (u.findRow within).tail = some v
      · rw [if_pos h]
        exact .inl rfl
      · rw [if_neg h]
        exact .inr rfl
  rcases hrun with hrun | hrun
  · rw [hrun]
    exact hu.idles
  · rw [hrun] at hadv ⊢
    refine hu.idles_of_types hadv.toGrows rfl rfl rfl hu.rows fun c hc => ?_
    rcases List.mem_append.1 hc with hc | hc
    · exact hu.waiting c hc
    · exact ⟨row, within, why, List.mem_singleton.1 hc, hr, hw⟩

/-! ## The end of a pass -/

theorem identifyTail_keepsBare (i : Inclusion) : KeepsBare (identifyTail i) := by
  unfold identifyTail
  refine .get_bind fun u => .get_bind fun u' => ?_
  dsimp only
  split
  · exact .pure _
  · split
    · exact .pure _
    · exact bindRowVar_keepsBare _ rfl

theorem takePending_eq {cs : List Constraint} (hcs : ∀ c ∈ cs, ∃ row within why,
    c = .inclusion row within why ∧ row.labels = ∅ ∧ within.labels = ∅) :
    ∃ is, (∀ i ∈ is, i.row.labels = ∅ ∧ i.within.labels = ∅) ∧ ∀ u, takePending cs u = (is, u) := by
  induction cs with
  | nil => exact ⟨[], by simp, fun _ => rfl⟩
  | cons c cs ih =>
    simp only [List.mem_cons, forall_eq_or_imp] at hcs
    obtain ⟨⟨row, within, why, rfl, hrow, hwithin⟩, hcs⟩ := hcs
    obtain ⟨is, his, heq⟩ := ih hcs
    refine ⟨⟨row, within, why⟩ :: is, by simpa using ⟨⟨hrow, hwithin⟩, his⟩, fun u => ?_⟩
    show (_ :: (takePending cs u).1, (takePending cs u).2) = _
    rw [heq]

/-- At the end of a pass nothing is left to flow, so nothing is found out. -/
theorem finish_idles (hu : u.Tidy D) : Idles D u (finish u).2 := by
  obtain ⟨is, his, htake⟩ := takePending_eq hu.waiting
  have hall : AllFlow { u with pending := [] } is := fun i hi =>
    flows_of_bare (u := { u with pending := [] }) hu.rows (his i hi).1 i.within
  have hrun : (finish u).2 = ((forIn is PUnit.unit fun i _ => do
      identifyTail i
      return ForInStep.yield PUnit.unit : UnifyM PUnit) { u with pending := [] }).2 := by
    rw [finish_run (u := u) (htake _) (flow_idle hall _)]
    rfl
  have hmoves := (Moves.forIn identifyTail_keepsBare is).moves { u with pending := [] }
  rw [← hrun] at hmoves
  have hsame := hmoves.same.eqs
  have hbare := hmoves.bare hu.rows
  refine hu.idles_of_types (finish_grows hu.toValid).1 hsame.1 hsame.2.1 hsame.2.2.2 hbare ?_
  rw [hsame.2.2.1]
  exact List.forall_mem_nil _

end Unifier
end RowCheck
