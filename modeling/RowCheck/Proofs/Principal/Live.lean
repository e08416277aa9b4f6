import RowCheck.Proofs.Unify.Reading
import RowCheck.Proofs.Unify.Forces

/-!
Types of the functional core in a pass. No label occurs in them, so rows can always be made equal and
nothing is ever missing from one; and they mention live variables only. A variable is dead once it is
quantified: from then on nothing that is found out concerns it, and it stays unbound.
-/
namespace RowCheck

/-- Whether a type is one of the functional core: its variables are among the first `n` and none of
them is dead, its rows have no labels, and no failed expression's type is in it. -/
abbrev Ty.Live (D : TyVar → Prop) (n : Nat) (t : Ty) : Prop :=
  t.Over (fun v => v < n ∧ ¬ D v) (fun e => e.labels = ∅)

namespace Ty

variable {D D' : TyVar → Prop} {n m : Nat}

theorem Live.mono {t : Ty} (h : t.Live D n) (hnm : n ≤ m) : t.Live D m :=
  ⟨fun v hv => ⟨(h.vars v hv).1.trans_le hnm, (h.vars v hv).2⟩, h.effects, h.proper⟩

/-- A type that is live stays so where fewer variables are dead. -/
theorem Live.anti {t : Ty} (h : t.Live D n) (hD : ∀ v, D' v → D v) : t.Live D' n :=
  ⟨fun v hv => ⟨(h.vars v hv).1, fun hd => (h.vars v hv).2 (hD v hd)⟩, h.effects, h.proper⟩

theorem live_of_closed {t : Ty} (hv : t.vars = []) (he : t.effects = [])
    (hp : t.containsError = false) : t.Live D n :=
  ⟨by simp [hv], by simp [he], hp⟩

theorem live_var {v : TyVar} : (var v).Live D n ↔ v < n ∧ ¬ D v := over_var

theorem live_fn {p r : Ty} {e : Row} :
    (fn p r e).Live D n ↔ p.Live D n ∧ r.Live D n ∧ e.labels = ∅ := over_fn

end Ty

/-! ## Rows without labels -/

theorem SortedSet.union_empty {s t : SortedSet String} (hs : s = ∅) (ht : t = ∅) :
    s.union t = ∅ := by
  subst hs ht
  rfl

/-- Whether all row variables are bound to rows without labels. -/
def Bare (rows : Array (Option Row)) : Prop :=
  ∀ (v : RowVar) (r : Row), (rows[v]?).join = some r → r.labels = ∅

namespace Substitution

variable {s : Substitution}

theorem labels_findRow (h : Bare s.rows) {e : Row} (he : e.labels = ∅) : (s.findRow e).labels = ∅ := by
  have hgather : ∀ n e, e.labels = ∅ → (s.gather n e).labels = ∅ := by
    intro n
    induction n with
    | zero => exact fun _ he => he
    | succ n ih =>
      intro e he
      simp only [gather]
      split
      · exact he
      · split
        · exact he
        · rename_i b hb
          exact ih _ (SortedSet.union_empty he (h _ b hb))
  exact hgather _ e he

theorem bare_bindRow (h : Bare s.rows) {v : RowVar} {r : Row} (hr : r.labels = ∅) :
    Bare (s.bindRow v r).rows := by
  intro w b hb
  have hb' := (row?_bindRow s v w r).symm.trans hb
  split at hb'
  · cases hb'
    exact hr
  · exact h w b hb'

theorem bare_freshRow (h : Bare s.rows) : Bare s.freshRow.2.rows := by
  intro w b hb
  exact h w b ((row?_freshRow s w).symm.trans hb)

end Substitution

namespace Unifier

variable {u : Unifier}

/-- Whether two states differ in rows only, and the later one has no labels if the first has none. -/
structure SameBare (u u' : Unifier) : Prop where
  same : SameApart u u'
  bare : Bare u.substitution.rows → Bare u'.substitution.rows

instance : IsPreorder Unifier SameBare where
  refl _ := ⟨rfl, id⟩
  trans _ _ _ h h' := ⟨trans_of SameApart h.same h'.same, h'.bare ∘ h.bare⟩

/-- Whether an action changes rows only, and leaves them without labels. -/
abbrev KeepsBare {α : Type} (m : UnifyM α) : Prop := Moves SameBare m

theorem note_keepsBare (action : UnifyAction) (left right : Ty) (detail : String) :
    KeepsBare (note action left right detail) :=
  ⟨fun u => ⟨(note_changesRows ..).moves u, fun hu =>
    (note_substitution action left right detail u).symm ▸ hu⟩⟩

theorem freshRowVar_keepsBare : KeepsBare freshRowVar :=
  ⟨fun u => ⟨freshRowVar_changesRows.moves u, Substitution.bare_freshRow⟩⟩

theorem bindRowVar_keepsBare (v : RowVar) {r : Row} (hr : r.labels = ∅) :
    KeepsBare (bindRowVar v r) :=
  (note_keepsBare ..).bind fun _ => ⟨fun _ => ⟨rfl, fun hu => Substitution.bare_bindRow hu hr⟩⟩

/-- Whether an action does not fail, and row variables are bound to rows without labels after it. -/
def SolvesBare (u : Unifier) (m : SolveM Unit) : Prop :=
  (m.run u).1 = .ok () ∧ Bare (m.run u).2.substitution.rows

theorem SolvesBare.lift (h : Bare u.substitution.rows) {m : UnifyM Unit} (hm : KeepsBare m) :
    SolvesBare u (liftM m) := ⟨rfl, (hm.moves u).bare h⟩

theorem SolvesBare.lift_bind {α : Type} (h : Bare u.substitution.rows) {m : UnifyM α}
    (hm : KeepsBare m) {f : α → SolveM Unit}
    (hf : ∀ a u', Bare u'.substitution.rows → SolvesBare u' (f a)) :
    SolvesBare u ((liftM m : SolveM α) >>= f) := hf _ _ ((hm.moves u).bare h)

theorem SolvesBare.get_bind {f : Unifier → SolveM Unit} (h : SolvesBare u (f u)) :
    SolvesBare u (get >>= f) := h

/-- Rows without labels can be made equal. -/
theorem solveRows_bare (h : Bare u.substitution.rows) {e f : Row} (he : e.labels = ∅)
    (hf : f.labels = ∅) : SolvesBare u (solveRows e f) := by
  have hle : (u.findRow e).labels = ∅ := Substitution.labels_findRow h he
  have hlf : (u.findRow f).labels = ∅ := Substitution.labels_findRow h hf
  have hdiff : (∅ : SortedSet String).diff ∅ = ∅ := rfl
  have hempty : (∅ : SortedSet String).isEmpty = true := rfl
  unfold solveRows
  refine .get_bind (.get_bind ?_)
  simp only [hle, hlf, hdiff, hempty, Bool.and_true, if_true]
  split
  · exact ⟨rfl, h⟩
  · exact .lift h (bindRowVar_keepsBare _ rfl)
  · exact .lift h (bindRowVar_keepsBare _ rfl)
  · split
    · exact ⟨rfl, h⟩
    · refine .lift_bind h freshRowVar_keepsBare fun rest u₁ h₁ => ?_
      refine .lift_bind h₁ (note_keepsBare ..) fun _ u₂ h₂ => ?_
      refine .lift_bind h₂ (bindRowVar_keepsBare _ rfl) fun _ u₃ h₃ => ?_
      exact .lift h₃ (bindRowVar_keepsBare _ rfl)

end Unifier

/-- The live types over the first `n` variables. -/
def Stock.live (D : TyVar → Prop) (n : Nat) : Stock where
  Has := Ty.Live D n
  HasRow e := e.labels = ∅
  Rows := Bare
  vars := Finset.range n
  mem_vars h := Finset.mem_range.2 (Ty.live_var.1 h).1
  fn := Ty.live_fn.1
  tuple := Ty.over_tuple.1
  named := Ty.over_named.1
  ref := Ty.over_ref.1
  rows hu h he hf hbe hbf :=
    ⟨(Unifier.solveRows_solves hu hbe hbf).1, fun _ _ => (Unifier.solveRows_bare h he hf).2⟩

/-- The reading that keeps nothing of rows. -/
def Reading.erasing (f : TyVar → Ty) : Reading := ⟨f, fun _ => .pure⟩

namespace Unifier

variable {D : TyVar → Prop} {u u' u'' : Unifier} {f : TyVar → Ty}

/-- Without their rows, live types that are read alike can be made equal. -/
theorem meetsRows_live (f : TyVar → Ty) (D : TyVar → Prop) (n : Nat) :
    MeetsRows (.erasing f) (.live D n) := by
  intro u d e h hf hd he hbd hbe _
  refine ⟨(solveRows_bare h.rows hd he).1, fun v t ht => hf.type v t ?_, fun _ => rfl⟩
  rwa [((solveRows_leavesTypes d e).moves u).types v] at ht

/-- A state of the functional core: live variables are bound to live types, rows have no labels, and
only inclusions of rows without labels wait. -/
structure Tidy (D : TyVar → Prop) (u : Unifier) : Prop extends u.Holds (.live D u.typeCount) where
  dead : ∀ v, D v → v < u.typeCount
  made : ∀ v t, u.substitution.type? v = some t → ∀ w ∈ t.vars, w < u.typeCount
  waiting : ∀ c ∈ u.pending, ∃ row within why, c = .inclusion row within why ∧ row.labels = ∅ ∧
    within.labels = ∅

/-- A later state that leaves dead variables as they are. -/
structure Spares (D : TyVar → Prop) (u u' : Unifier) : Prop where
  tidy : u'.Tidy D
  count : u.typeCount ≤ u'.typeCount
  dead : ∀ v, D v → u'.substitution.type? v = u.substitution.type? v

theorem Tidy.spares (h : u.Tidy D) : Spares D u u := ⟨h, Nat.le_refl _, fun _ _ => rfl⟩

theorem Spares.trans (h : Spares D u u') (h' : Spares D u' u'') : Spares D u u'' :=
  ⟨h'.tidy, h.count.trans h'.count, fun v hv => (h'.dead v hv).trans (h.dead v hv)⟩

/-- What stays among the live types spares the dead variables. -/
theorem StaysIn.spares (h : StaysIn (.live D u.typeCount) u u') (hu : u.Tidy D) :
    Spares D u u' := by
  have hcount : u'.typeCount = u.typeCount := h.count fun _ hv => (Ty.live_var.1 hv).1
  refine ⟨⟨hcount ▸ h.holds, fun v hv => hcount ▸ hu.dead v hv, fun v t ht w hw => ?_,
    fun c hc => hu.waiting c (h.pending ▸ hc)⟩, hcount.ge,
    fun v hv => h.others v fun hl => (Ty.live_var.1 hl).2 hv⟩
  by_cases hv : (Ty.var v).Live D u.typeCount
  · exact hcount ▸ ((h.holds.bound v t hv ht).vars w hw).1
  · rw [h.others v hv] at ht
    exact hcount ▸ hu.made v t ht w hw

/-- A state that has the same type variables, and rows without labels. -/
theorem Tidy.spares_of_types (h : u.Tidy D) (hu : u'.Valid)
    (ht : u'.substitution.types = u.substitution.types) (hn : u'.numeric = u.numeric)
    (hr : Bare u'.substitution.rows) (hw : ∀ c ∈ u'.pending, ∃ row within why,
      c = .inclusion row within why ∧ row.labels = ∅ ∧ within.labels = ∅) : Spares D u u' := by
  have hcount : u'.typeCount = u.typeCount := congrArg Array.size ht
  have htype : ∀ v, u'.substitution.type? v = u.substitution.type? v := fun v => by
    rw [Substitution.type?, ht]
    rfl
  refine ⟨⟨⟨hu, hn.trans h.numeric, hr, fun v t hl hv => ?_⟩, fun v hv => hcount ▸ h.dead v hv,
    fun v t hv => ?_, hw⟩, hcount.ge, fun v _ => htype v⟩
  · rw [hcount] at hl ⊢
    exact h.bound v t hl (htype v ▸ hv)
  · rw [hcount]
    exact h.made v t (htype v ▸ hv)

/-- What a live type stands for is live. -/
theorem Tidy.live_apply (h : u.Tidy D) {t : Ty} (ht : t.Live D u.typeCount) :
    (u.apply t).Live D u.typeCount := by
  have compose : ∀ {t : Ty}, t.Live D u.typeCount →
      (∀ v ∈ t.vars, (u.apply (.var v)).Live D u.typeCount) → (u.apply t).Live D u.typeCount := by
    intro t ht hv
    refine ⟨fun w hw => ?_, fun e he => ?_, ?_⟩
    · rw [apply, Substitution.apply_eq_mapVars, Ty.mem_vars_mapVars] at hw
      obtain ⟨v, hmem, hw⟩ := hw
      exact (hv v hmem).vars w hw
    · rw [apply, Substitution.apply_eq_mapVars, Ty.mem_effects_mapVars] at he
      rcases he with ⟨v, hmem, he⟩ | ⟨d, hd, rfl⟩
      · exact (hv v hmem).effects e he
      · exact Substitution.labels_findRow h.rows (ht.effects d hd)
    · rw [apply, Substitution.apply_eq_mapVars, Ty.mapVars_proper]
      exact ⟨ht.proper, fun v hmem => (hv v hmem).proper⟩
  refine compose ht fun v hv => ?_
  have hlive := Ty.live_var.2 (ht.vars v hv)
  clear hv
  induction v using h.acyclic.typeInduction with
  | _ v ih =>
    cases hv : u.substitution.type? v with
    | none => rwa [apply, Substitution.apply_unbound hv]
    | some t =>
      have ht := h.bound v t hlive hv
      rw [apply, h.acyclic.apply_var hv]
      exact compose ht fun w hw => ih t hv w hw (Ty.live_var.2 (ht.vars w hw))

end Unifier
end RowCheck
