import RowCheck.Proofs.Unify.Kept
import RowCheck.Proofs.Unify.Runs

/-!
What must be numeric. A bound on a variable moves each time that the variable is bound, to another
one, to a primitive or to a type that cannot meet it. Whatever is done in whatever order, none is
lost: a type that was required to be numeric counts as numeric, or an error tells that it does not.
-/
namespace RowCheck

/-- That a type must be numeric, and the position that requires it. -/
structure Requirement where
  ty : Ty
  span : Span

/-- What a constraint that waits requires to be numeric. -/
def Constraint.requirement? : Constraint → Option Requirement
  | numeric t why => some ⟨t, why.span⟩
  | _ => none

namespace Unifier

variable {u u' : Unifier} {required : List Requirement} {taken : List Diagnostic}

/-- Whether a type counts as numeric: it stands for the type of a failed expression, for a numeric
primitive, or for an unbound variable that must be numeric. -/
def CountsNumeric (u : Unifier) (t : Ty) : Prop := u.apply t = .error ∨ u.Numeric t

/-- Whether an error was reported for a type, at a position that requires it to be numeric. What the
error shows is a type that stands for the same. -/
def Refused (u : Unifier) (required : List Requirement) (reported : List Diagnostic) (t : Ty) :
    Prop :=
  ∃ r ∈ required, u.apply r.ty = u.apply t ∧
    ∃ shown, u.apply shown = u.apply t ∧ notNumeric shown r.span ∈ reported

/-- Whether a state answers for what was required to be numeric, where some errors were taken out of
it before: bounds are on unbound variables, each for one of the types, and each of the types counts
as numeric or was reported. -/
structure Answers (u : Unifier) (required : List Requirement) (taken : List Diagnostic) : Prop where
  unbound : ∀ v, (u.numeric.get? v).isSome = true → u.substitution.type? v = none
  recorded : ∀ v span, u.numeric.get? v = some span →
    ∃ r ∈ required, r.span = span ∧ u.apply r.ty = .var v
  settled : ∀ r ∈ required, u.CountsNumeric r.ty ∨ u.Refused required (taken ++ u.errors) r.ty

theorem empty_answers : Unifier.empty.Answers [] [] where
  unbound v hv := by cases hv
  recorded v span hv := by cases hv
  settled r hr := by cases hr

/-! ## Later states -/

theorem Refused.grows {reported reported' : List Diagnostic} {t : Ty}
    (h : u.Refused required reported t) (hu : u.Valid) (hg : u.Grows u')
    (hr : reported ⊆ reported') {kept : List Requirement}
    (hk : ∀ r ∈ required, u.apply r.ty = u.apply t → r ∈ kept) : u'.Refused kept reported' t := by
  obtain ⟨r, hmem, hty, shown, hshown, hreport⟩ := h
  exact ⟨r, hk r hmem hty, hg.apply_eq hu hty, shown, hg.apply_eq hu hshown, hr hreport⟩

/-- A later state answers for the types whose variables have not lost their bounds. -/
theorem Answers.grows (h : u.Answers required taken) (hu : u.Valid) (hg : u.Grows u')
    (hold : ∀ v span, u'.numeric.get? v = some span →
      u.numeric.get? v = some span ∧ u'.substitution.type? v = none)
    {kept : List Requirement} (hkept : ∀ r, r ∈ kept ↔ r ∈ required ∧ ∀ v, u.apply r.ty = .var v →
      (u.numeric.get? v).isSome = true → (u'.numeric.get? v).isSome = true) :
    u'.Answers kept taken where
  unbound v hv := by
    obtain ⟨span, hspan⟩ := Option.isSome_iff_exists.1 hv
    exact (hold v span hspan).2
  recorded v span hv := by
    obtain ⟨hspan, hun⟩ := hold v span hv
    obtain ⟨r, hr, rfl, hty⟩ := h.recorded v span hspan
    refine ⟨r, (hkept r).2 ⟨hr, fun w hw _ => ?_⟩, rfl, ?_⟩
    · obtain rfl : v = w := by simpa [hty] using hw
      simp [hv]
    · rw [← hg.apply hu, hty]
      exact Substitution.apply_unbound hun
  settled r hr := by
    obtain ⟨hmem, hkeep⟩ := (hkept r).1 hr
    rcases h.settled r hmem with (herror | hnumeric) | hrefused
    · refine .inl (.inl ?_)
      rw [← hg.apply hu, herror, apply_error]
    · refine .inl (.inr (hnumeric.grows hu hg fun v hv hn => ?_))
      obtain ⟨span, hspan⟩ := Option.isSome_iff_exists.1 (hkeep v hv hn)
      exact numeric_var (hold v span hspan).2 (hkeep v hv hn)
    · refine .inr (hrefused.grows hu hg ?_ fun r' hr' hty => ?_)
      · exact ((List.prefix_append_right_inj taken).2 hg.errors).subset
      · exact (hkept r').2 ⟨hr', fun v hv => hkeep v (hty ▸ hv)⟩

/-- A later state with the same bounds answers for the same, if their variables are unbound. -/
theorem Answers.of_numeric (h : u.Answers required taken) (hu : u.Valid) (hg : u.Grows u')
    (hnum : u'.numeric = u.numeric)
    (hfree : ∀ v, (u.numeric.get? v).isSome = true → u'.substitution.type? v = none) :
    u'.Answers required taken := by
  refine h.grows hu hg (fun v span hv => ?_) fun r => ?_
  · rw [hnum] at hv
    exact ⟨hv, hfree v (by simp [hv])⟩
  · simp [hnum]

theorem Answers.sameTypes (h : u.Answers required taken) (hu : u.Valid) (hg : u.Grows u')
    (hs : SameTypes u u') : u'.Answers required taken :=
  h.of_numeric hu hg hs.numeric fun v hv => (hs.types v).trans (h.unbound v hv)

/-- What was required may be listed in another way: each of the types by itself, and at the same
positions. -/
theorem Answers.relist (h : u.Answers required taken) {other : List Requirement}
    (hto : ∀ r ∈ required, ∃ r' ∈ other, r'.span = r.span ∧ u.apply r'.ty = u.apply r.ty)
    (hfrom : ∀ r' ∈ other, ∃ r ∈ required, u.apply r.ty = u.apply r'.ty) :
    u.Answers other taken where
  unbound := h.unbound
  recorded v span hv := by
    obtain ⟨r, hr, hspan, hty⟩ := h.recorded v span hv
    obtain ⟨r', hr', hspan', hty'⟩ := hto r hr
    exact ⟨r', hr', hspan'.trans hspan, hty'.trans hty⟩
  settled r' hr' := by
    obtain ⟨r, hr, hty⟩ := hfrom r' hr'
    rcases h.settled r hr with hcounts | ⟨r₀, hr₀, hty₀, shown, hshown, hreport⟩
    · rw [CountsNumeric, Numeric, hty] at hcounts
      exact .inl hcounts
    · obtain ⟨r₁, hr₁, hspan₁, hty₁⟩ := hto r₀ hr₀
      exact .inr ⟨r₁, hr₁, (hty₁.trans hty₀).trans hty, shown, hshown.trans hty, hspan₁ ▸ hreport⟩

/-! ## One more requirement -/

/-- A state that answers for one more type than an earlier one, in which all types stand for the
same. -/
theorem Answers.more (h : u.Answers required taken) (hu : u.Valid) (hg : u.Grows u')
    (hsame : ∀ x, u'.apply x = u.apply x) {r : Requirement}
    (hold : ∀ v span, u'.numeric.get? v = some span →
      u.numeric.get? v = some span ∨ span = r.span ∧ u.apply r.ty = .var v)
    (hkeep : ∀ v, (u.numeric.get? v).isSome = true → (u'.numeric.get? v).isSome = true)
    (hnew : u'.CountsNumeric r.ty ∨ notNumeric (u.apply r.ty) r.span ∈ u'.errors) :
    u'.Answers (required ++ [r]) taken where
  unbound v hv := by
    have hfree : u.apply (.var v) = .var v := by
      obtain ⟨span, hspan⟩ := Option.isSome_iff_exists.1 hv
      rcases hold v span hspan with hspan | ⟨-, hty⟩
      · exact Substitution.apply_unbound (h.unbound v (by simp [hspan]))
      · exact Substitution.apply_unbound (unbound_of_apply hu hty)
    exact hg.valid.acyclic.type?_eq_none_iff.2 ((hsame _).trans hfree)
  recorded v span hv := by
    rcases hold v span hv with hv | ⟨rfl, hty⟩
    · obtain ⟨r', hr', hspan, hty⟩ := h.recorded v span hv
      exact ⟨r', List.mem_append_left _ hr', hspan, (hsame _).trans hty⟩
    · exact ⟨r, by simp, rfl, (hsame _).trans hty⟩
  settled r' hr' := by
    rcases List.mem_append.1 hr' with hr' | hr'
    · rcases h.settled r' hr' with (herror | hprim | ⟨v, hv, hn⟩) | hrefused
      · exact .inl (.inl ((hsame _).trans herror))
      · exact .inl (.inr (.inl ((hsame r'.ty).symm ▸ hprim)))
      · exact .inl (.inr (.inr ⟨v, (hsame _).trans hv, hkeep v hn⟩))
      · refine .inr (hrefused.grows hu hg ?_ fun r'' hr'' _ => List.mem_append_left _ hr'')
        exact ((List.prefix_append_right_inj taken).2 hg.errors).subset
    · obtain rfl := List.mem_singleton.1 hr'
      refine hnew.imp id fun hreport => ?_
      refine ⟨r', by simp, rfl, u.apply r'.ty, hg.apply hu r'.ty, ?_⟩
      exact List.mem_append_right _ hreport

/-- The same where the type stands for a variable that gets a bound. -/
theorem Answers.more_bound (h : u.Answers required taken) (hu : u.Valid) (hg : u.Grows u')
    (hsame : ∀ x, u'.apply x = u.apply x) {r : Requirement} {v : TyVar}
    (hv : u.apply r.ty = .var v) (hnum : u'.numeric = u.numeric.insertNew v r.span) :
    u'.Answers (required ++ [r]) taken := by
  refine h.more hu hg hsame (fun w span hw => ?_) (fun w hw => ?_) (.inl (.inr ?_))
  · rw [hnum, SortedMap.get?_insertNew] at hw
    split at hw
    · cases hv' : u.numeric.get? v with
      | none => exact .inr (by simp_all)
      | some s => exact .inl (by simp_all)
    · exact .inl hw
  · rw [hnum, SortedMap.isSome_get?_insertNew]
    exact .inr hw
  · exact .inr ⟨v, (hsame r.ty).trans hv, by simp [hnum, SortedMap.isSome_get?_insertNew]⟩

theorem requireNumeric_answers (h : u.Answers required taken) (hu : u.Valid) {t : Ty}
    (ht : t.Below u.rowCount) (why : Provenance) :
    u.Does (requireNumeric t why) (fun _ u' => u'.Answers (required ++ [⟨t, why.span⟩]) taken) := by
  refine (requireNumeric_required hu ht why).imp fun _ u' hadv hreq => ?_
  obtain ⟨hsame, -, hreq⟩ := hreq
  cases hreq with
  | noted v hv hnum _ => exact h.more_bound hu hadv.toGrows hsame hv hnum
  | met hmet hnum herr =>
    refine h.more hu hadv.toGrows hsame (fun w span hw => .inl (hnum ▸ hw))
      (fun w hw => hnum ▸ hw) (.inl ?_)
    rw [CountsNumeric, Numeric, hsame]
    exact hmet.imp_right .inl
  | refused hnum herr =>
    exact h.more hu hadv.toGrows hsame (fun w span hw => .inl (hnum ▸ hw))
      (fun w hw => hnum ▸ hw) (.inr (by simp [herr]))

/-- Bounds may be put on unbound variables. -/
theorem addNumeric_answers (h : u.Answers required taken) (hu : u.Valid) {v : TyVar}
    (hv : u.substitution.type? v = none) (span : Span) :
    u.Does (addNumeric v span) (fun _ u' => u'.Answers (required ++ [⟨.var v, span⟩]) taken) := by
  have hadv := (addNumeric_does hu v span).1
  have hfree : u.apply (.var v) = .var v := Substitution.apply_unbound hv
  refine ⟨hadv, h.more_bound hu hadv.toGrows (fun _ => rfl) hfree rfl⟩

/-! ## The solver -/

/-- A bound passes on from a variable to the type it is bound to, also if that ends in an error. -/
theorem bindVar_answers (h : u.Answers required taken) (hu : u.Valid) {v : TyVar} {t : Ty}
    (hv : u.substitution.type? v = none) (ht : t.Below u.rowCount) :
    u.Does (bindVar v t).run (fun _ u' => u'.Answers required taken) := by
  unfold bindVar
  refine .run_get_bind ?_
  dsimp only
  split
  · exact .pure hu h
  · rename_i hm
    have hm : v ∉ (u.apply t).vars := by rwa [Ty.mentions_iff] at hm
    refine .run_lift_bind (note_bounds hu ..) fun _ u₁ h₁ e₁ => ?_
    obtain ⟨hsub₁, hnum₁, -, -⟩ := e₁
    have hbind := modify_bindType_does h₁.valid (v := v) (t := t) (hsub₁ ▸ hv)
      (by rwa [apply, hsub₁]) (ht.mono h₁.rows)
    refine .run_lift_bind (Q := fun _ u' => u'.substitution = u₁.substitution.bindType v t ∧
        u'.numeric = u₁.numeric) ⟨hbind.1, hbind.2, rfl⟩ fun _ u₂ h₂ e₂ => ?_
    obtain ⟨hsub₂, hnum₂⟩ := e₂
    rw [hsub₁] at hsub₂
    rw [hnum₁] at hnum₂
    have h₁₂ := h₁.trans h₂
    have hother : ∀ w, w ≠ v → u.substitution.type? w = none →
        u₂.substitution.type? w = none := fun w hw hwu => by
      rw [hsub₂, Substitution.type?_bindType, if_neg (Ne.symm hw), hwu]
    refine .run_get_bind ?_
    split
    · rename_i hnone
      refine .pure h₂.valid (h.of_numeric hu h₁₂.toGrows hnum₂ fun w hw => ?_)
      refine hother w ?_ (h.unbound w hw)
      rintro rfl
      simp [hnone, ← hnum₂] at hw
    · rename_i span hspan
      refine .run_lift_bind (Q := fun _ u' => u'.substitution = u₂.substitution ∧
          u'.numeric = u₂.numeric.erase v) ⟨(modify_numeric_does h₂.valid v).1, rfl, rfl⟩
        fun _ u₃ h₃ e₃ => ?_
      obtain ⟨hsub₃, hnum₃⟩ := e₃
      have h₁₃ := h₁₂.trans h₃
      rw [hnum₂] at hspan hnum₃
      -- While the bound is on its way, nothing answers for the types that stand for the variable.
      have hothers :
          u₃.Answers (required.filter fun r => decide (u.apply r.ty ≠ .var v)) taken := by
        refine h.grows hu h₁₃.toGrows (fun w s hw => ?_) fun r => ?_
        · rw [hnum₃, SortedMap.get?_erase] at hw
          split at hw
          · cases hw
          · rename_i hne
            exact ⟨hw, hsub₃ ▸ hother w (Ne.symm hne) (h.unbound w (by simp [hw]))⟩
        · simp only [List.mem_filter, decide_eq_true_eq, hnum₃, SortedMap.get?_erase]
          refine and_congr_right fun _ => ⟨fun hne w hw hrec => ?_, fun hkeep he => ?_⟩
          · rwa [if_neg]
            rintro rfl
            exact hne hw
          · simpa using hkeep v he (by simp [hspan])
      obtain ⟨r₀, hr₀, rfl, hty₀⟩ := h.recorded v span hspan
      refine .run_lift ((requireNumeric_answers hothers h₃.valid (ht.mono h₁₃.rows) _).imp
        fun _ u₄ h₄ hans => ?_)
      have hbound : ∀ x, u.apply x = .var v → u₄.apply x = u₄.apply t := fun x hx => by
        rw [← (h₁₃.trans h₄).apply hu, hx]
        refine (h₃.trans h₄).apply_eq h₂.valid (h₂.valid.acyclic.apply_var ?_)
        rw [hsub₂, Substitution.type?_bindType, if_pos rfl]
      refine hans.relist (fun r hr => ?_) fun r hr => ?_
      · rcases List.mem_append.1 hr with hr | hr
        · exact ⟨r, List.mem_of_mem_filter hr, rfl, rfl⟩
        · obtain rfl := List.mem_singleton.1 hr
          exact ⟨r₀, hr₀, rfl, hbound _ hty₀⟩
      · by_cases hv : u.apply r.ty = .var v
        · exact ⟨_, List.mem_append_right _ (List.mem_singleton.2 rfl), (hbound _ hv).symm⟩
        · exact ⟨r, List.mem_append_left _ (List.mem_filter.2 ⟨hr, by simpa using hv⟩), rfl⟩

/-- Whether a later state answers for all that an earlier one answers for. -/
def KeepsAnswers (u u' : Unifier) : Prop :=
  ∀ required taken, u.Answers required taken → u'.Answers required taken

theorem SameTypes.keepsAnswers (hs : SameTypes u u') (hu : u.Valid) (hg : u.Grows u') :
    KeepsAnswers u u' := fun _ _ h => h.sameTypes hu hg hs

theorem find_keepsAnswers (hu : u.Valid) {t : Ty} (ht : t.Below u.rowCount) :
    KeepsAnswers u (find t u).2 := fun _ _ h => by
  have hfind := find_does hu ht
  refine h.of_numeric hu hfind.1.toGrows rfl fun v hv => ?_
  rw [hfind.1.valid.acyclic.type?_eq_none_iff]
  exact (hfind.2.2.1 _).trans (Substitution.apply_unbound (h.unbound v hv))

/-- The solver loses no bound, also where it fails. -/
theorem kept_answers : Kept (fun _ => KeepsAnswers) where
  refl _ _ _ _ := id
  trans _ _ h h' _ _ := h' _ _ ∘ h _ _
  find _ hu ht := find_keepsAnswers hu ht
  note action left right detail hu :=
    ((note_leavesTypes ..).moves _).keepsAnswers hu (note_does hu ..).1.toGrows
  bindVar hu hv ht _ :=
    ⟨(bindVar_solves hu hv ht).1, fun _ _ h => (bindVar_answers h hu hv ht).2⟩
  solveRows hu he hf := by
    have hadv := (solveRows_solves hu he hf).1
    exact ⟨hadv, ((solveRows_leavesTypes ..).moves _).keepsAnswers hu hadv.toGrows⟩

/-- Requiring an equation loses no bound. -/
theorem unify_keepsAnswers (hu : u.Valid) {a b : Ty} (ha : a.Below u.rowCount)
    (hb : b.Below u.rowCount) (why : Provenance) :
    u.Does (unify a b why) (fun _ u' => KeepsAnswers u u') := by
  have told : ∀ {u₁ : Unifier} action left right detail d, u.Advances u₁ → KeepsAnswers u u₁ →
      u₁.Does (do
        note action left right detail
        report d) (fun _ u' => KeepsAnswers u u') := by
    intro u₁ action left right detail d h₁ k₁
    have hadv : u₁.Does (note action left right detail >>= fun _ => report d) (fun _ _ => True) :=
      (note_does h₁.valid action left right detail).bind fun _ _ h₂ _ =>
        (report_does h₂.valid d).imp fun _ _ _ _ => trivial
    have hsame : LeavesTypes (note action left right detail >>= fun _ => report d) :=
      (note_leavesTypes ..).bind fun _ => report_leavesTypes d
    exact ⟨hadv.1, fun _ _ h =>
      (hsame.moves u₁).keepsAnswers h₁.valid hadv.1.toGrows _ _ (k₁ _ _ h)⟩
  unfold unify
  refine Does.bind (kept_answers.solve hu ha hb) fun r u₁ h₁ k₁ => ?_
  split
  · exact .pure h₁.valid k₁
  · exact .get_bind (told _ _ _ _ _ h₁ k₁)
  · exact .get_bind (.get_bind (told _ _ _ _ _ h₁ k₁))

/-! ## Instances and the end of a pass -/

/-- The copies of quantified variables that must be numeric, each required by the place that the
copies are made for. -/
def copyRequirements (numeric : SortedSet TyVar) (span : Span) (copies : List (TyVar × Ty)) :
    List Requirement :=
  (copies.filter fun c => decide (c.1 ∈ numeric)).map fun c => ⟨c.2, span⟩

theorem freshTypeVar_answers (h : u.Answers required taken) (hu : u.Valid) :
    u.Does freshTypeVar (fun w u' =>
      u'.substitution.type? w = none ∧ u'.Answers required taken) := by
  have hadv := (freshTypeVar_does hu).1
  have hsame := freshTypeVar_leavesTypes.moves u
  refine ⟨hadv, (hsame.types _).trans ?_, h.sameTypes hu hadv.toGrows hsame⟩
  simp [freshTypeVar, Substitution.freshType, Substitution.type?]

theorem freshCopies_answers (h : u.Answers required taken) (hu : u.Valid)
    (numeric : SortedSet TyVar) (span : Span) (vs : List TyVar) :
    u.Does (freshCopies numeric span vs) (fun copies u' =>
      u'.Answers (required ++ copyRequirements numeric span copies) taken) := by
  induction vs generalizing u required with
  | nil => exact .pure hu (by simpa [copyRequirements] using h)
  | cons v vs ih =>
    unfold freshCopies
    refine (freshTypeVar_answers h hu).bind fun w u₁ h₁ hfresh => ?_
    obtain ⟨hw, hans⟩ := hfresh
    dsimp only
    split
    · rename_i hv
      refine (addNumeric_answers hans h₁.valid hw span).bind fun _ u₂ h₂ hans₂ => ?_
      refine (ih hans₂ h₂.valid).bind fun copies u₃ h₃ hans₃ => .pure h₃.valid ?_
      simpa [copyRequirements, hv] using hans₃
    · rename_i hv
      refine (ih hans h₁.valid).bind fun copies u₃ h₃ hans₃ => .pure h₃.valid ?_
      simpa [copyRequirements, hv] using hans₃

theorem instantiate_answers (h : u.Answers required taken) (hu : u.Valid) (s : Scheme)
    (span : Span) :
    u.Does (s.instantiate span) (fun _ u' => u'.Answers
      (required ++ copyRequirements s.numeric span (freshCopies s.numeric span s.typeVars u).1)
      taken) := by
  unfold Scheme.instantiate
  split
  · rename_i hmono
    simp only [Scheme.isMono, Bool.and_eq_true, List.isEmpty_iff] at hmono
    have hnone : (freshCopies s.numeric span s.typeVars u).1 = [] := by
      rw [hmono.1]
      rfl
    exact .pure hu (by simpa [hnone, copyRequirements] using h)
  · have hcopies := freshCopies_answers h hu s.numeric span s.typeVars
    refine Does.bind (Q := fun copies u' => copies = (freshCopies s.numeric span s.typeVars u).1 ∧
      u'.Answers (required ++ copyRequirements s.numeric span copies) taken)
      ⟨hcopies.1, rfl, hcopies.2⟩ fun copies u₁ h₁ hans => ?_
    obtain ⟨rfl, hans⟩ := hans
    refine ((freshRowCopies_leavesTypes s.rowVars).does (freshRowCopies_does h₁.valid _)).bind
      fun _ u₂ h₂ hrows => .pure h₂.valid ?_
    exact hans.sameTypes h₁.valid h₂.toGrows hrows.1

theorem takePending_answers (h : u.Answers required taken) (hu : u.Valid) {cs : List Constraint}
    (hcs : ∀ c ∈ cs, c.Below u.rowCount) :
    u.Does (takePending cs) (fun _ u' =>
      u'.Answers (required ++ cs.filterMap Constraint.requirement?) taken) := by
  induction cs generalizing u required with
  | nil => exact .pure hu (by simpa using h)
  | cons c cs ih =>
    simp only [List.mem_cons, forall_eq_or_imp] at hcs
    cases c with
    | inclusion row within why =>
      exact (ih h hu hcs.2).bind fun _ u₁ h₁ hans => .pure h₁.valid hans
    | equal a b why =>
      refine (unify_keepsAnswers hu hcs.1.1 hcs.1.2 why).bind fun _ u₁ h₁ hkeep => ?_
      exact ih (hkeep _ _ h) h₁.valid fun c hc => (hcs.2 c hc).mono h₁.rows
    | numeric t why =>
      refine (requireNumeric_answers h hu hcs.1 why).bind fun _ u₁ h₁ hans => ?_
      refine (ih hans h₁.valid fun c hc => (hcs.2 c hc).mono h₁.rows).imp fun _ u₂ _ hans₂ => ?_
      simpa [Constraint.requirement?] using hans₂

theorem finish_answers (h : u.Answers required taken) (hu : u.Valid) :
    (finish u).2.Answers (required ++ u.pending.filterMap Constraint.requirement?) taken := by
  have h₀ : u.Grows { u with pending := [] } :=
    hu.grows_of_eq rfl (by simp) (List.prefix_refl _)
  have hempty : Answers { u with pending := [] } required taken :=
    h.of_numeric hu h₀ rfl h.unbound
  have hboth : Does { u with pending := [] } (takePending u.pending) (fun is u' =>
      is = u.pending.filterMap Constraint.inclusion? ∧
      u'.Answers (required ++ u.pending.filterMap Constraint.requirement?) taken) := by
    have htake := takePending_does h₀.valid hu.pending
    exact ⟨htake.1, htake.2.2, (takePending_answers hempty h₀.valid hu.pending).2⟩
  have hdoes : Does { u with pending := [] } (do
      let inclusions ← takePending u.pending
      let inclusions ← flow (flowBound (← get) inclusions) inclusions
      for i in inclusions do
        identifyTail i) (fun _ u' =>
          u'.Answers (required ++ u.pending.filterMap Constraint.requirement?) taken) := by
    refine hboth.bind fun is u₁ h₁ hans => ?_
    obtain ⟨his, hans⟩ := hans
    have hmarked : is = unmarked (is.map fun i => ((), i)) := by simp
    have hmade : ∀ i ∈ is.map fun i => ((), i), u₁.Made i.2 := by
      intro i hi
      obtain ⟨j, hj, rfl⟩ := List.mem_map.1 hi
      exact (hu.made_pending j (his ▸ hj)).grows (h₀.trans h₁.toGrows)
    have hsettle := inclusions_settle h₁.valid hmade
    rw [← hmarked] at hsettle
    exact ((inclusions_leaveTypes is).does hsettle).imp fun _ u₂ h₂ hs =>
      hans.sameTypes h₁.valid h₂.toGrows hs.1
  exact hdoes.2

end Unifier

/-! ## Whole runs -/

/-- What an operation requires to be numeric: a type that is asked for, the copies of quantified
variables that must be numeric, and at the end of a pass the types for which that has waited. -/
def PassOp.requires (u : Unifier) : PassOp → List Requirement
  | requireNumeric t why => [⟨t, why.span⟩]
  | instantiate s span =>
    Unifier.copyRequirements s.numeric span (freshCopies s.numeric span s.typeVars u).1
  | finish => u.pending.filterMap Constraint.requirement?
  | _ => []

/-- The end of an operation answers for what it requires, and for what was required before. -/
theorem PassOp.step_answers {u : Unifier} {required : List Requirement} {taken : List Diagnostic}
    (h : u.Answers required taken) (hu : u.Valid) {op : PassOp} (hop : op.Made u) :
    (op.step u).Answers (required ++ op.requires u) taken := by
  have quiet : ∀ {u' : Unifier}, u.Grows u' → Unifier.SameTypes u u' →
      u'.Answers (required ++ []) taken :=
    fun hg hs => by simpa using h.sameTypes hu hg hs
  have hg := step_grows hu hop
  cases op with
  | freshTypeVar => exact quiet hg (Unifier.freshTypeVar_leavesTypes.moves u)
  | freshRowVar => exact quiet hg (Unifier.freshRowVar_leavesTypes.moves u)
  | find t => simpa [requires, step] using Unifier.find_keepsAnswers hu hop _ _ h
  | unify a b why =>
    simpa [requires, step] using (Unifier.unify_keepsAnswers hu hop.1 hop.2 why).2 _ _ h
  | «include» row within why => exact quiet hg ((Unifier.includeRow_leavesTypes ..).moves u)
  | requireNumeric t why => exact (Unifier.requireNumeric_answers h hu hop why).2
  | instantiate s span => exact (Unifier.instantiate_answers h hu s span).2
  | generalize t env topLevel => exact quiet hg ((Unifier.generalize_leavesTypes ..).moves u)
  | finish => exact Unifier.finish_answers h hu

/-- The states that a pass can come to, with what was required to be numeric and the errors that
were taken out on the way. Bounds are put on unbound variables only. -/
inductive Unifier.Comes : Unifier → List Requirement → List Diagnostic → Prop
  | new : Comes .empty [] []
  | step {u : Unifier} {required : List Requirement} {taken : List Diagnostic} {op : PassOp} :
    Comes u required taken → op.Made u → Comes (op.step u) (required ++ op.requires u) taken
  | defer {u : Unifier} {required : List Requirement} {taken : List Diagnostic} {c : Constraint} :
    Comes u required taken → c.Below u.rowCount → Comes (Unifier.defer c u).2 required taken
  | addNumeric {u : Unifier} {required : List Requirement} {taken : List Diagnostic} {v : TyVar}
    (span : Span) : Comes u required taken → u.substitution.type? v = none →
    Comes (Unifier.addNumeric v span u).2 (required ++ [⟨.var v, span⟩]) taken
  | report {u : Unifier} {required : List Requirement} {taken : List Diagnostic} (d : Diagnostic) :
    Comes u required taken → Comes (Unifier.report d u).2 required taken
  | takeErrors {u : Unifier} {required : List Requirement} {taken : List Diagnostic} :
    Comes u required taken → Comes { u with errors := [] } required (taken ++ u.errors)
  | trace {u : Unifier} {required : List Requirement} {taken : List Diagnostic} :
    Comes u required taken → Comes { u with tracing := true } required taken
  | takeSteps {u : Unifier} {required : List Requirement} {taken : List Diagnostic} :
    Comes u required taken → Comes { u with steps := [] } required taken

theorem Unifier.Comes.reachable {u : Unifier} {required : List Requirement}
    {taken : List Diagnostic} (h : u.Comes required taken) : u.Reachable := by
  induction h with
  | new => exact .new
  | step _ hop ih => exact ih.step hop
  | defer _ hc ih => exact ih.defer hc
  | addNumeric span _ _ ih => exact ih.addNumeric _ span
  | report d _ ih => exact ih.report d
  | takeErrors _ ih => exact ih.takeErrors
  | trace _ ih => exact ih.trace
  | takeSteps _ ih => exact ih.takeSteps

/-- What some operations require to be numeric. -/
def PassOp.requiredBy (u : Unifier) : List PassOp → List Requirement
  | [] => []
  | op :: ops => op.requires u ++ requiredBy (op.step u) ops

theorem Unifier.Comes.run {u : Unifier} {required : List Requirement} {taken : List Diagnostic}
    (h : u.Comes required taken) {ops : List PassOp} (hops : PassOp.AllMade u ops) :
    (PassOp.run u ops).Comes (required ++ PassOp.requiredBy u ops) taken := by
  induction ops generalizing u required with
  | nil => simpa [PassOp.run, PassOp.requiredBy] using h
  | cons op ops ih =>
    rw [PassOp.requiredBy, ← List.append_assoc]
    exact ih (h.step hops.1) hops.2

theorem Unifier.Comes.answers {u : Unifier} {required : List Requirement}
    {taken : List Diagnostic} (h : u.Comes required taken) : u.Answers required taken := by
  induction h with
  | new => exact empty_answers
  | step h hop ih => exact PassOp.step_answers ih h.reachable.valid hop
  | defer h hc ih =>
    have hadv := (defer_does h.reachable.valid hc).1
    exact ih.of_numeric h.reachable.valid hadv.toGrows rfl ih.unbound
  | addNumeric span h hv ih => exact (addNumeric_answers ih h.reachable.valid hv span).2
  | report d h ih =>
    have hadv := (report_does h.reachable.valid d).1
    exact ih.sameTypes h.reachable.valid hadv.toGrows ((report_leavesTypes d).moves _)
  | takeErrors h ih =>
    exact ⟨ih.unbound, ih.recorded, fun r hr => by
      rw [List.append_nil]
      exact ih.settled r hr⟩
  | trace _ ih | takeSteps _ ih => exact ⟨ih.unbound, ih.recorded, ih.settled⟩

/-- In every state that a pass can come to, each type that was required to be numeric stands for a
numeric primitive, for the type of a failed expression or for an unbound variable that must be
numeric, unless it was reported as not numeric before; and all variables that must be numeric are
unbound. -/
theorem bounds_kept {u : Unifier} {required : List Requirement} {taken : List Diagnostic}
    (h : u.Comes required taken) :
    (∀ r ∈ required,
      (∃ p : Primitive, u.apply r.ty = .prim p ∧ p.isNumeric = true) ∨
      u.apply r.ty = .error ∨
      (∃ v, u.apply r.ty = .var v ∧ u.substitution.type? v = none ∧
        (u.numeric.get? v).isSome = true) ∨
      u.Refused required (taken ++ u.errors) r.ty) ∧
    ∀ v, (u.numeric.get? v).isSome = true → u.substitution.type? v = none := by
  have hans := h.answers
  refine ⟨fun r hr => ?_, hans.unbound⟩
  rcases hans.settled r hr with (herror | hprim | ⟨v, hv, hn⟩) | hrefused
  · exact .inr (.inl herror)
  · exact .inl hprim
  · exact .inr (.inr (.inl ⟨v, hv, hans.unbound v hn, hn⟩))
  · exact .inr (.inr (.inr hrefused))

/-- A bound moves from one variable to another one, and the other one is a string in the end. Of two
instances, one is a number and the other one stays open. -/
def movedBound : List PassOp :=
  let why := .of .synthetic .functionArg
  let number : Scheme := ⟨[0], [], .ofList [0], .var 0⟩
  [.freshTypeVar, .freshTypeVar, .requireNumeric (.var 0) why, .unify (.var 0) (.var 1) why,
    .instantiate number .synthetic, .instantiate number .synthetic,
    .unify (.var 2) (.prim .s32) why, .unify (.var 1) .string why]

/-- The string was reported as not numeric. -/
theorem movedBound_refused :
    (PassOp.run .empty movedBound).Refused (PassOp.requiredBy .empty movedBound)
      (PassOp.run .empty movedBound).errors (.var 0) := by
  have below : ∀ (n : Nat) (t : Ty), t.effects = [] → t.Below n := fun _ _ =>
    Ty.below_of_effects_eq_nil
  have hmade : PassOp.AllMade .empty movedBound :=
    ⟨trivial, trivial, below _ _ rfl, ⟨below _ _ rfl, below _ _ rfl⟩, nofun, nofun,
      ⟨below _ _ rfl, below _ _ rfl⟩, ⟨below _ _ rfl, below _ _ rfl⟩, trivial⟩
  have hstring : (PassOp.run .empty movedBound).apply (.var 0) = .string := by decide +kernel
  rcases (bounds_kept (Unifier.Comes.new.run hmade)).1 ⟨.var 0, .synthetic⟩ List.mem_cons_self with
    ⟨p, hp, -⟩ | herror | ⟨v, hv, -⟩ | hrefused
  · cases hstring.symm.trans hp
  · cases hstring.symm.trans herror
  · cases hstring.symm.trans hv
  · exact hrefused

end RowCheck
