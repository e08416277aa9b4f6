import RowCheck.Proofs.Typing.Rules

/-!
Checking patterns, as far as types go. A pattern that is checked against a type has that type, its
parts have the types that its form calls for, and the names that it binds are in scope afterwards.
-/
namespace RowCheck

namespace Unifier

variable {u u' : Unifier} {r : Registries}

/-- An equation between an arrow and the type of a failed expression changes nothing. -/
theorem unify_error_leavesTypes (p q : Ty) (e : Row) (why : Provenance) :
    LeavesTypes (unify (.fn p q e) .error why) := by
  have hsolve : LeavesTypes (solve (.fn p q e) .error).run := by
    have habsorb := (absorb_changesRows (.fn p q e) .error).leavesTypes
    refine .run_get_bind fun u => ⟨fun u' => ?_⟩
    unfold solveWithin solveStep
    exact habsorb.moves u'
  unfold unify
  refine hsolve.bind fun result => ?_
  split
  · exact .pure _
  · exact .get_bind fun _ => (note_leavesTypes ..).bind fun _ => report_leavesTypes _
  · refine .get_bind fun _ => .get_bind fun _ => (note_leavesTypes ..).bind fun _ => ?_
    exact report_leavesTypes _

theorem freshItems_gives (hu : u.Sound) (ps : List Pattern) :
    u.Gives (Checker.freshItems ps) (fun ts _ => ts.length = ps.length ∧
      ∀ t ∈ ts, ∀ u' : Unifier, u'.Knows t) := by
  induction ps generalizing u with
  | nil => exact .pure hu ⟨rfl, by simp⟩
  | cons p ps ih =>
    unfold Checker.freshItems
    refine (freshType_gives hu).bind fun t u₁ h₁ ht => ?_
    refine (ih h₁.sound).bind fun ts u₂ h₂ hts => .pure h₂.sound ⟨by simp [hts.1], ?_⟩
    simp only [List.mem_cons, forall_eq_or_imp]
    exact ⟨ht, hts.2⟩

/-- Whether a case belongs to the type of a scrutinee, whatever that comes to stand for, and has the
given fields. -/
def Suits (u : Unifier) (r : Registries) (expected : Ty) (name : String) : CaseTarget → Prop
  | .variant typeName fields => ∃ d v, r.types.get? typeName = some d ∧
      d.variant? name = some v ∧ u.Forces fun w => ∃ types,
        w.apply expected = .named typeName types ∧ d.FieldsFit v types (fields.map w.apply)
  | .active pattern fields => u.Forces fun w => fields.map w.apply = r.caseFields pattern name

theorem Suits.leads {expected : Ty} {name : String} {target : CaseTarget}
    (h : u.Suits r expected name target) (hu : u.Leads u') : u'.Suits r expected name target := by
  cases target with
  | variant typeName fields =>
    obtain ⟨d, v, hd, hv, hforces⟩ := h
    exact ⟨d, v, hd, hv, hforces.leads hu⟩
  | active pattern fields => exact Forces.leads h hu

/-- What is known of a pattern that was checked. -/
structure KnowsPattern (u : Unifier) (r : Registries) (p : TPattern) : Prop where
  typed : u.Forces fun v => (p.settle v.substitution).WellTyped r
  names : ∀ n ∈ p.bindings, u.Knows n.2.1

theorem KnowsPattern.leads {p : TPattern} (h : u.KnowsPattern r p) (hu : u.Leads u') :
    u'.KnowsPattern r p :=
  ⟨h.typed.leads hu, fun n hn => (h.names n hn).leads hu⟩

/-- A pattern of a case has arguments for the fields of the case. -/
theorem Suits.knowsPattern {expected : Ty} {name : String} {target : CaseTarget}
    (h : u.Suits r expected name target) (span : Span) {args : List TPattern}
    (hty : args.map TPattern.ty = target.fields) (hargs : ∀ p ∈ args, u.KnowsPattern r p) :
    u.KnowsPattern r (target.toPattern span expected name args) := by
  have hall : ∀ {v : Unifier}, u.Leads v → v.errors = [] →
      (∀ p ∈ TPattern.settleList v.substitution args, p.WellTyped r) ∧
      (TPattern.settleList v.substitution args).map TPattern.ty = target.fields.map v.apply := by
    intro v hv he
    rw [TPattern.settleList_eq, ← hty, List.map_map, List.map_map]
    refine ⟨fun p hp => ?_, List.map_congr_left fun p _ => TPattern.ty_settle _ p⟩
    obtain ⟨q, hq, rfl⟩ := List.mem_map.1 hp
    exact (hargs q hq).typed v hv he
  have hnames : ∀ n ∈ TPattern.bindingsList args, u.Knows n.2.1 := by
    intro n hn
    rw [TPattern.bindingsList_eq] at hn
    obtain ⟨p, hp, hn⟩ := List.mem_flatMap.1 hn
    exact (hargs p hp).names n hn
  cases target with
  | variant typeName fields =>
    obtain ⟨d, v, hd, hv, hforces⟩ := h
    refine ⟨fun w hw he => ?_, hnames⟩
    obtain ⟨types, ht, hfit⟩ := hforces w hw he
    obtain ⟨hwell, htypes⟩ := hall hw he
    exact .variant ht hd hv (htypes ▸ hfit) hwell
  | active pattern fields =>
    refine ⟨fun w hw he => ?_, hnames⟩
    obtain ⟨hwell, htypes⟩ := hall hw he
    exact .active (htypes.trans (h w hw he)) hwell

end Unifier

namespace Checker

open Unifier

variable {r : Registries} {c : Checker}

/-- Whether no name in scope has the type of a failed expression, as long as nothing is at fault. -/
def Proper (c : Checker) : Prop := c.unifier.errors = [] → c.env.Proper

theorem Proper.follows {c' : Checker} (h : c.Proper) (hc : c.Follows c') : c'.Proper := fun he => by
  rw [hc.env he]
  exact h (hc.errors_nil he)

/-- The function of an active pattern has the type of its name in scope. -/
theorem activeType_stays (hc : c.Sound) (hp : c.Proper) (p : ActivePattern) (span : Span)
    {m : Ty → CheckM (CaseTarget × Row)} {Q : CaseTarget × Row → Checker → Prop}
    (hm : ∀ t c', c.Follows c' → c'.unifier.Knows t ∨ t = .error → c'.Stays (m t) Q) :
    c.Stays (match c.env.lookup p.name with
      | some s => liftM (s.instantiate span) >>= m
      | none => pure Ty.error >>= m) Q := by
  split
  · rename_i s hs
    refine .lift_bind hc (instantiate_gives hc.sound ⟨hc.env.lookup hs, fun he => ?_⟩ span)
      fun t c₁ h₁ ht => hm t c₁ h₁ (.inl ht.1)
    exact hp he p.name s hs
  · exact (Stays.pure hc (Q := fun t _ => t = .error) rfl).bind fun t c₁ h₁ ht =>
      hm t c₁ h₁ (.inr ht)

theorem caseFields_spec (hr : r.Defined) (hfree : r.ErrorFree) {p : ActivePattern}
    (hp : r.Owns p) (name : String) (u : Unifier) :
    (∀ t ∈ r.caseFields p.name name, u.Knows t) ∧
      (r.caseFields p.name name).map u.apply = r.caseFields p.name name := by
  obtain ⟨d, hd, hparams, -⟩ := hp
  unfold Registries.caseFields
  rw [hd, Option.bind_some]
  split
  · rename_i v hv
    have hfit := SumType.fieldsFit_apply (d := d) (hr.rows hd hv) u []
    have hown : ∀ t ∈ v.fields, ∀ w ∈ t.vars, w ∈ d.params :=
      hr.params _ d hd v (List.mem_of_find?_eq_some hv)
    have hfields : d.fieldsAt v [] = v.fields := by
      refine (List.map_congr_left fun t ht => ?_).trans (List.map_id _)
      refine Ty.mapVars_eq_self (fun w hw => ?_) fun _ _ => rfl
      have := hown t ht w hw
      simp [hparams] at this
    rw [List.map_nil, SumType.fieldsFit_iff hown (by simp [hparams]), hfields] at hfit
    refine ⟨fun t ht => ?_, hfit⟩
    have hargs : ∀ t ∈ ([] : List Ty), u.Knows t := by simp
    exact SumType.knows_fieldsAt (hr.rows hd hv) (hfree.variant hd hv) hargs t
      (hfields.symm ▸ ht)
  · exact ⟨by simp, rfl⟩

/-- What a name of a constructor was found to stand for. -/
structure FoundCase (c : Checker) (r : Registries) (expected : Ty) (name : String)
    (target : CaseTarget) : Prop where
  fields : ∀ t ∈ target.fields, c.unifier.Knows t
  suits : c.unifier.Suits r expected name target

theorem applyActive_stays (hr : r.Defined) (hfree : r.ErrorFree) (hc : c.Sound) (hp : c.Proper)
    {p : ActivePattern} (hown : r.Owns p) (name : String) {expected : Ty}
    (ht : c.unifier.Knows expected) (span : Span) :
    c.Stays (applyActive r p name expected span) (fun found c' =>
      c'.FoundCase r expected name found.1) := by
  unfold applyActive
  refine .get_bind (activeType_stays hc hp p span fun function c₁ h₁ hf => ?_)
  refine .lift_bind h₁.sound (freshFunction_gives h₁.sound.sound) fun parts c₂ h₂ hparts => ?_
  have hfn := knows_fn.2 hparts
  obtain ⟨hparam, hresult, heffects⟩ := hparts
  have happly : c₂.Stays (liftM (unify (.fn parts.1 parts.2.1 parts.2.2) function
      (.of span .application))) (fun _ _ => True) := by
    rcases hf with hf | rfl
    · exact (unify_stays h₂.sound hfn (hf.leads h₂.unifier) _).imp fun _ _ _ _ => trivial
    · exact .lift h₂.sound ((unify_error_leavesTypes ..).gives h₂.sound.sound
        ((Unifier.unify_does h₂.sound.sound.toValid hfn.below (Ty.below_of_effects_eq_nil rfl) _).imp
          fun _ _ _ _ => trivial))
  refine happly.bind fun _ c₃ h₃ _ => ?_
  refine (unify_stays h₃.sound (hparam.leads h₃.unifier)
    (ht.leads (h₁.trans (h₂.trans h₃)).unifier) _).bind fun _ c₄ h₄ _ => ?_
  refine (unify_stays h₄.sound (knows_named.2 (by simp))
    (hresult.leads (h₃.trans h₄).unifier) _).bind fun _ c₅ h₅ _ => .get_bind ?_
  refine (includeRow_stays h₅.sound (heffects.mono (h₃.trans (h₄.trans h₅)).unifier.rows) _).bind
    fun _ c₆ h₆ _ => .pure h₆.sound ⟨?_, fun v _ _ => ?_⟩
  · exact (caseFields_spec hr hfree hown name _).1
  · exact (caseFields_spec hr hfree hown name v).2

theorem ownVariant?_spec (hr : r.Defined) (hfree : r.ErrorFree) {u : Unifier} (hu : u.Sound)
    {expected : Ty} (ht : u.Knows expected) {name : String} {target : CaseTarget}
    (h : ownVariant? r name (u.apply expected) = some target) :
    (∀ t ∈ target.fields, u.Knows t) ∧ u.Suits r expected name target := by
  have happlied : u.Knows (u.apply expected) :=
    ⟨hu.substitution.apply_below ht.below, fun he => ht.clean hu he⟩
  unfold ownVariant? at h
  split at h
  · rename_i typeName args heq
    simp only [Option.bind_eq_bind, Option.bind_eq_some_iff, Option.pure_def,
      Option.some.injEq] at h
    obtain ⟨d, hd, v, hv, rfl⟩ := h
    rw [heq] at happlied
    refine ⟨SumType.knows_fieldsAt (hr.rows hd hv) (hfree.variant hd hv) (knows_named.1 happlied),
      d, v, hd, hv, fun w hw _ => ⟨args.map w.apply, ?_, SumType.fieldsFit_apply (hr.rows hd hv) w _⟩⟩
    rw [← hw.toGrows.apply hu.toValid, heq, apply_named]
  · cases h

theorem resolveCase_stays (hr : r.Defined) (hfree : r.ErrorFree) (hc : c.Sound) (hp : c.Proper)
    (name : String) {expected : Ty} (ht : c.unifier.Knows expected) (span : Span) :
    c.Stays (resolveCase r name expected span) (fun found c' =>
      ∀ f, found = some f → c'.FoundCase r expected name f.1) := by
  unfold resolveCase
  refine .get_bind ?_
  split
  · rename_i target htarget
    refine .pure hc fun f hf => ?_
    cases hf
    obtain ⟨hfields, hsuits⟩ := ownVariant?_spec hr hfree hc.sound ht htarget
    exact ⟨hfields, hsuits⟩
  · split
    · rename_i p hcase
      have hown : r.Owns p := by
        simp only [ActiveRegistry.ofCase?, Option.bind_eq_bind, Option.bind_eq_some_iff] at hcase
        obtain ⟨owner, -, hp⟩ := hcase
        exact hr.owned owner p hp
      refine (applyActive_stays hr hfree hc hp hown name ht span).bind fun found c₁ h₁ hfound =>
        .pure h₁.sound fun f hf => ?_
      cases hf
      exact hfound
    · split
      · exact .pure hc (by simp)
      · rename_i d v hcon
        obtain ⟨hd, hv, hname⟩ := hr.constructor hcon
        refine .lift_bind hc (freshTypes_gives hc.sound d.params) fun ts c₁ h₁ hts => ?_
        refine (unify_stays h₁.sound (ht.leads h₁.unifier)
          (knows_named.2 fun t ht => hts.2 t ht _) _).bind fun _ c₂ h₂ heq =>
            .pure h₂.sound fun f hf => ?_
        cases hf
        refine ⟨SumType.knows_fieldsAt (hr.rows hd hv) (hfree.variant hd hv)
          fun t ht => hts.2 t ht _, d, v, hd, hname ▸ hv, heq.imp fun w h => ⟨ts.map w.apply, ?_,
            SumType.fieldsFit_apply (hr.rows hd hv) w ts⟩⟩
        rw [h, apply_named]

/-- What checking a pattern leads to: it is known, and its names are bound in the innermost scope,
if nothing is at fault. -/
structure Binds (c c' : Checker) (r : Registries) (ps : List TPattern) : Prop where
  known : ∀ p ∈ ps, c'.unifier.KnowsPattern r p
  env : c'.unifier.errors = [] → c'.env = c.env.bindNames (TPattern.bindingsList ps)
  active : c'.unifier.errors = [] → c'.active = c.active

theorem Binds.proper {c' : Checker} {ps : List TPattern} (h : c.Binds c' r ps) (hp : c.Proper)
    (hc : c.Leads c') : c'.Proper := fun he => by
  rw [h.env he]
  refine (hp (hc.errors_nil he)).bindNames fun n hn => ?_
  rw [TPattern.bindingsList_eq] at hn
  obtain ⟨p, hmem, hn⟩ := List.mem_flatMap.1 hn
  exact ((h.known p hmem).names n hn).proper he

/-- A pattern that binds no names leaves the scope as it is. -/
theorem Follows.binds {c' : Checker} (h : c.Follows c') {p : TPattern}
    (hp : c'.unifier.KnowsPattern r p) (hn : p.bindings = []) : c.Binds c' r [p] := by
  refine ⟨by simpa using hp, fun he => ?_, h.active⟩
  rw [h.env he, TPattern.bindingsList, hn]
  rfl

theorem binds_of_errors {c' : Checker} (h : c'.unifier.errors ≠ []) {span : Span} {t : Ty} :
    c.Binds c' r [.wild span t] := by
  refine ⟨fun p hp => ?_, fun he => absurd he h, fun he => absurd he h⟩
  obtain rfl := List.mem_singleton.1 hp
  exact ⟨forces_of_errors h, by simp [TPattern.bindings]⟩

theorem bindPatternName_gives (hc : c.Sound) (name : String) {expected : Ty}
    (ht : c.unifier.Knows expected) (span : Span) :
    c.Gives (bindPatternName name expected span) (fun p c' => p.ty = expected ∧
      c.Binds c' r [p]) := by
  unfold bindPatternName
  refine (checkName_stays hc _).gives.bind fun _ c₁ h₁ hfol => ?_
  have hbelow := hfol.1.sound.env.bind name (Scheme.below_mono_iff.2 (ht.leads h₁.unifier).below)
  refine (modifyEnv_gives hfol.1.sound hbelow).bind fun _ c₂ h₂ hc₂ => .pure h₂.sound ⟨rfl, ?_⟩
  subst hc₂
  refine ⟨fun p hp => ?_, fun he => ?_, hfol.1.active⟩
  · obtain rfl := List.mem_singleton.1 hp
    refine ⟨fun v _ _ => .bind, fun n hn => ?_⟩
    obtain rfl := List.mem_singleton.1 hn
    exact ht.leads h₁.unifier
  · rw [← hfol.1.env he]
    rfl

/-- What checking a pattern for a type gives. -/
abbrev ChecksPattern (c : Checker) (r : Registries) (expected : Ty) (m : CheckM (TPattern × Row)) :
    Prop :=
  c.Gives m (fun q c' => q.1.ty = expected ∧ c.Binds c' r [q.1])

/-! ## Forms -/

/-- Whether checking a pattern gives a known one, for whatever type. -/
def InfersPattern (r : Registries) (p : Pattern) : Prop :=
  ∀ (expected : Ty) (own : Row) ⦃c : Checker⦄, c.Sound → c.Proper → c.unifier.Knows expected →
    c.ChecksPattern r expected (inferPattern r p expected own)

section

variable {span : Span} {ps : List Pattern}

-- what is done for each form is read off the equation of its own
attribute [local simp] inferPattern

theorem infersPattern_wild (span : Span) : InfersPattern r (.wild span) := by
  intro expected own c hc hp ht
  rw [inferPattern]
  exact .pure hc ⟨rfl, hc.follows.binds ⟨fun _ _ _ => .wild, by simp [TPattern.bindings]⟩ rfl⟩

/-- A name that is written like a constructor may be one. -/
theorem infersPattern_var (hr : r.Defined) (hfree : r.ErrorFree) (span : Span) (name : String) :
    InfersPattern r (.var span name) := by
  intro expected own c hc hp ht
  have hfound : ∀ {m : Option (CaseTarget × Row) → CheckM (TPattern × Row)},
      (∀ found c', c.Follows c' → (∀ f, found = some f → c'.FoundCase r expected name f.1) →
        c'.Gives (m found) (fun q c'' => q.1.ty = expected ∧ c.Binds c'' r [q.1])) →
      c.ChecksPattern r expected (if Text.isCapitalized name then
        resolveCase r name expected span >>= m else pure none >>= m) := by
    intro m hm
    split
    · exact (resolveCase_stays hr hfree hc hp name ht span).gives.bind fun found c₁ _ h =>
        hm found c₁ h.1 h.2
    · exact hm none c hc.follows (by simp)
  rw [inferPattern]
  refine hfound fun found c₁ h₁ hf => ?_
  dsimp only
  split
  · refine (bindPatternName_gives h₁.sound name (ht.leads h₁.unifier) span).bind
      fun p c₂ h₂ hq => .pure h₂.sound ⟨hq.1, hq.2.known, fun he => ?_, fun he => ?_⟩
    · rw [hq.2.env he, h₁.env (h₂.errors_nil he)]
    · rw [hq.2.active he, h₁.active (h₂.errors_nil he)]
  · rename_i target effects
    obtain ⟨-, hsuits⟩ := hf _ rfl
    split
    · rename_i hempty
      have hnil : ([] : List TPattern).map TPattern.ty = target.fields :=
        (List.isEmpty_iff.1 hempty).symm
      refine .pure h₁.sound ⟨by cases target <;> rfl,
        h₁.binds (hsuits.knowsPattern span hnil (by simp)) (by cases target <;> rfl)⟩
    · exact (fail_stays h₁.sound _ _ _).gives.bind fun _ _ h he =>
        .pure h.sound ⟨rfl, binds_of_errors he.2⟩

theorem infersPattern_lit (span : Span) (value : Literal) : InfersPattern r (.lit span value) := by
  intro expected own c hc hp ht
  rw [inferPattern]
  refine (checkLiteral_stays hc value span).gives.bind fun _ c₁ _ h₁ => ?_
  refine (unify_stays h₁.1.sound (ht.leads h₁.1.unifier) (knows_literal value) _).gives.bind
    fun _ c₂ _ h₂ => .pure h₂.1.sound ⟨rfl, (h₁.1.trans h₂.1).binds ⟨fun v hv he => .lit ?_, ?_⟩ rfl⟩
  · refine (h₂.2 v hv he).trans ?_
    cases value <;> rfl
  · simp [TPattern.bindings]

theorem inferPatterns_gives (h : ∀ p ∈ ps, InfersPattern r p) {ts : List Ty} (own : Row)
    (hc : c.Sound) (hp : c.Proper) (hlen : ps.length = ts.length)
    (ht : ∀ t ∈ ts, c.unifier.Knows t) :
    c.Gives (inferPatterns r ps ts own) (fun q c' => q.1.map TPattern.ty = ts ∧
      c.Binds c' r q.1) := by
  induction ps generalizing c ts own with
  | nil =>
    obtain rfl := List.length_eq_zero_iff.1 hlen.symm
    unfold inferPatterns
    exact .pure hc ⟨rfl, by simp, fun _ => rfl, fun _ => rfl⟩
  | cons p ps ih =>
    obtain ⟨t, ts, rfl⟩ := List.exists_cons_of_length_eq_add_one hlen.symm
    simp only [List.mem_cons, forall_eq_or_imp] at h ht
    unfold inferPatterns
    refine (h.1 t own hc hp ht.1).bind fun q c₁ h₁ hq => ?_
    refine (ih h.2 q.2 h₁.sound (hq.2.proper hp h₁) (Nat.succ.inj hlen)
      fun t h => (ht.2 t h).leads h₁.unifier).bind fun s c₂ h₂ hs =>
        .pure h₂.sound ⟨by rw [List.map_cons, hq.1, hs.1], ?_, fun he => ?_, fun he => ?_⟩
    · simp only [List.mem_cons, forall_eq_or_imp]
      exact ⟨(hq.2.known _ List.mem_cons_self).leads h₂.unifier, hs.2.known⟩
    · rw [hs.2.env he, hq.2.env (h₂.errors_nil he), TypeEnv.bindNames, TypeEnv.bindNames,
        TypeEnv.bindNames, ← List.foldl_append, TPattern.bindingsList, TPattern.bindingsList,
        List.append_nil, TPattern.bindingsList]
    · rw [hs.2.active he, hq.2.active (h₂.errors_nil he)]

/-- The names of a pattern at fault do not matter. -/
theorem bindOnly_gives (h : ∀ p ∈ ps, InfersPattern r p) (own : Row) (hc : c.Sound)
    (he : c.unifier.errors ≠ []) : c.Gives (bindOnly r ps own) (fun _ _ => True) := by
  induction ps generalizing c own with
  | nil =>
    unfold bindOnly
    exact .pure hc trivial
  | cons p ps ih =>
    simp only [List.mem_cons, forall_eq_or_imp] at h
    unfold bindOnly
    refine (Stays.lift hc (freshType_gives hc.sound)).gives.bind fun t c₁ h₁ ht => ?_
    have he₁ : c₁.unifier.errors ≠ [] := fun h => he (h₁.errors_nil h)
    refine (h.1 t own h₁.sound (fun h => absurd h he₁) (ht.2 _)).bind fun q c₂ h₂ _ => ?_
    exact ih h.2 q.2 h₂.sound fun h => he₁ (h₂.errors_nil h)

theorem infersPattern_tuple (h : ∀ p ∈ ps, InfersPattern r p) :
    InfersPattern r (.tuple span ps) := by
  intro expected own c hc hp ht
  rw [inferPattern]
  refine (Stays.lift hc (freshItems_gives hc.sound ps)).gives.bind fun ts c₁ _ h₁ => ?_
  obtain ⟨h₁, hlen, hts⟩ := h₁
  refine (unify_stays h₁.sound (ht.leads h₁.unifier) (knows_tuple.2 fun t ht => hts t ht _)
    _).gives.bind fun _ c₂ _ h₂ => ?_
  obtain ⟨h₂, heq⟩ := h₂
  have h₁₂ := h₁.trans h₂
  refine (inferPatterns_gives h own h₂.sound (hp.follows h₁₂) hlen.symm
    (fun t ht => hts t ht _)).bind fun q c₃ h₃ hq => .pure h₃.sound ⟨rfl, ?_⟩
  refine ⟨fun p hmem => ?_, fun he => ?_, fun he => ?_⟩
  · obtain rfl := List.mem_singleton.1 hmem
    refine ⟨fun v hv he => .tuple ?_ fun p hp => ?_, fun n hn => ?_⟩
    · refine ((heq.leads h₃.unifier) v hv he).trans ?_
      rw [apply_tuple, TPattern.settleList_eq, List.map_map, ← hq.1, List.map_map]
      exact congrArg Ty.tuple (List.map_congr_left fun p _ => (TPattern.ty_settle _ p).symm)
    · rw [TPattern.settleList_eq] at hp
      obtain ⟨item, hitem, rfl⟩ := List.mem_map.1 hp
      exact (hq.2.known item hitem).typed v hv he
    · rw [TPattern.bindings, TPattern.bindingsList_eq] at hn
      obtain ⟨p, hp, hn⟩ := List.mem_flatMap.1 hn
      exact (hq.2.known p hp).names n hn
  · rw [hq.2.env he, h₁₂.env (h₃.errors_nil he), TPattern.bindingsList, TPattern.bindings,
      TPattern.bindingsList, List.append_nil]
  · rw [hq.2.active he, h₁₂.active (h₃.errors_nil he)]

theorem infersPattern_ctor (hr : r.Defined) (hfree : r.ErrorFree) (name : String)
    (h : ∀ p ∈ ps, InfersPattern r p) : InfersPattern r (.ctor span name ps) := by
  intro expected own c hc hp ht
  rw [inferPattern]
  refine (resolveCase_stays hr hfree hc hp name ht span).gives.bind fun found c₁ _ h₁ => ?_
  obtain ⟨h₁, hfound⟩ := h₁
  split
  · refine (fail_stays h₁.sound _ _ _).gives.bind fun _ c₂ h₂ he => ?_
    refine (bindOnly_gives h own h₂.sound he.2).bind fun _ c₃ h₃ _ =>
      .pure h₃.sound ⟨rfl, binds_of_errors fun he' => he.2 (h₃.errors_nil he')⟩
  · rename_i target effects
    obtain ⟨hfields, hsuits⟩ := hfound _ rfl
    split
    · rename_i hlen
      refine (inferPatterns_gives h _ h₁.sound (hp.follows h₁) hlen.symm hfields).bind
        fun q c₂ h₂ hq => .pure h₂.sound
          ⟨by cases target <;> rfl, fun p hmem => ?_, fun he => ?_, fun he => ?_⟩
      · obtain rfl := List.mem_singleton.1 hmem
        exact (hsuits.leads h₂.unifier).knowsPattern span hq.1 hq.2.known
      · rw [hq.2.env he, h₁.env (h₂.errors_nil he), TPattern.bindingsList,
          TPattern.bindingsList, List.append_nil]
        cases target <;> rfl
      · rw [hq.2.active he, h₁.active (h₂.errors_nil he)]
    · refine (fail_stays h₁.sound _ _ _).gives.bind fun _ c₂ h₂ he => ?_
      refine (bindOnly_gives h _ h₂.sound he.2).bind fun _ c₃ h₃ _ =>
        .pure h₃.sound ⟨rfl, binds_of_errors fun he' => he.2 (h₃.errors_nil he')⟩

end

mutual

/-- Checking a pattern gives a known one. -/
theorem infersPattern (hr : r.Defined) (hfree : r.ErrorFree) : (p : Pattern) → InfersPattern r p
  | .wild span => infersPattern_wild span
  | .var span name => infersPattern_var hr hfree span name
  | .lit span value => infersPattern_lit span value
  | .tuple _ items => infersPattern_tuple (infersPatterns hr hfree items)
  | .ctor _ name args => infersPattern_ctor hr hfree name (infersPatterns hr hfree args)

theorem infersPatterns (hr : r.Defined) (hfree : r.ErrorFree) : (ps : List Pattern) →
    ∀ p ∈ ps, InfersPattern r p
  | [] => List.forall_mem_nil _
  | p :: ps => List.forall_mem_cons.2 ⟨infersPattern hr hfree p, infersPatterns hr hfree ps⟩

end

end Checker

end RowCheck
