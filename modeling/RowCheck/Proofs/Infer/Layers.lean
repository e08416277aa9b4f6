import RowCheck.Proofs.Infer.Echoes

/-!
Scopes in which names are bound alike, apart from one that has another name in one of them: what
patterns and parameters do, and so what checking a function does, in environments with such a scope
each.
-/
namespace RowCheck

/-! ## Names that are bound in a scope of their own -/

/-- Whether a scope is another one, and binds `x` only if that is among some names. If the flag is
set, it binds `y` in the place of `x`. -/
inductive Layer (x y : String) (bound : List String) :
    Bool → SortedMap String Scheme → SortedMap String Scheme → Prop
  | same {s : SortedMap String Scheme} : s.get? y = none →
      (s.get? x).isNone = decide (x ∉ bound) → Layer x y bound false s s
  | rekeyed {s s' : SortedMap String Scheme} : Rekeyed x y s s' → Layer x y bound true s s'

namespace TypeEnv

/-- The environment with one scope more. -/
def within (env : TypeEnv) (s : SortedMap String Scheme) : TypeEnv := ⟨env.globals, s :: env.scopes⟩

/-- Whether two environments are other ones with a scope more, in which some names are bound. -/
def Layered (x y : String) (bound : List String) (moved : Bool) (env env' : TypeEnv) :
    TypeEnv → TypeEnv → Prop := fun e e' =>
  ∃ s s', Layer x y bound moved s s' ∧ e = env.within s ∧ e' = env'.within s'

variable {x y : String} {on moved : Bool} {bound : List String} {env env' e e' : TypeEnv}

theorem Layered.renamed (h : Layered x y bound moved env env' e e')
    (henv : env.Renamed x y on env') :
    e.Renamed x y (moved || (on && decide (x ∉ bound))) e' := by
  obtain ⟨s, s', hs, rfl, rfl⟩ := h
  refine ⟨henv.globals, ?_⟩
  cases hs with
  | same hy hx => exact hx ▸ .keep hy henv.scopes
  | rekeyed h => exact .rekey h henv.scopes

theorem layered_pushScope (x y : String) (env env' : TypeEnv) :
    Layered x y [] false env env' env.pushScope env'.pushScope :=
  ⟨∅, ∅, .same rfl rfl, rfl, rfl⟩

theorem Layered.popScope (h : Layered x y bound moved env env' e e') :
    e.popScope = env ∧ e'.popScope = env' := by
  obtain ⟨s, s', -, rfl, rfl⟩ := h
  exact ⟨rfl, rfl⟩

theorem Layered.bind (h : Layered x y bound false env env' e e') {name : String} (hy : name ≠ y)
    (c : Scheme) :
    Layered x y (bound ++ [name]) false env env' (e.bind name c) (e'.bind name c) := by
  obtain ⟨s, s', hs, rfl, rfl⟩ := h
  refine ⟨s.insert name c, s'.insert name c, ?_, rfl, rfl⟩
  cases hs with
  | same hfresh hx =>
    refine .same (by rw [SortedMap.get?_insert, if_neg hy, hfresh]) ?_
    rw [SortedMap.get?_insert]
    by_cases he : name = x
    · simp [he]
    · simp [he, hx, Ne.symm he]

theorem Layered.more {names : List String} (hx : x ∉ names)
    (h : Layered x y bound moved env env' e e') :
    Layered x y (bound ++ names) moved env env' e e' := by
  obtain ⟨s, s', hs, rfl, rfl⟩ := h
  refine ⟨s, s', ?_, rfl, rfl⟩
  cases hs with
  | same hfresh hb => exact .same hfresh (by simpa [hx] using hb)
  | rekeyed h => exact .rekeyed h

/-- A name that is renamed is bound in the place of the other one. -/
theorem Layered.rename (h : Layered x y bound false env env' e e') (hx : x ∉ bound) (hne : x ≠ y)
    (c : Scheme) (bound' : List String) :
    Layered x y bound' true env env' (e.bind x c) (e'.bind y c) := by
  obtain ⟨s, s', hs, rfl, rfl⟩ := h
  refine ⟨s.insert x c, s'.insert y c, ?_, rfl, rfl⟩
  cases hs with
  | same hfresh hnone =>
    rw [decide_eq_true hx, Option.isNone_iff_eq_none] at hnone
    exact .rekeyed (.of_insert hnone hfresh hne c)

theorem Layered.bind_renamed (h : Layered x y bound true env env' e e') {name : String}
    (hx : name ≠ x) (hy : name ≠ y) (c : Scheme) (bound' : List String) :
    Layered x y bound' true env env' (e.bind name c) (e'.bind name c) := by
  obtain ⟨s, s', hs, rfl, rfl⟩ := h
  refine ⟨s.insert name c, s'.insert name c, ?_, rfl, rfl⟩
  cases hs with
  | rekeyed h => exact .rekeyed (h.insert hx hy c)

end TypeEnv

namespace Checker

open TypeEnv

variable {x y : String} {on : Bool} {bound : List String} {env env' : TypeEnv} {r : Registries}

theorem bindMono_echoes {name : String} (hy : name ≠ y) (t : Ty) :
    Echoes (Layered x y bound false env env') (Layered x y (bound ++ [name]) false env env')
      (bindMono name t) (bindMono name t) (· = ·) :=
  modifyEnv_echoes fun _ _ h => h.bind hy _

/-! ## Patterns -/

theorem bindPatternName_echoes {name : String} (hy : name ≠ y) (t : Ty) (span : Span) :
    Echoes (Layered x y bound false env env') (Layered x y (bound ++ [name]) false env env')
      (bindPatternName name t span) (bindPatternName name t span) (· = ·) := by
  unfold bindPatternName
  exact (checkName_echoes _).then fun _ => (bindMono_echoes hy t).then fun _ => .pure rfl

mutual

/-- A pattern binds its names alike in both runs. -/
theorem inferPattern_echoes (henv : env.Renamed x y on env') (hx : r.Local x)
    (hy : r.Local y) : (p : Pattern) → (t : Ty) → (own : Row) → (bound : List String) →
    y ∉ p.bindings →
    Echoes (Layered x y bound false env env') (Layered x y (bound ++ p.bindings) false env env')
      (inferPattern r p t own) (inferPattern r p t own) (· = ·)
  | .wild span, t, own, bound, _ => by
    unfold inferPattern
    rw [Pattern.bindings, List.append_nil]
    exact .pure rfl
  | .var span name, t, own, bound, h => by
    have hname : name ≠ y := fun he => h (he ▸ List.mem_singleton_self name)
    have hbind : Echoes (Layered x y bound false env env')
        (Layered x y (bound ++ [name]) false env env') (do
        return (← bindPatternName name t span, own)) (do
        return (← bindPatternName name t span, own)) (· = ·) :=
      (bindPatternName_echoes hname t span).then fun _ => .pure rfl
    unfold inferPattern
    split
    · obtain rfl | hxn := eq_or_ne name x
      · -- the name that is renamed elsewhere is that of no case, so the pattern binds it
        rw [resolveCase_local hx]
        exact hbind
      · refine (Echoes.of_at fun e e' he =>
          resolveCase_echoes (he.renamed henv) hx hy name t span).then fun found => ?_
        dsimp only
        split
        · exact hbind
        · have hmore : x ∉ (Pattern.var span name).bindings := by
            simpa [Pattern.bindings] using hxn.symm
          refine Echoes.grow (fun _ _ => Layered.more hmore) ?_
          split
          · exact .pure rfl
          · exact (fail_echoes _ _ _).then fun _ => .pure rfl
    · exact hbind
  | .lit span value, t, own, bound, _ => by
    unfold inferPattern
    rw [Pattern.bindings, List.append_nil]
    exact (checkLiteral_echoes _ _).then fun _ => (lift_echoes _).then fun _ => .pure rfl
  | .tuple span items, t, own, bound, h => by
    unfold inferPattern
    refine ((lift_echoes (freshItems items)).and (P := fun ts => items.length ≤ ts.length)
      (fun c => Nat.le_of_eq (length_freshItems items c.unifier).symm)).bind ?_
    rintro ts _ ⟨rfl, hlen⟩
    exact (lift_echoes _).then fun _ =>
      (inferPatterns_echoes henv hx hy items ts own bound hlen h).then fun _ => .pure rfl
  | .ctor span name args, t, own, bound, h => by
    unfold inferPattern
    refine (Echoes.of_at fun e e' he =>
      resolveCase_echoes (he.renamed henv) hx hy name t span).then fun found => ?_
    split
    · exact (fail_echoes _ _ _).then fun _ =>
        (bindOnly_echoes henv hx hy args own bound h).then fun _ => .pure rfl
    · split
      · rename_i hlen
        have hlen : args.length ≤ _ := Nat.le_of_eq hlen.symm
        exact (inferPatterns_echoes henv hx hy args _ _ bound hlen h).then fun _ => .pure rfl
      · exact (fail_echoes _ _ _).then fun _ =>
          (bindOnly_echoes henv hx hy args _ bound h).then fun _ => .pure rfl

theorem inferPatterns_echoes (henv : env.Renamed x y on env') (hx : r.Local x)
    (hy : r.Local y) : (ps : List Pattern) → (ts : List Ty) → (own : Row) →
    (bound : List String) → ps.length ≤ ts.length → y ∉ Pattern.bindingsList ps →
    Echoes (Layered x y bound false env env')
      (Layered x y (bound ++ Pattern.bindingsList ps) false env env')
      (inferPatterns r ps ts own) (inferPatterns r ps ts own) (· = ·)
  | [], ts, own, bound, _, _ => by
    unfold inferPatterns
    rw [Pattern.bindingsList, List.append_nil]
    exact .pure rfl
  | _ :: _, [], own, bound, hlen, _ => by
    simp at hlen
  | p :: ps, t :: ts, own, bound, hlen, h => by
    rw [Pattern.bindingsList, List.mem_append, not_or] at h
    unfold inferPatterns
    rw [Pattern.bindingsList, ← List.append_assoc]
    refine (inferPattern_echoes henv hx hy p t own bound h.1).then fun q => ?_
    exact (inferPatterns_echoes henv hx hy ps ts q.2 _ (Nat.le_of_succ_le_succ hlen) h.2).then
      fun _ => .pure rfl

theorem bindOnly_echoes (henv : env.Renamed x y on env') (hx : r.Local x)
    (hy : r.Local y) : (ps : List Pattern) → (own : Row) → (bound : List String) →
    y ∉ Pattern.bindingsList ps →
    Echoes (Layered x y bound false env env')
      (Layered x y (bound ++ Pattern.bindingsList ps) false env env')
      (bindOnly r ps own) (bindOnly r ps own) (· = ·)
  | [], own, bound, _ => by
    unfold bindOnly
    rw [Pattern.bindingsList, List.append_nil]
    exact .pure rfl
  | p :: ps, own, bound, h => by
    rw [Pattern.bindingsList, List.mem_append, not_or] at h
    unfold bindOnly
    rw [Pattern.bindingsList, ← List.append_assoc]
    refine (lift_echoes _).then fun t => ?_
    refine (inferPattern_echoes henv hx hy p t own bound h.1).then fun q => ?_
    exact bindOnly_echoes henv hx hy ps q.2 _ h.2

end

/-! ## Functions -/

/-- Whether some binders have the same types as others. -/
abbrev SameTypes : List Binder → List Binder → Prop := List.Forall₂ fun b b' => b'.ty = b.ty

/-- Whether a body and its effects are known to be the same as others. -/
def SameResult (p p' : TExpr × Row) : Prop := SameInfo p.1 p'.1 ∧ p'.2 = p.2

section

variable {E E₁ E₂ : TypeEnv → TypeEnv → Prop} {r : Registries}

theorem inContext_echoes {body body' : CheckM TExpr} (h : Echoes E E body body' SameInfo)
    (expected : Expected) :
    Echoes E E (inContext body expected) (inContext body' expected) SameResult := by
  have hset : ∀ row : Row, Echoes E E (modify fun c : Checker => { c with context := row })
      (modify fun c : Checker => { c with context := row }) (· = ·) := fun row =>
    modify_echoes fun c c' hc => ⟨hc.unifier, rfl, hc.scope, hc.active, hc.env⟩
  have hrest : ∀ (outer : Row) (e e' : TExpr), SameInfo e e' → Echoes E E (do
      let performed := (← get).context
      modify (fun c => { c with context := outer })
      return (e, performed)) (do
      let performed := (← get).context
      modify (fun c => { c with context := outer })
      return (e', performed)) SameResult := fun outer e e' he =>
    .get_bind fun c c' hc => (hset outer).then fun _ => .pure ⟨he, hc.context⟩
  unfold inContext
  refine .get_bind fun c c' hc => ?_
  rw [hc.context]
  refine (lift_echoes _).then fun inner => (hset inner).then fun _ => h.bind fun e e' he => ?_
  split
  · rw [he.ty]
    exact (lift_echoes _).then fun _ => hrest _ e e' he
  · exact hrest _ e e' he

theorem exposedEffects_echoes (performed : Row) (declared : Declared) (span : Span) :
    Echoes E E (exposedEffects performed declared span) (exposedEffects performed declared span)
      (· = ·) := by
  unfold exposedEffects
  split
  · exact .pure rfl
  · exact (resolving_echoes _).then fun _ => (lift_echoes _).then fun _ => .pure rfl

theorem lambdaChain_sameInfo (span : Span) {body body' : TExpr} (hbody : SameInfo body body')
    (effects : Row) {bs bs' : List Binder} (h : SameTypes bs bs') :
    SameInfo (lambdaChain span body effects bs) (lambdaChain span body' effects bs') := by
  induction h with
  | nil => exact hbody
  | @cons b b' bs bs' hb hbs ih =>
    cases hbs with
    | nil =>
      show Info.quiet span (.fn b'.ty body'.ty effects) = Info.quiet span (.fn b.ty body.ty effects)
      rw [hb, hbody.ty]
    | cons =>
      show Info.quiet span (.arrow b'.ty (lambdaChain span body' effects _).ty) =
        Info.quiet span (.arrow b.ty (lambdaChain span body effects _).ty)
      rw [hb, ih.ty]

/-- A parameter is bound as another one with the same written type, under a name that may differ. -/
theorem bindParams_cons_echoes {p p' : Param} {ps ps' : List Param} (htype : p'.type = p.type)
    (hname : Echoes E E (checkName p.name) (checkName p'.name) (· = ·))
    (hbind : ∀ t, Echoes E E₁ (bindMono p.name.text t) (bindMono p'.name.text t) (· = ·))
    (hrest : Echoes E₁ E₂ (bindParams r ps) (bindParams r ps') SameTypes) :
    Echoes E E₂ (bindParams r (p :: ps)) (bindParams r (p' :: ps')) SameTypes := by
  have hafter : ∀ t : Ty, Echoes E E₂ (do
      bindMono p.name.text t
      return ⟨p.name.text, p.name.span, t, none⟩ :: (← bindParams r ps)) (do
      bindMono p'.name.text t
      return ⟨p'.name.text, p'.name.span, t, none⟩ :: (← bindParams r ps')) SameTypes := fun t =>
    (hbind t).then fun _ => hrest.bind fun _ _ h => .pure (.cons rfl h)
  unfold bindParams
  refine hname.then fun _ => ?_
  rw [htype]
  dsimp only
  split
  · exact (resolving_echoes _).then hafter
  · exact (lift_echoes _).then hafter

end

section

variable {x y : String} {on moved : Bool} {bound names : List String} {env env' : TypeEnv}
  {r : Registries}

theorem bindParams_echoes {ps : List Param} (hy : y ∉ ps.map (·.name.text))
    (bound : List String) : Echoes (Layered x y bound false env env')
      (Layered x y (bound ++ ps.map (·.name.text)) false env env')
      (bindParams r ps) (bindParams r ps) SameTypes := by
  induction ps generalizing bound with
  | nil =>
    rw [List.map_nil, List.append_nil]
    exact .pure .nil
  | cons p ps ih =>
    rw [List.map_cons, List.mem_cons, not_or] at hy
    rw [List.map_cons, ← List.singleton_append, ← List.append_assoc]
    exact bindParams_cons_echoes rfl (checkName_echoes _) (bindMono_echoes (Ne.symm hy.1))
      (ih hy.2 _)

/-- Once the name that is renamed is bound, parameters of other names are bound alike. -/
theorem bindParams_moved {ps : List Param} (hx : x ∉ ps.map (·.name.text))
    (hy : y ∉ ps.map (·.name.text)) : Echoes (Layered x y [] true env env')
      (Layered x y [] true env env') (bindParams r ps) (bindParams r ps) SameTypes := by
  induction ps with
  | nil => exact .pure .nil
  | cons p ps ih =>
    rw [List.map_cons, List.mem_cons, not_or] at hx hy
    refine bindParams_cons_echoes rfl (checkName_echoes _) (fun t => ?_) (ih hx.2 hy.2)
    exact modifyEnv_echoes fun _ _ h => h.bind_renamed (Ne.symm hx.1) (Ne.symm hy.1) _ _

theorem map_rename_of_not_mem {ps : List Param} (hx : x ∉ ps.map (·.name.text)) :
    ps.map (Param.rename x y) = ps := by
  have hkeep : ∀ p ∈ ps, Param.rename x y p = id p := fun p hp =>
    if_neg fun he => hx (List.mem_map.2 ⟨p, hp, he⟩)
  rw [List.map_congr_left hkeep, List.map_id]

/-- A parameter that is renamed is bound in the place of the other one, with the same type. -/
theorem bindParams_rename (hx : r.Local x) (hl : r.Local y) {ps : List Param}
    (hy : y ∉ ps.map (·.name.text)) (hone : (ps.map (·.name.text)).count x = 1)
    {bound : List String} (hb : x ∉ bound) : Echoes (Layered x y bound false env env')
      (Layered x y [] true env env') (bindParams r ps)
      (bindParams r (ps.map (Param.rename x y))) SameTypes := by
  induction ps generalizing bound with
  | nil => simp at hone
  | cons p ps ih =>
    rw [List.map_cons, List.mem_cons, not_or] at hy
    rw [List.map_cons] at hone
    rw [List.map_cons]
    by_cases hp : p.name.text = x
    · subst hp
      rw [List.count_cons_self, Nat.add_eq_right, List.count_eq_zero] at hone
      rw [map_rename_of_not_mem hone, Param.rename, if_pos rfl]
      refine bindParams_cons_echoes rfl ?_ (fun t => ?_) (bindParams_moved hone hy.2)
      · rw [checkName_of_identifier hx.valid, checkName_of_identifier hl.valid]
        exact .pure rfl
      · exact modifyEnv_echoes fun _ _ h => h.rename hb (Ne.symm hy.1) _ _
    · rw [List.count_cons_of_ne hp] at hone
      rw [Param.rename, if_neg hp]
      refine bindParams_cons_echoes rfl (checkName_echoes _) (bindMono_echoes (Ne.symm hy.1))
        (ih hy.2 hone ?_)
      simp [hb, Ne.symm hp]

theorem pushScope_echoes (x y : String) : Echoes (At env env') (Layered x y [] false env env')
    (modifyEnv .pushScope) (modifyEnv .pushScope) (· = ·) := by
  refine modifyEnv_echoes ?_
  rintro _ _ ⟨rfl, rfl⟩
  exact layered_pushScope x y _ _

theorem popScope_echoes : Echoes (Layered x y bound moved env env') (At env env')
    (modifyEnv .popScope) (modifyEnv .popScope) (· = ·) :=
  modifyEnv_echoes fun _ _ h => h.popScope

theorem inferLambda_echoes {ps ps' : List Param} {body body' : CheckM TExpr}
    (hparams : Echoes (Layered x y [] false env env') (Layered x y names moved env env')
      (bindParams r ps) (bindParams r ps') SameTypes)
    (hbody : Echoes (Layered x y names moved env env') (Layered x y names moved env env')
      body body' SameInfo) (span : Span) (expected : Expected) (declared : Declared) :
    Echoes (At env env') (At env env') (inferLambda r ps body span expected declared)
      (inferLambda r ps' body' span expected declared) SameResult := by
  unfold inferLambda
  refine (pushScope_echoes x y).then fun _ => hparams.bind fun bs bs' hbs => ?_
  refine (inContext_echoes hbody expected).bind ?_
  rintro ⟨b, performed⟩ ⟨b', _⟩ ⟨hb, rfl⟩
  dsimp only
  rw [hb.span]
  refine (exposedEffects_echoes _ _ _).then fun effects => popScope_echoes.then fun _ => ?_
  refine .pure ⟨?_, rfl⟩
  refine lambdaChain_sameInfo span hb effects ?_
  cases hbs with
  | nil => exact .cons rfl .nil
  | cons hb hbs => exact .cons hb hbs

end

end Checker

end RowCheck
