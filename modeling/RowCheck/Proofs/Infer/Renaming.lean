import RowCheck.Infer.Group
import RowCheck.Proofs.SortedMap
import RowCheck.Source.Names

/-!
Renaming local names: when an expression is another one up to the names of some of its parameters
and `let`s, and when an environment is. Two such environments have the same scheme for each variable
and its counterpart, and fix the same variables.
-/
namespace RowCheck

def Param.rename (x y : String) (p : Param) : Param :=
  if p.name.text = x then { p with name := ⟨p.name.span, y⟩ } else p

namespace Expr

variable (x y : String)

mutual

/-- Whether an expression is another one in which some of the parameters and `let`s named `x` have
the name `y` instead, and so have the variables that they bind. The flag tells whether the innermost
`x` around is one of these. The name `y` is not one of a variable before, and a parameter that is
renamed is the only one of its name. -/
inductive Renamed : Bool → Expr → Expr → Prop
  | lit {on : Bool} {s : Span} {v : Literal} : Renamed on (.lit s v) (.lit s v)
  | var {on : Bool} {s : Span} {z : String} : z ≠ y →
      Renamed on (.var s z) (.var s (if on = true ∧ z = x then y else z))
  | call {on : Bool} {s : Span} {f f' : Expr} {es es' : List Expr} : Renamed on f f' →
      RenamedList on es es' → Renamed on (.call s f es) (.call s f' es')
  | lam {on : Bool} {s : Span} {ps : List Param} {b b' : Expr} : y ∉ ps.map (·.name.text) →
      Renamed (on && decide (x ∉ ps.map (·.name.text))) b b' →
      Renamed on (.lam s ps b) (.lam s ps b')
  | lamName {on : Bool} {s : Span} {ps : List Param} {b b' : Expr} : y ∉ ps.map (·.name.text) →
      (ps.map (·.name.text)).count x = 1 → Renamed true b b' →
      Renamed on (.lam s ps b) (.lam s (ps.map (Param.rename x y)) b')
  | letIn {on : Bool} {s : Span} {n : Name} {t : Option TypeExpr} {v v' b b' : Expr} :
      n.text ≠ y → Renamed on v v' → Renamed (on && decide (n.text ≠ x)) b b' →
      Renamed on (.letIn s n t v b) (.letIn s n t v' b')
  | letName {on : Bool} {s : Span} {n : Name} {t : Option TypeExpr} {v v' b b' : Expr} :
      n.text ≠ y → n.text = x → Renamed on v v' → Renamed true b b' →
      Renamed on (.letIn s n t v b) (.letIn s ⟨n.span, y⟩ t v' b')
  | seq {on : Bool} {s : Span} {es es' : List Expr} : RenamedList on es es' →
      Renamed on (.seq s es) (.seq s es')
  | cond {on : Bool} {s : Span} {c c' t t' e e' : Expr} : Renamed on c c' → Renamed on t t' →
      Renamed on e e' → Renamed on (.cond s c t e) (.cond s c' t' e')
  | matchOn {on : Bool} {s : Span} {e e' : Expr} {as as' : List Arm} : Renamed on e e' →
      RenamedArms on as as' → Renamed on (.matchOn s e as) (.matchOn s e' as')
  | tuple {on : Bool} {s : Span} {es es' : List Expr} : RenamedList on es es' →
      Renamed on (.tuple s es) (.tuple s es')
  | construct {on : Bool} {s : Span} {n : Name} {es es' : List Expr} : RenamedList on es es' →
      Renamed on (.construct s n es) (.construct s n es')
  | binary {on : Bool} {s so : Span} {op : BinOp} {a a' b b' : Expr} : Renamed on a a' →
      Renamed on b b' → Renamed on (.binary s op so a b) (.binary s op so a' b')
  | unary {on : Bool} {s so : Span} {op : UnOp} {a a' : Expr} : Renamed on a a' →
      Renamed on (.unary s op so a) (.unary s op so a')
  | borrow {on : Bool} {s : Span} {u : Bool} {a a' : Expr} : Renamed on a a' →
      Renamed on (.borrow s u a) (.borrow s u a')
  | deref {on : Bool} {s : Span} {a a' : Expr} : Renamed on a a' →
      Renamed on (.deref s a) (.deref s a')
  | assign {on : Bool} {s : Span} {a a' b b' : Expr} : Renamed on a a' → Renamed on b b' →
      Renamed on (.assign s a b) (.assign s a' b')

inductive RenamedList : Bool → List Expr → List Expr → Prop
  | nil {on : Bool} : RenamedList on [] []
  | cons {on : Bool} {e e' : Expr} {es es' : List Expr} : Renamed on e e' →
      RenamedList on es es' → RenamedList on (e :: es) (e' :: es')

/-- The names of a pattern stay. -/
inductive RenamedArm : Bool → Arm → Arm → Prop
  | guarded {on : Bool} {p : Pattern} {g g' b b' : Expr} : y ∉ p.bindings →
      Renamed (on && decide (x ∉ p.bindings)) g g' →
      Renamed (on && decide (x ∉ p.bindings)) b b' →
      RenamedArm on (.mk p (some g) b) (.mk p (some g') b')
  | plain {on : Bool} {p : Pattern} {b b' : Expr} : y ∉ p.bindings →
      Renamed (on && decide (x ∉ p.bindings)) b b' →
      RenamedArm on (.mk p none b) (.mk p none b')

inductive RenamedArms : Bool → List Arm → List Arm → Prop
  | nil {on : Bool} : RenamedArms on [] []
  | cons {on : Bool} {a a' : Arm} {as as' : List Arm} : RenamedArm on a a' →
      RenamedArms on as as' → RenamedArms on (a :: as) (a' :: as')

end

end Expr

/-! ## Scopes -/

/-- Whether a scope is another one in which `x` has the name `y`. -/
structure Rekeyed (x y : String) (s s' : SortedMap String Scheme) : Prop where
  bound : (s.get? x).isSome = true
  fresh : s.get? y = none
  name : s'.get? y = s.get? x
  old : s'.get? x = none
  others : ∀ z, z ≠ x → z ≠ y → s'.get? z = s.get? z

namespace Rekeyed

variable {x y : String} {s s' : SortedMap String Scheme}

theorem ne (h : Rekeyed x y s s') : x ≠ y := by
  rintro rfl
  have := h.bound
  rw [h.fresh] at this
  cases this

theorem mem_values (h : Rekeyed x y s s') (c : Scheme) : c ∈ s'.values ↔ c ∈ s.values := by
  rw [SortedMap.mem_values_iff, SortedMap.mem_values_iff]
  constructor
  · rintro ⟨z, hz⟩
    by_cases hy : z = y
    · exact ⟨x, by rw [← h.name, ← hy, hz]⟩
    · by_cases hx : z = x
      · rw [hx, h.old] at hz
        cases hz
      · exact ⟨z, h.others z hx hy ▸ hz⟩
  · rintro ⟨z, hz⟩
    by_cases hx : z = x
    · exact ⟨y, by rw [h.name, ← hx, hz]⟩
    · by_cases hy : z = y
      · rw [hy, h.fresh] at hz
        cases hz
      · exact ⟨z, (h.others z hx hy).trans hz⟩

theorem insert (h : Rekeyed x y s s') {z : String} (hx : z ≠ x) (hy : z ≠ y) (c : Scheme) :
    Rekeyed x y (s.insert z c) (s'.insert z c) := by
  refine ⟨?_, ?_, ?_, ?_, fun w hwx hwy => ?_⟩ <;> simp only [SortedMap.get?_insert]
  · rw [if_neg hx]
    exact h.bound
  · rw [if_neg hy]
    exact h.fresh
  · rw [if_neg hy, if_neg hx]
    exact h.name
  · rw [if_neg hx]
    exact h.old
  · rw [h.others w hwx hwy]

/-- A name that is bound in one scope, and another one in its place in the other. -/
theorem of_insert (hx : s.get? x = none) (hy : s.get? y = none) (hne : x ≠ y) (c : Scheme) :
    Rekeyed x y (s.insert x c) (s.insert y c) := by
  refine ⟨?_, ?_, ?_, ?_, fun w hwx hwy => ?_⟩
  · rw [SortedMap.get?_insert_self]
    rfl
  · rw [SortedMap.get?_insert, if_neg hne, hy]
  · rw [SortedMap.get?_insert_self, SortedMap.get?_insert_self]
  · rw [SortedMap.get?_insert, if_neg hne.symm, hx]
  · rw [SortedMap.get?_insert, SortedMap.get?_insert, if_neg hwy.symm, if_neg hwx.symm]

end Rekeyed

/-- Whether some scopes are other ones, the innermost first, in some of which `x` has the name `y`.
The flag tells whether the innermost scope that binds `x` is one of these. -/
inductive ScopesRenamed (x y : String) :
    Bool → List (SortedMap String Scheme) → List (SortedMap String Scheme) → Prop
  | base (ss : List (SortedMap String Scheme)) : ScopesRenamed x y false ss ss
  | keep {on : Bool} {s : SortedMap String Scheme} {ss ss' : List (SortedMap String Scheme)} :
      s.get? y = none → ScopesRenamed x y on ss ss' →
      ScopesRenamed x y (on && (s.get? x).isNone) (s :: ss) (s :: ss')
  | rekey {on : Bool} {s s' : SortedMap String Scheme} {ss ss' : List (SortedMap String Scheme)} :
      Rekeyed x y s s' → ScopesRenamed x y on ss ss' →
      ScopesRenamed x y true (s :: ss) (s' :: ss')

namespace ScopesRenamed

variable {x y : String} {on : Bool} {ss ss' : List (SortedMap String Scheme)}

theorem mem_values (h : ScopesRenamed x y on ss ss') (c : Scheme) :
    c ∈ ss'.flatMap (·.values) ↔ c ∈ ss.flatMap (·.values) := by
  induction h with
  | base => exact Iff.rfl
  | keep _ _ ih => simp only [List.flatMap_cons, List.mem_append, ih]
  | rekey hs _ ih => simp only [List.flatMap_cons, List.mem_append, ih, hs.mem_values]

theorem bound (h : ScopesRenamed x y on ss ss') (hon : on = true) :
    (ss.findSome? (·.get? x)).isSome = true := by
  induction h with
  | base => cases hon
  | keep _ _ ih =>
    rw [Bool.and_eq_true, Option.isNone_iff_eq_none] at hon
    rw [List.findSome?_cons, hon.2]
    exact ih hon.1
  | rekey hs _ _ =>
    obtain ⟨c, hc⟩ := Option.isSome_iff_exists.1 hs.bound
    rw [List.findSome?_cons, hc]
    rfl

theorem findSome? (h : ScopesRenamed x y on ss ss') {z : String} (hz : z ≠ y) :
    ss'.findSome? (·.get? (if on = true ∧ z = x then y else z)) = ss.findSome? (·.get? z) := by
  induction h with
  | base => rw [if_neg (fun h => Bool.noConfusion h.1)]
  | @keep on s ss ss' hy _ ih =>
    rw [List.findSome?_cons, List.findSome?_cons]
    by_cases hx : z = x
    · subst hx
      cases hs : s.get? z with
      | none =>
        cases on with
        | true => simpa [hy] using ih
        | false => simpa [hs] using ih
      | some c => simp [hs]
    · simp only [hx, and_false, if_false] at ih ⊢
      rw [ih]
  | @rekey on s s' ss ss' hs _ ih =>
    rw [List.findSome?_cons, List.findSome?_cons]
    by_cases hx : z = x
    · subst hx
      obtain ⟨c, hc⟩ := Option.isSome_iff_exists.1 hs.bound
      rw [if_pos ⟨rfl, rfl⟩, hs.name, hc]
    · simp only [hx, and_false, if_false] at ih ⊢
      rw [hs.others z hx hz, ih]

end ScopesRenamed

/-- Whether an environment is another one with some local scopes renamed. -/
structure TypeEnv.Renamed (x y : String) (on : Bool) (env env' : TypeEnv) : Prop where
  globals : env'.globals = env.globals
  scopes : ScopesRenamed x y on env.scopes env'.scopes

namespace TypeEnv.Renamed

variable {x y : String} {on : Bool} {env env' : TypeEnv}

theorem lookup (h : Renamed x y on env env') {z : String} (hz : z ≠ y) :
    env'.lookup (if on = true ∧ z = x then y else z) = env.lookup z := by
  unfold TypeEnv.lookup
  rw [h.scopes.findSome? hz]
  split
  · rfl
  · rename_i hnone
    rw [if_neg, h.globals]
    rintro ⟨hon, rfl⟩
    have := h.scopes.bound hon
    rw [hnone] at this
    cases this

/-- A name without a scheme is not renamed. -/
theorem not_renamed_of_lookup (h : Renamed x y on env env') {z : String}
    (hz : env.lookup z = none) : ¬(on = true ∧ z = x) := by
  rintro ⟨hon, rfl⟩
  obtain ⟨c, hc⟩ := Option.isSome_iff_exists.1 (h.scopes.bound hon)
  rw [TypeEnv.lookup, hc] at hz
  cases hz

theorem freeVars (h : Renamed x y on env env') (s : Substitution) :
    env'.freeVars s = env.freeVars s := by
  refine SortedSet.ext_mem fun v => ?_
  simp only [TypeEnv.freeVars, SortedSet.mem_ofList, List.mem_flatMap, locals]
  exact exists_congr fun c => and_congr_left' (by
    simpa only [List.mem_flatMap] using h.scopes.mem_values c)

theorem freeRows (h : Renamed x y on env env') (s : Substitution) :
    env'.freeRows s = env.freeRows s := by
  refine SortedSet.ext_mem fun v => ?_
  simp only [TypeEnv.freeRows, SortedSet.mem_ofList, List.mem_flatMap, locals]
  exact exists_congr fun c => and_congr_left' (by
    simpa only [List.mem_flatMap] using h.scopes.mem_values c)

theorem generalize (h : Renamed x y on env env') (t : Ty) (topLevel : Bool) :
    generalize t env' topLevel = generalize t env topLevel := by
  unfold RowCheck.generalize
  simp only [h.freeVars, h.freeRows]

end TypeEnv.Renamed

end RowCheck
