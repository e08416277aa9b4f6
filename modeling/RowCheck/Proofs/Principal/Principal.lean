import RowCheck.Proofs.Infer.Group
import RowCheck.Proofs.Principal.Expr

/-!
Principal types. In an environment of closed schemes, checking an expression of the functional core by
itself succeeds exactly if the expression has a type, and the types of the expression are those of the
scheme that is returned. Only global names may have general types: a quantified variable of a local name
could be taken for a variable of the pass (`RowCheck.Proofs.Infer.Locals`).
-/
namespace RowCheck

variable {f : TyVar → Ty}

/-! ## Closed schemes -/

namespace Scheme

variable {s : Scheme} {t : Ty}

theorem erase_admits :
    s.erase.Admits t ↔ ∃ σ : TyVar → Ty, (∀ v, v ∉ s.typeVars → σ v = .var v) ∧ t = s.ty.under σ :=
  exists_congr fun σ => and_congr_right fun _ => by
    show t = (s.ty.under .var).mapVars σ id ↔ _
    rw [Ty.mapVars_under]
    rfl

/-- What the variables stand for that are not quantified does not matter in a closed scheme. -/
theorem ClosesTypes.erase_admits_iff (h : s.ClosesTypes) :
    s.erase.Admits t ↔ ∃ g, t = s.ty.under g := by
  rw [erase_admits]
  constructor
  · rintro ⟨σ, -, rfl⟩
    exact ⟨σ, rfl⟩
  · rintro ⟨g, rfl⟩
    refine ⟨fun v => if v ∈ s.typeVars then g v else .var v, fun v hv => if_neg hv, ?_⟩
    exact Ty.under_congr fun v hv => (if_pos (h v hv)).symm

theorem ClosesTypes.admitsAt_iff (h : s.ClosesTypes) : s.AdmitsAt f t ↔ ∃ g, t = s.ty.under g :=
  exists_congr fun _ => and_iff_right fun v hv hfree => absurd (h v hv) hfree

end Scheme

/-! ## Canonical schemes -/

theorem mem_firstOccurrences {l : List Nat} {x : Nat} (h : x ∈ l) : x ∈ firstOccurrences l := by
  have hfold : ∀ (l seen : List Nat), x ∈ l ∨ x ∈ seen →
      x ∈ l.foldl (fun seen x => if x ∈ seen then seen else seen ++ [x]) seen := by
    intro l
    induction l with
    | nil => exact fun _ h => h.resolve_left List.not_mem_nil
    | cons y l ih =>
      intro seen h
      refine ih _ ?_
      rw [List.mem_cons, or_right_comm] at h
      refine h.symm.imp id fun h => ?_
      dsimp only
      split
      · rename_i hy
        exact h.elim (· ▸ hy) id
      · exact h.elim (fun h => by simp [h]) (List.mem_append_left _)
  exact hfold l [] (.inl h)

theorem SortedMap.get?_mapValues {κ μ ν : Type} [LT κ] [DecidableLT κ] [DecidableEq κ]
    (m : SortedMap κ ν) (g : ν → μ) (k : κ) : (m.mapValues g).get? k = (m.get? k).map g := by
  simp only [get?, mapValues, List.find?_map, Option.map_map]
  rfl

/-- Numbering the variables of a closed scheme keeps its types. -/
theorem Scheme.canonical_admits_iff (s : Scheme) {t : Ty} :
    s.canonical.erase.Admits t ↔ ∃ g, t = s.ty.under g := by
  let vars := firstOccurrences s.ty.vars
  have hnumber : ∀ v ∈ s.ty.vars, ∃ i, vars[i]? = some v ∧
      (SortedMap.ofList vars.zipIdx).get? v = some i := fun v hv => by
    have hmem : v ∈ vars.zipIdx.map (·.1) := by
      rw [List.zipIdx_map_fst]
      exact mem_firstOccurrences hv
    obtain ⟨i, hi⟩ := Option.isSome_iff_exists.1 (SortedMap.isSome_get?_ofList hmem)
    exact ⟨i, List.mem_zipIdx_iff_getElem?.1 (SortedMap.mem_of_get?_ofList hi), hi⟩
  have hunder : ∀ σ, s.canonical.ty.under σ = s.ty.under fun v =>
      ((((SortedMap.ofList vars.zipIdx).get? v).map Ty.var).getD (.var v)).under σ := fun σ => by
    show (s.ty.substitute _ _).under σ = _
    simp only [Ty.substitute, Ty.under_mapVars, SortedMap.get?_mapValues]
    rfl
  rw [erase_admits]
  constructor
  · rintro ⟨σ, -, rfl⟩
    exact ⟨_, hunder σ⟩
  · rintro ⟨g, rfl⟩
    refine ⟨fun i => (vars[i]?.map g).getD (.var i), fun i hi => ?_, ?_⟩
    · have hout : vars[i]? = none := by
        rw [List.getElem?_eq_none_iff]
        exact Nat.not_lt.1 fun h => hi (List.mem_range.2 h)
      simp only [hout]
      rfl
    · rw [hunder]
      refine Ty.under_congr fun v hv => ?_
      obtain ⟨i, hi, hget⟩ := hnumber v hv
      rw [hget]
      show g v = (vars[i]?.map g).getD (.var i)
      rw [hi]
      rfl

/-! ## Environments -/

theorem Assumptions.lookup_ofEnv (env : TypeEnv) (x : String) :
    (ofEnv env).lookup x = (env.lookup x).map Scheme.erase := by
  have hlayer : ∀ (scope : SortedMap String Scheme) (Γ : Assumptions),
      List.lookup x (scope.entries.map (fun e => (e.1, e.2.erase)) ++ Γ) =
        ((scope.get? x).map Scheme.erase).or (Γ.lookup x) := by
    intro scope Γ
    rw [SortedMap.get?]
    induction scope.entries with
    | nil => rfl
    | cons e es ih =>
      rw [List.map_cons, List.cons_append, Assumptions.lookup_cons, List.find?_cons, ih]
      by_cases hx : e.1 = x <;> simp [hx]
  rw [ofEnv, TypeEnv.lookup_eq, List.map_append]
  induction env.scopes with
  | nil => simpa using hlayer env.globals []
  | cons scope scopes ih =>
    rw [List.flatMap_cons, List.map_append, List.append_assoc, hlayer, ih, List.findSome?_cons]
    cases scope.get? x <;> rfl

namespace TypeEnv

variable {env : TypeEnv}

/-- Whether the names of an environment have closed schemes of the functional core, and those of local
names quantify no type variable. -/
structure Plain (env : TypeEnv) : Prop where
  globals : ∀ x s, env.globals.get? x = some s → s.PlainClosed
  locals : ∀ s ∈ env.locals, s.PlainClosed ∧ s.typeVars = []

namespace Plain

theorem of_lookup (h : env.Plain) {x : String} {s : Scheme} (hs : env.lookup x = some s) :
    s.PlainClosed :=
  (mem_of_lookup hs).elim (fun hs => (h.locals s hs).1) (h.globals x s)

theorem assumptions_covers (h : env.Plain) (f : TyVar → Ty) : (Assumptions.ofEnv env).Covers f env := by
  intro x s hs
  have hclosed := (h.of_lookup hs).types
  refine ⟨s.erase, by rw [Assumptions.lookup_ofEnv, hs]; rfl, fun t ht => ?_⟩
  exact hclosed.erase_admits_iff.2 (hclosed.admitsAt_iff.1 ht)

theorem covers (h : env.Plain) (f : TyVar → Ty) : env.Covers f (.ofEnv env) where
  uses x a ha := by
    rw [Assumptions.lookup_ofEnv] at ha
    obtain ⟨s, hs, rfl⟩ := Option.map_eq_some_iff.1 ha
    have hclosed := (h.of_lookup hs).types
    exact ⟨s, hs, fun t ht => hclosed.admitsAt_iff.2 (hclosed.erase_admits_iff.1 ht)⟩
  fixed s hs v hv hfree := absurd ((h.locals s hs).1.types v hv) hfree

theorem sits (h : env.Plain) (D : TyVar → Prop) (u : Unifier) : env.Sits D u where
  locals s hs := (h.locals s hs).1.sits D u
  quantified s hs v hv := by
    rw [(h.locals s hs).2] at hv
    exact nomatch hv
  globals := h.globals

theorem below (h : env.Plain) : env.Below 0 where
  globals x s hs e he v hv := .inl ((h.globals x s hs).rows e he v hv)
  scopes scope hscope x s hs e he v hv := by
    obtain ⟨e', he', rfl⟩ := Option.map_eq_some_iff.1 hs
    have hmem : e'.2 ∈ env.locals :=
      List.mem_flatMap.2 ⟨scope, hscope, List.mem_map_of_mem (List.mem_of_find?_eq_some he')⟩
    exact .inl ((h.locals _ hmem).1.rows e he v hv)

end Plain

end TypeEnv

namespace Checker

open Unifier

variable {env : TypeEnv}

/-! ## A run by itself -/

/-- No variable is dead. -/
def noneDead (_ : TyVar) : Prop := False

theorem empty_tidy (tracing : Bool) : { Unifier.empty with tracing }.Tidy noneDead where
  toValid := ⟨Substitution.empty_valid, fun _ hc => nomatch hc⟩
  numeric := rfl
  rows _ _ hr := nomatch hr
  bound _ _ _ ht := nomatch ht
  dead := nofun
  made _ _ ht := nomatch ht
  waiting _ hc := nomatch hc

theorem start_tidy (h : env.Plain) (tracing : Bool) :
    (start env tracing).Tidy noneDead ∧ (start env tracing).Faultless := by
  obtain ⟨hi, hbare, hbelow⟩ := freshRow_idles (empty_tidy tracing)
  exact ⟨⟨hi.tidy, h.sits _ _, hbare, hbelow⟩, hi.errors⟩

/-- The state at the end of checking an expression by itself. -/
def alone (env : TypeEnv) (e : Expr) : Unifier :=
  (finish (infer .empty e (start env false)).2.unifier).2

/-- The type that checking an expression by itself finds. -/
def found (env : TypeEnv) (e : Expr) : Ty :=
  (infer .empty e (start env false)).1.ty

/-- If nothing was at fault, then the expression has the type that was found, under every assignment that
is allowed. -/
theorem found_hasType (h : env.Plain) {e : Expr} (he : e.Core) (herrors : (alone env e).errors = []) :
    (alone env e).Tidy noneDead ∧ (alone env e).Owns noneDead (found env e) ∧
      ∀ f, (alone env e).Allows f → e.HasType (.ofEnv env) ((found env e).under f) := by
  obtain ⟨hstart, -⟩ := start_tidy h false
  have hvalid := (infer_does Registries.collected_empty.rowsClosed e _
    (start_valid h.below false)).1.valid.unifier
  have hbefore := List.prefix_nil.1 (herrors ▸ (finish_grows hvalid).1.errors)
  obtain ⟨-, hd⟩ := (determines he noneDead).tells _ (fun _ => hstart) hbefore
  have hc := hd.pursues.tidy hstart
  have hi := finish_idles hc.unifier
  exact ⟨hi.tidy, hd.owns.pursues hi.toPursues, fun f hf =>
    hd.typed f (hi.allows hc.unifier hf) _ (h.assumptions_covers f)⟩

/-- Nothing is at fault with an expression that has a type, and that type was found under some assignment
that is allowed. -/
theorem exists_found (h : env.Plain) {e : Expr} (he : e.Core) {t : Ty} (ht : e.HasType (.ofEnv env) t) :
    (alone env e).errors = [] ∧ ∃ f, (alone env e).Allows f ∧ (found env e).under f = t := by
  obtain ⟨hstart, hfaultless⟩ := start_tidy h false
  have hallows : (start env false).unifier.Allows .var := allows_iff.2 fun _ _ ht => nomatch ht
  obtain ⟨herrors, -, f, hf, -, hunder⟩ := (determines he noneDead).finds _ .var _ t hfaultless hstart hallows
    (h.covers .var) ht
  obtain ⟨-, hd⟩ := (determines he noneDead).tells _ (fun _ => hstart) herrors
  have hi := finish_idles (hd.pursues.tidy hstart).unifier
  exact ⟨hi.errors.trans herrors, f, hi.allows' f hf, hunder⟩

/-- The scheme at the end has the types that the type found has. -/
theorem generalize_admits {u : Unifier} (hu : u.Tidy noneDead) {t : Ty} (ht : u.Owns noneDead t)
    (env : TypeEnv) (τ : Ty) : (generalize t env true u).1.canonical.erase.Admits τ ↔
      ∃ f, u.Allows f ∧ t.under f = τ := by
  have htypes := ((generalize_leavesTypes t env true).moves u).1
  have hvalid := (generalize_does hu.toValid ht.below env true).1.valid
  have hty : (generalize t env true u).1.ty = (generalize t env true u).2.apply t := rfl
  rw [Scheme.canonical_admits_iff, hty]
  constructor
  · rintro ⟨g, rfl⟩
    refine ⟨_, (hvalid.allows g).of_types fun v => (htypes v).symm, under_apply_var g t⟩
  · rintro ⟨f, hf, rfl⟩
    exact ⟨f, ((hf.of_types htypes).under_apply hvalid t).symm⟩

end Checker

/-- What is answered if nothing was at fault. -/
def answer (env : TypeEnv) (e : Expr) : TExpr × Scheme :=
  let c := (Checker.infer .empty e (.start env false)).2
  let s := generalize (Checker.found env e) c.env true (Checker.alone env e)
  ((Checker.infer .empty e (.start env false)).1.settle s.2.substitution, s.1.canonical)

theorem inferExpression_eq_ok_iff {env : TypeEnv} {e : Expr} {p : TExpr × Scheme} :
    inferExpression .empty env e = .ok p ↔ (Checker.alone env e).errors = [] ∧ p = answer env e := by
  have hrun : inferExpression .empty env e =
      if (Checker.alone env e).hasErrors then .error (Checker.alone env e).errors
      else .ok (answer env e) := rfl
  rw [hrun, Unifier.hasErrors]
  cases (Checker.alone env e).errors with
  | nil => simp [eq_comm]
  | cons d ds => simp

/-- Checking an expression of the functional core by itself succeeds exactly if the expression has a
type. The types of the expression then are those of the scheme that is returned. -/
theorem inferExpression_principal {env : TypeEnv} (h : env.Plain) {e : Expr} (he : e.Core) :
    ((∃ p, inferExpression .empty env e = .ok p) ↔ ∃ t, e.HasType (.ofEnv env) t) ∧
    ∀ p, inferExpression .empty env e = .ok p →
      ∀ t, e.HasType (.ofEnv env) t ↔ p.2.erase.Admits t := by
  simp only [inferExpression_eq_ok_iff]
  refine ⟨⟨?_, ?_⟩, ?_⟩
  · rintro ⟨_, herrors, -⟩
    obtain ⟨htidy, -, htyped⟩ := Checker.found_hasType h he herrors
    exact ⟨_, htyped _ (htidy.toValid.allows .var)⟩
  · rintro ⟨t, ht⟩
    exact ⟨_, (Checker.exists_found h he ht).1, rfl⟩
  · rintro _ ⟨herrors, rfl⟩ t
    obtain ⟨htidy, howns, htyped⟩ := Checker.found_hasType h he herrors
    refine Iff.trans ?_ (Checker.generalize_admits htidy howns _ t).symm
    constructor
    · exact fun ht => (Checker.exists_found h he ht).2
    · rintro ⟨f, hf, rfl⟩
      exact htyped f hf

/-- The environment of the identity function alone, as a global name. -/
def identityEnv : TypeEnv := .ofGlobals ((∅ : SortedMap String Scheme).insert "id" identity)

theorem identityEnv_plain : identityEnv.Plain where
  globals x s hs := by
    have hx : (if "id" = x then some identity else none) = some s :=
      (SortedMap.get?_insert ..).symm.trans hs
    split at hx
    · cases hx
      exact ⟨⟨rfl, by decide, rfl⟩, by unfold Scheme.ClosesTypes; decide, by decide⟩
    · cases hx
  locals _ hs := nomatch hs

theorem twice_core : twice.Core := by
  have hname : ∀ x ∈ ["h", "x", "y", "k"], Name.Valid (.mk .synthetic x) := by
    simp only [Name.Valid]
    decide +kernel
  have hlam : ∀ x ∈ ["h", "x", "y", "k"], ∀ body : Expr, body.Core →
      Expr.Core (.lam .synthetic [⟨.mk .synthetic x, none⟩] body) := fun x hx body hbody =>
    .lam (by simpa using hname x hx) hbody
  have huse : ∀ l : Literal, l.InRange → Expr.Core (.call .synthetic (.var .synthetic "h")
      [.lam .synthetic [⟨.mk .synthetic "k", none⟩]
        (.call .synthetic (.var .synthetic "k") [.lit .synthetic l])]) := fun l hl => by
    refine .call .var (List.forall_mem_singleton.2 (hlam "k" (by decide) _ ?_))
    exact .call .var (List.forall_mem_singleton.2 (.lit hl))
  refine .letIn (hname "h" (by decide)) (hlam "x" (by decide) _ ?_) (.tuple ?_)
  · exact .call .var (List.forall_mem_singleton.2 (hlam "y" (by decide) _ .var))
  · refine List.forall_mem_cons.2 ⟨huse (.int 1) ⟨by decide, by decide⟩, ?_⟩
    exact List.forall_mem_singleton.2 (huse (.bool true) trivial)

/-- Where the identity function is global, the expression that uses a local function at two types has one
type. -/
theorem twice_hasType_iff : identityEnv.Plain ∧ twice.Core ∧
    ∀ t, twice.HasType (.ofEnv identityEnv) t ↔ t = .tuple [.s32, .bool] := by
  refine ⟨identityEnv_plain, twice_core, fun t => ?_⟩
  have hrun : (inferExpression .empty identityEnv twice).toOption.map (·.2) =
      some (.mono (.tuple [.s32, .bool])) := by decide +kernel
  cases hok : inferExpression .empty identityEnv twice with
  | error =>
    rw [hok] at hrun
    cases hrun
  | ok p =>
    rw [hok] at hrun
    have hscheme : p.2 = .mono (.tuple [.s32, .bool]) := Option.some.inj hrun
    rw [(inferExpression_principal identityEnv_plain twice_core).2 p hok, hscheme]
    exact Scheme.admits_mono

end RowCheck
