import RowCheck.Proofs.Infer.Errors
import RowCheck.Proofs.Principal.Principal

/-!
Groups of the functional core. Each name of a group has one type within it, so the names are bound as
the parameters of a function are, and every body is checked with all of them in scope. Checking a group
finds nothing at fault exactly if its declarations have types together.
-/
namespace RowCheck

/-! ## Types of groups -/

namespace FnDecl

/-- What a declaration binds its name to: a function, or the body itself if there are no parameters. -/
def value (d : FnDecl) : Expr :=
  if d.params.isEmpty then d.body else .lam d.span d.params d.body

/-- The name of a declaration, to be bound as that of a parameter is. -/
def binding (d : FnDecl) : Param := ⟨d.name, none⟩

/-- Whether a declaration is of the functional core: nothing is written about its types. -/
structure Core (d : FnDecl) : Prop where
  name : d.name.Valid
  params : ∀ p ∈ d.params, p.type = none ∧ p.name.Valid
  result : d.result = none
  effects : d.effects = none
  body : d.body.Core

end FnDecl

/-- Whether some declarations have some types together: each has its own if every name of the group is
assumed to have its. -/
def Assumptions.GroupHas (Γ : Assumptions) (ds : List FnDecl) (ts : List Ty) : Prop :=
  List.Forall₂ (fun d t => d.value.HasType (Γ.bindParams (ds.map FnDecl.binding) ts) t) ds ts

namespace Checker

open Unifier

variable {D : TyVar → Prop} {c c' : Checker} {f : TyVar → Ty}

/-! ## Declarations -/

/-- Checking a declaration of the functional core is checking its body, or a function of its parameters. -/
theorem inferFunction_core {d : FnDecl} (hd : d.Core) : inferFunction .empty d =
    if d.params.isEmpty then inContext (infer .empty d.body) none
    else inferLambda .empty d.params (infer .empty d.body) d.span none none := by
  unfold inferFunction
  rw [hd.result, hd.effects]
  rfl

theorem inferFunction_tells {d : FnDecl} (hd : d.Core) (h : c.Faultless → c.Tidy D) :
    c.Tells (inferFunction .empty d) (fun r c' => Derives D d.value c r.1.ty c') := by
  have hbody := (determines hd.body D).tells
  rw [inferFunction_core hd, FnDecl.value]
  split
  · exact (inContext_tells hbody h).imp fun _ _ _ hr => hr.1
  · exact inferLambda_tells hd.params hbody h d.span

theorem inferFunction_finds {d : FnDecl} (hd : d.Core) {Γ : Assumptions} {t : Ty} (he : c.Faultless)
    (hc : c.Tidy D) (hf : c.unifier.Allows f) (hΓ : c.env.Covers f Γ) (ht : d.value.HasType Γ t) :
    c.Finds f (inferFunction .empty d) (fun f' r _ => r.1.ty.under f' = t) := by
  have hbody := (determines hd.body D).finds
  rw [FnDecl.value] at ht
  rw [inferFunction_core hd]
  split at ht
  · rw [if_pos ‹_›]
    exact inContext_finds hbody he hc hf hΓ ht
  · rw [if_neg ‹_›]
    exact inferLambda_finds hd.params hbody he hc hf hΓ ht

theorem inferDecls_cons (d : FnDecl) (t : Ty) (ps : List (ValueDecl × Ty)) :
    inferDecls .empty ((.fn d, t) :: ps) = (do
      modify (fun c => { c with scope := .opened })
      let r ← inferFunction .empty d
      unify t r.1.ty ((Provenance.of d.span .recursiveUse).relatedTo d.name.span)
      let ks ← inferDecls .empty ps
      return ⟨.fn d, r.1, r.2⟩ :: ks) := rfl

/-- Each declaration of a group has the type that its name stands for. -/
theorem inferDecls_tells {ds : List FnDecl} (hds : ∀ d ∈ ds, d.Core) {ts : List Ty}
    (h : c.Faultless → c.Tidy D ∧ ds.length = ts.length ∧ ∀ t ∈ ts, c.unifier.Owns D t) :
    c.Tells (inferDecls .empty ((ds.map .fn).zip ts)) (fun _ c' => c.Pursues D c' ∧
      ∀ f, c'.unifier.Allows f → ∀ Γ : Assumptions, Γ.Covers f c.env →
        List.Forall₂ (fun d t => d.value.HasType Γ t) ds (ts.map (Ty.under f))) := by
  induction ds generalizing c ts with
  | nil =>
    refine .pure fun he => ⟨(h he).1.pursues, fun _ _ _ _ => ?_⟩
    obtain rfl := List.length_eq_zero_iff.1 (h he).2.1.symm
    exact .nil
  | cons d ds ih =>
    cases ts with
    | nil => exact .pure fun he => nomatch (h he).2.1
    | cons t ts =>
    rw [List.forall_mem_cons] at hds
    simp only [List.forall_mem_cons, List.length_cons, Nat.add_right_cancel_iff] at h
    rw [List.map_cons, List.zip_cons_cons, inferDecls_cons]
    refine .modify_bind rfl ?_
    have hc : ({ c with scope := .opened } : Checker).Faultless →
        Tidy D { c with scope := .opened } := fun he => by
      obtain ⟨hu, henv, hbare, hbelow⟩ := (h he).1
      exact ⟨hu, henv, hbare, hbelow⟩
    refine (inferFunction_tells hds.1 hc).bind fun r c₁ h₁ => ?_
    have hc₁ : c₁.Faultless → c₁.Tidy D := fun he => (h₁ he).2.pursues.tidy (hc (h₁ he).1)
    refine (unify_tells (D := D) (fun he => ⟨hc₁ he,
      (h (h₁ he).1).2.2.1.pursues (h₁ he).2.pursues.unifier, (h₁ he).2.owns⟩) _).bind fun _ c₂ h₂ => ?_
    have hc₂ : c₂.Faultless → c₂.Tidy D := fun he => (h₂ he).2.1.tidy (hc₁ (h₂ he).1)
    refine (ih hds.2 fun he => ?_).bind fun ks c₃ h₃ => .pure fun he => ?_
    · obtain ⟨he₁, hp₂, -⟩ := h₂ he
      obtain ⟨he₀, hd₁⟩ := h₁ he₁
      obtain ⟨-, hlen, -, howns⟩ := h he₀
      exact ⟨hc₂ he, hlen, fun t' ht' =>
        (howns t' ht').pursues (hd₁.pursues.unifier.trans hp₂.unifier)⟩
    · obtain ⟨he₂, hp₃, htyped⟩ := h₃ he
      obtain ⟨he₁, hp₂, hsame⟩ := h₂ he₂
      obtain ⟨he₀, hd₁⟩ := h₁ he₁
      have henv₁ : c₁.env = c.env := hd₁.pursues.env
      have hp : c₁.Pursues D c₃ := hp₂.trans hp₃
      refine ⟨⟨hd₁.pursues.unifier.trans hp.unifier, hp.env.trans henv₁,
        hp.context.trans hd₁.pursues.context⟩, fun f hf Γ hΓ => .cons ?_ (htyped f hf Γ ?_)⟩
      · have hf₂ := hp₃.allows (hc₂ he₂) hf
        rw [hsame f hf₂]
        exact hd₁.typed f (hp₂.allows (hc₁ he₁) hf₂) Γ hΓ
      · rwa [hp₂.env, henv₁]

/-- Nothing is at fault with declarations that have the types that their names stand for. -/
theorem inferDecls_finds {ds : List FnDecl} (hds : ∀ d ∈ ds, d.Core) {ts : List Ty} {Γ : Assumptions}
    (he : c.Faultless) (hc : c.Tidy D) (hf : c.unifier.Allows f) (hΓ : c.env.Covers f Γ)
    (howns : ∀ t ∈ ts, c.unifier.Owns D t)
    (hts : List.Forall₂ (fun d t => d.value.HasType Γ t) ds (ts.map (Ty.under f))) :
    c.Finds f (inferDecls .empty ((ds.map .fn).zip ts)) (fun _ _ c' => c'.unifier.Tidy D) := by
  induction ds generalizing c f ts with
  | nil => exact .pure he hf hc.unifier
  | cons d ds ih =>
    cases ts with
    | nil => cases hts
    | cons t ts =>
    rw [List.forall_mem_cons] at hds howns
    rw [List.map_cons, List.forall₂_cons] at hts
    rw [List.map_cons, List.zip_cons_cons, inferDecls_cons]
    refine .modify_bind rfl ?_
    have hopened : Tidy D { c with scope := .opened } := ⟨hc.unifier, hc.env, hc.bare, hc.below⟩
    refine ((inferFunction_finds hds.1 (c := { c with scope := .opened }) he hopened hf hΓ hts.1).told
      (inferFunction_tells hds.1 fun _ => hopened)).bind fun f₁ r c₁ he₁ hf₁ hagree₁ h₁ => ?_
    obtain ⟨hd₁, hr⟩ := h₁
    have hc₁ := hd₁.pursues.tidy hopened
    have ht₁ : t.under f₁ = r.1.ty.under f₁ := (under_of_owns howns.1 hagree₁).trans hr.symm
    refine (unify_finds he₁ hc₁ hf₁ (howns.1.pursues hd₁.pursues.unifier) hd₁.owns ht₁ _).bind
      fun f₂ _ c₂ he₂ hf₂ _ h₂ => ?_
    obtain ⟨rfl, hp₂⟩ := h₂
    have hu₂ := hd₁.pursues.unifier.trans hp₂.unifier
    have hΓ₂ : c₂.env.Covers f₂ Γ :=
      hp₂.covers hc₁ (hd₁.pursues.covers hopened hΓ hagree₁) fun _ _ => rfl
    have hts₂ : ts.map (Ty.under f₂) = ts.map (Ty.under f) :=
      List.map_congr_left fun t' ht' => under_of_owns (howns.2 t' ht') hagree₁
    refine (ih hds.2 he₂ (hp₂.tidy hc₁) hf₂ hΓ₂ (fun t' ht' => (howns.2 t' ht').pursues hu₂)
      (hts₂ ▸ hts.2)).bind fun f₃ ks c₃ he₃ hf₃ _ h₃ => .pure he₃ hf₃ h₃

/-! ## Groups -/

/-- The names of a group are bound as parameters are. -/
theorem bindPlaceholders_eq {ds : List FnDecl} (hds : ∀ d ∈ ds, d.Core) :
    bindPlaceholders (ds.map .fn) = (do
      let bs ← bindParams .empty (ds.map FnDecl.binding)
      return (ds.map .fn).zip (bs.map Binder.ty)) := by
  induction ds with
  | nil => rfl
  | cons d ds ih =>
    rw [List.forall_mem_cons] at hds
    have hrun : bindPlaceholders ((d :: ds).map .fn) = (do
        let t ← freshType
        bindMono d.name.text t
        let ps ← bindPlaceholders (ds.map .fn)
        return (.fn d, t) :: ps) := rfl
    have hparams : bindParams .empty ((d :: ds).map FnDecl.binding) = (do
        let t ← freshType
        bindMono d.name.text t
        let bs ← bindParams .empty (ds.map FnDecl.binding)
        return ⟨d.name.text, d.name.span, t, none⟩ :: bs) := by
      funext c
      exact bindParams_cons (p := d.binding) rfl hds.1.name c
    rw [hrun, ih hds.2, hparams]
    rfl

theorem inferGroup_core {ds : List FnDecl} (hds : ∀ d ∈ ds, d.Core) :
    inferGroup .empty (ds.map .fn) = (do
      modifyEnv .pushScope
      let bs ← bindParams .empty (ds.map FnDecl.binding)
      let ks ← inferDecls .empty ((ds.map .fn).zip (bs.map Binder.ty))
      modifyEnv .popScope
      finish
      return ks) := by
  unfold inferGroup
  rw [bindPlaceholders_eq hds]
  rfl

theorem binding_valid {ds : List FnDecl} (hds : ∀ d ∈ ds, d.Core) :
    ∀ p ∈ ds.map FnDecl.binding, p.type = none ∧ p.name.Valid := by
  rw [List.forall_mem_map]
  exact fun d hd => ⟨rfl, (hds d hd).name⟩

/-- If nothing is at fault with a group, its declarations have types together. -/
theorem inferGroup_tells {ds : List FnDecl} (hds : ∀ d ∈ ds, d.Core) (h : c.Faultless → c.Tidy D) :
    c.Tells (inferGroup .empty (ds.map .fn)) (fun _ _ =>
      ∀ Γ : Assumptions, (∀ f, Γ.Covers f c.env) → ∃ ts, Γ.GroupHas ds ts) := by
  rw [inferGroup_core hds]
  refine .modify_bind rfl ((bindParams_tells (binding_valid hds) h).bind fun bs c₁ h₁ => ?_)
  have hbound : c₁.Faultless → c₁.Tidy D ∧ ds.length = (bs.map Binder.ty).length ∧
      ∀ t ∈ bs.map Binder.ty, c₁.unifier.Owns D t := fun he => by
    obtain ⟨-, hc, hb⟩ := h₁ he
    rw [List.forall_mem_map]
    exact ⟨hb.tidy hc, by simpa using hb.length, hb.owns⟩
  refine (inferDecls_tells hds hbound).bind fun ks c₂ h₂ => .modify_bind rfl ?_
  have hfinish : Tells { c₂ with env := c₂.env.popScope } (liftM finish) (fun _ _ => True) :=
    .lift finish_addsErrors fun _ _ => trivial
  refine hfinish.bind fun _ c₃ h₃ => .pure fun he => ?_
  obtain ⟨he₂, -⟩ := h₃ he
  obtain ⟨he₁, hp₂, htyped⟩ := h₂ he₂
  obtain ⟨-, hc, hb⟩ := h₁ he₁
  intro Γ hΓ
  have hf := (hp₂.tidy (hb.tidy hc)).unifier.toValid.allows .var
  have hts := htyped _ hf _ (hb.assumed _ Γ (hΓ _).pushScope)
  rw [List.map_map] at hts
  exact ⟨_, hts⟩

/-- Nothing is at fault with a group whose declarations have types together. -/
theorem inferGroup_finds {ds : List FnDecl} (hds : ∀ d ∈ ds, d.Core) {Γ : Assumptions} {ts : List Ty}
    (he : c.Faultless) (hc : c.Tidy D) (hf : c.unifier.Allows f) (hΓ : c.env.Covers f Γ)
    (hts : Γ.GroupHas ds ts) :
    c.Finds f (inferGroup .empty (ds.map .fn)) (fun _ _ _ => True) := by
  have hlen : (ds.map FnDecl.binding).length = ts.length := by simpa using hts.length_eq
  rw [inferGroup_core hds]
  refine .modify_bind rfl ((bindParams_finds (binding_valid hds) he hc hf hΓ hlen).bind
    fun f₁ bs c₁ he₁ hf₁ _ h₁ => ?_)
  obtain ⟨hb, rfl, hcovers⟩ := h₁
  have howns : ∀ t ∈ bs.map Binder.ty, c₁.unifier.Owns D t := by
    rw [List.forall_mem_map]
    exact hb.owns
  refine (inferDecls_finds hds he₁ (hb.tidy hc) hf₁ hcovers howns ?_).bind
    fun f₂ ks c₂ he₂ hf₂ _ hc₂ => .modify_bind rfl ?_
  · rw [List.map_map]
    exact hts
  · have hi := finish_idles hc₂
    have hfinish : Finds f₂ { c₂ with env := c₂.env.popScope } (liftM finish) (fun _ _ _ => True) :=
      .lift he₂ hi (hi.allows' f₂ hf₂) (fun _ _ => rfl) trivial
    exact hfinish.bind fun _ _ _ he₃ hf₃ _ _ => .pure he₃ hf₃ trivial

end Checker

/-- A group of the functional core is accepted exactly if its declarations have types together. What is
assumed may be of any environment whose schemes have the same types. -/
theorem checkGroup_accepts_iff {env : TypeEnv} (h : env.Plain) {Γ : Assumptions}
    (hΓ : ∀ f, Γ.Covers f env ∧ env.Covers f Γ) (tracing : Bool) {ds : List FnDecl}
    (hds : ∀ d ∈ ds, d.Core) :
    (checkGroup .empty env tracing (ds.map .fn)).diagnostics = [] ↔ ∃ ts, Γ.GroupHas ds ts := by
  have hvalues : (ds.map Decl.fn).filterMap Decl.value? = ds.map .fn := by
    rw [List.filterMap_map]
    exact congrFun List.filterMap_eq_map ds
  have hrun : (checkGroup .empty env tracing (ds.map .fn)).diagnostics =
      (Checker.inferGroup .empty ((ds.map Decl.fn).filterMap Decl.value?)
        (.start env tracing)).2.unifier.errors := rfl
  rw [hrun, hvalues]
  obtain ⟨hstart, hfaultless⟩ := Checker.start_tidy h tracing
  constructor
  · exact fun he => (Checker.inferGroup_tells hds (fun _ => hstart) he).2 Γ fun f => (hΓ f).1
  · rintro ⟨ts, hts⟩
    have hallows := hstart.unifier.toValid.allows .var
    exact (Checker.inferGroup_finds hds hfaultless hstart hallows (hΓ _).2 hts).1

/-! ## Schemes that serve alike -/

/-- Whether two schemes have the same types, but for effects. -/
def Scheme.SameTypes (s s' : Scheme) : Prop := ∀ t, s.erase.Admits t ↔ s'.erase.Admits t

namespace TypeEnv.Plain

variable {env env' : TypeEnv}

/-- What is assumed of one environment goes for another one whose names have the same types. -/
theorem covers_of_sameTypes (h : env'.Plain)
    (hsame : ∀ x, Option.Rel Scheme.SameTypes (env.lookup x) (env'.lookup x)) (f : TyVar → Ty) :
    (Assumptions.ofEnv env).Covers f env' ∧ env'.Covers f (.ofEnv env) := by
  have hlookup := Assumptions.lookup_ofEnv env
  refine ⟨fun x s' hs' => ?_, fun x a ha => ?_, fun s hs v hv hfree =>
    absurd ((h.locals s hs).1.types v hv) hfree⟩
  · have hclosed := (h.of_lookup hs').types
    have hx := hsame x
    rw [hs'] at hx
    generalize hs : env.lookup x = o at hx
    cases hx with | @some s _ hx =>
    refine ⟨s.erase, by rw [hlookup, hs]; rfl, fun t ht => (hx t).2 ?_⟩
    exact hclosed.erase_admits_iff.2 (hclosed.admitsAt_iff.1 ht)
  · rw [hlookup] at ha
    obtain ⟨s, hs, rfl⟩ := Option.map_eq_some_iff.1 ha
    have hx := hsame x
    rw [hs] at hx
    generalize hs' : env'.lookup x = o at hx
    cases hx with | @some _ s' hx =>
    have hclosed := (h.of_lookup hs').types
    exact ⟨s', rfl, fun t ht => hclosed.admitsAt_iff.2 (hclosed.erase_admits_iff.1 ((hx t).1 ht))⟩

end TypeEnv.Plain

/-- Whether two schemes of a name serve alike on the functional core: a group that uses the name is
accepted with the one exactly if it is accepted with the other. -/
def Scheme.ServeAlike (s s' : Scheme) : Prop :=
  ∀ (globals : SortedMap String Scheme) (name : String) (tracing : Bool) (ds : List FnDecl),
    (∀ x s, globals.get? x = some s → s.PlainClosed) → (∀ d ∈ ds, d.Core) →
    ((checkGroup .empty (.ofGlobals (globals.insert name s)) tracing (ds.map .fn)).diagnostics = [] ↔
      (checkGroup .empty (.ofGlobals (globals.insert name s')) tracing (ds.map .fn)).diagnostics = [])

theorem TypeEnv.plain_insert {globals : SortedMap String Scheme} {s : Scheme}
    (h : ∀ x s, globals.get? x = some s → s.PlainClosed) (hs : s.PlainClosed) (name : String) :
    (TypeEnv.ofGlobals (globals.insert name s)).Plain where
  globals x s' hs' := by
    have hget : (if name = x then some s else globals.get? x) = some s' :=
      (SortedMap.get?_insert ..).symm.trans hs'
    split at hget
    · cases hget
      exact hs
    · exact h x s' hget
  locals _ hs := nomatch hs

/-- On the functional core only the types of a scheme matter. -/
theorem Scheme.SameTypes.serveAlike {s s' : Scheme} (hs : s.PlainClosed) (hs' : s'.PlainClosed)
    (h : s.SameTypes s') : s.ServeAlike s' := by
  intro globals name tracing ds hglobals hds
  have henv := TypeEnv.plain_insert hglobals hs name
  have henv' := TypeEnv.plain_insert hglobals hs' name
  have hsame : ∀ x, Option.Rel SameTypes ((TypeEnv.ofGlobals (globals.insert name s)).lookup x)
      ((TypeEnv.ofGlobals (globals.insert name s')).lookup x) := fun x => by
    show Option.Rel _ ((globals.insert name s).get? x) ((globals.insert name s').get? x)
    rw [SortedMap.get?_insert, SortedMap.get?_insert]
    split
    · exact .some h
    · cases globals.get? x with
      | none => exact .none
      | some s'' => exact .some fun _ => Iff.rfl
  rw [checkGroup_accepts_iff henv (fun f => ⟨henv.assumptions_covers f, henv.covers f⟩) tracing hds]
  exact (checkGroup_accepts_iff henv' (henv'.covers_of_sameTypes hsame) tracing hds).symm

end RowCheck
