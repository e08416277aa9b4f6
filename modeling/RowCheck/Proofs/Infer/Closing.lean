import RowCheck.Proofs.Infer.Group
import RowCheck.Proofs.Principal.Groups
import RowCheck.Proofs.Principal.Renaming
import RowCheck.Proofs.Unify.MostGeneral

/-!
What closing rows does to a scheme. A row variable that occurs in results only is not quantified but
bound to the empty row, so that the scheme loses instances: of those that differ in such a row, it keeps
the one without effects there. As far as effects go, what has the type that is kept may be used wherever
one of the lost types is expected, and where no effect is named, no group can tell the two schemes apart.
But arrows are compared for equality where branches meet, and there the difference shows: a declaration
may be refused for the rows of what it mentions.
-/
namespace RowCheck

/-! ## Types with fewer effects -/

/-- Whether a row has no effects but those of another, whatever its tail stands for. -/
structure Row.Within (e f : Row) : Prop where
  labels : ∀ x ∈ e.labels, x ∈ f.labels
  tail : e.tail = none ∨ e.tail = f.tail

namespace Row

theorem Within.refl (e : Row) : e.Within e := ⟨fun _ h => h, .inr rfl⟩

theorem within_of_pure (e : Row) : pure.Within e := ⟨by simp [pure], .inl rfl⟩

theorem Within.extend {e f : Row} (h : e.Within f) (l : SortedSet String) :
    (e.extend l).Within (f.extend l) :=
  ⟨fun x hx => mem_extend.2 ((mem_extend.1 hx).imp_right (h.labels x)), h.tail⟩

end Row

/-- Whether what has one type may be used where the other is expected, as far as effects go. Functions
may perform less than expected, and be used with arguments that perform more. -/
inductive Ty.Within : Ty → Ty → Prop
  | refl (t : Ty) : Within t t
  | fn {p p' r r' : Ty} {e e' : Row} : Within p' p → Within r r' → e.Within e' →
      Within (.fn p r e) (.fn p' r' e')
  | tuple {items items' : List Ty} : List.Forall₂ Within items items' →
      Within (.tuple items) (.tuple items')
  | named {name : String} {args args' : List Ty} : List.Forall₂ Within args args' →
      Within (.named name args) (.named name args')
  | ref {kind : BorrowKind} {t t' : Ty} : Within t t' → Within (.ref kind t) (.ref kind t')

namespace Ty

/-- Turning a type around changes the signs of its row variables. -/
theorem mem_signedRows_not {v : RowVar} {t : Ty} {positive sign : Bool} :
    (v, sign) ∈ t.signedRows (!positive) ↔ (v, !sign) ∈ t.signedRows positive := by
  induction t using Ty.induction generalizing positive with
  | fn p r e hp hr =>
    simp only [signedRows, List.mem_append, hp, hr, List.mem_map, Prod.mk.injEq]
    cases positive <;> cases sign <;> simp
  | tuple items ih | named _ items ih =>
    simp only [signedRows, signedRowsList_eq, List.mem_flatMap]
    exact exists_congr fun t => and_congr_right fun ht => ih t ht
  | ref _ inner ih => exact ih
  | _ => simp [signedRows]

end Ty

namespace Assignment

variable {σ σ' : Assignment}

theorem onRow_within {e : Row} (h : ∀ v, e.tail = some v → (σ.row v).Within (σ'.row v)) :
    (σ.onRow e).Within (σ'.onRow e) := by
  cases ht : e.tail with
  | none =>
    rw [onRow_closed ht, onRow_closed ht]
    exact .refl e
  | some v =>
    rw [onRow_open ht, onRow_open ht]
    exact (h v ht).extend e.labels

/-- Fewer effects for variables in results, and more for those in parameters, give a type that may be
used where the other is expected. -/
theorem onType_within (htype : σ.type = σ'.type) {t : Ty}
    (hpos : ∀ v, (v, true) ∈ t.signedRows true → (σ.row v).Within (σ'.row v))
    (hneg : ∀ v, (v, false) ∈ t.signedRows true → (σ'.row v).Within (σ.row v)) :
    (σ.onType t).Within (σ'.onType t) := by
  induction t using Ty.induction generalizing σ σ' with
  | fn p r e hp hr =>
    simp only [Ty.signedRows, List.mem_append, List.mem_map, Option.mem_toList, Prod.mk.injEq] at hpos hneg
    refine .fn (hp htype.symm ?_ ?_) (hr htype ?_ ?_) (onRow_within ?_)
    -- what is positive in the parameter is negative in the function
    · exact fun v hv => hneg v (.inl (.inl (Ty.mem_signedRows_not.2 hv)))
    · exact fun v hv => hpos v (.inl (.inl (Ty.mem_signedRows_not.2 hv)))
    · exact fun v hv => hpos v (.inl (.inr hv))
    · exact fun v hv => hneg v (.inl (.inr hv))
    · exact fun v hv => hpos v (.inr ⟨v, hv, by simp⟩)
  | tuple items ih | named _ items ih =>
    simp only [Ty.signedRows, Ty.signedRowsList_eq, List.mem_flatMap] at hpos hneg
    simp only [onType, Ty.mapVars, Ty.mapVarsList_eq_map]
    constructor
    refine List.forall₂_map_left_iff.2 (List.forall₂_map_right_iff.2 (List.forall₂_same.2 fun t ht => ?_))
    exact ih t ht htype (fun v hv => hpos v ⟨t, ht, hv⟩) fun v hv => hneg v ⟨t, ht, hv⟩
  | ref _ inner ih => exact .ref (ih htype hpos hneg)
  | var v =>
    simp only [onType, Ty.mapVars, htype]
    exact .refl _
  | _ => exact .refl _

/-- Every variable for itself. -/
def own : Assignment := ⟨.var, .ofVar⟩

theorem onRow_own (e : Row) : own.onRow e = e := by
  cases ht : e.tail with
  | none => exact onRow_closed ht
  | some v => exact (onRow_open ht).trans (Row.eq_extend_ofVar ht).symm

/-- An assignment with no effects for some row variables. -/
def close (σ : Assignment) (vs : SortedSet RowVar) : Assignment :=
  ⟨σ.type, fun v => if v ∈ vs then .pure else σ.row v⟩

theorem onType_close_own (vs : SortedSet RowVar) (t : Ty) :
    σ.onType ((own.close vs).onType t) = (σ.close vs).onType t := by
  rw [onType, onType, Ty.mapVars_mapVars]
  refine Ty.mapVars_congr (fun v _ => rfl) fun e _ => ?_
  cases ht : e.tail with
  | none => rw [onRow_closed ht, onRow_closed ht, onRow_closed ht]
  | some v =>
    rw [onRow_open ht, onRow_open ht, onRow_extend]
    by_cases hv : v ∈ vs
    · simp [close, hv, onRow_closed, Row.pure]
    · simp [close, hv, own, onRow_ofVar]

theorem vars_close_own (vs : SortedSet RowVar) (t : Ty) (v : TyVar) :
    v ∈ ((own.close vs).onType t).vars ↔ v ∈ t.vars := by
  simp [onType, Ty.mem_vars_mapVars, close, own, Ty.vars]

theorem rows_close_own (vs : SortedSet RowVar) (t : Ty) (v : RowVar) :
    v ∈ ((own.close vs).onType t).rows ↔ v ∈ t.rows ∧ v ∉ vs := by
  have htail : ∀ e : Row, ((own.close vs).onRow e).tail = some v ↔ e.tail = some v ∧ v ∉ vs := by
    intro e
    cases ht : e.tail with
    | none => simp [onRow_closed, ht]
    | some w =>
      rw [onRow_open ht]
      by_cases hw : w ∈ vs
      · simp [close, hw, Row.pure]
        grind
      · simp [close, hw, own, Row.ofVar]
        grind
  simp only [Ty.mem_rows, onType, Ty.mem_effects_mapVars]
  constructor
  · rintro ⟨e, ⟨w, _, he⟩ | ⟨d, hd, rfl⟩, hv⟩
    · cases he
    · exact ⟨⟨d, hd, ((htail d).1 hv).1⟩, ((htail d).1 hv).2⟩
  · rintro ⟨⟨d, hd, hv⟩, hnot⟩
    exact ⟨_, .inr ⟨d, hd, rfl⟩, (htail d).2 ⟨hv, hnot⟩⟩

/-- Closing rows that no parameter mentions leaves effects out. -/
theorem close_within {t : Ty} {vs : SortedSet RowVar} (h : ∀ v ∈ vs, (t.polarity v).2 = 0) :
    ((σ.close vs).onType t).Within (σ.onType t) := by
  have htype : (σ.close vs).type = σ.type := rfl
  refine onType_within htype (fun v _ => ?_) fun v hv => ?_
  · simp only [close]
    split
    · exact Row.within_of_pure _
    · exact .refl _
  · have hnot : v ∉ vs := fun hmem => by
      have hzero := h v hmem
      rw [Ty.polarity, List.count_eq_zero] at hzero
      exact hzero hv
    simp only [close, if_neg hnot]
    exact .refl _

end Assignment

/-! ## Schemes with open and with closed rows -/

/-- The scheme of a top-level type with the rows of its results left open. -/
def generalizeOpen (t : Ty) (env : TypeEnv) : UnifyM Scheme := do
  let u ← get
  let t := u.apply t
  let vars := t.freeVars.diff (env.freeVars u.substitution)
  return {
    typeVars := vars.toList
    rowVars := (t.freeRows.diff (env.freeRows u.substitution)).toList
    numeric := vars.filter (fun v => u.numeric.contains v)
    ty := t }

/-- The row variables of a type that are closed: those that occur once, in a result, and are not fixed.
-/
def Ty.closable (t : Ty) (fixed : SortedSet RowVar) : SortedSet RowVar :=
  t.freeRows.filter (fun v => decide (t.polarity v = (1, 0)) && !decide (v ∈ fixed))

theorem Ty.mem_closable {t : Ty} {fixed : SortedSet RowVar} {v : RowVar} :
    v ∈ t.closable fixed ↔ v ∈ t.freeRows ∧ t.polarity v = (1, 0) ∧ v ∉ fixed := by
  simp [closable]

namespace Unifier

variable {u : Unifier}

theorem generalize_run (u : Unifier) (t : Ty) (env : TypeEnv) : generalize t env true u =
    let fixed := env.freeVars u.substitution
    let fixedRows := env.freeRows u.substitution
    let u' := u.closeAll ((u.apply t).closable fixedRows)
    ({ typeVars := ((u'.apply t).freeVars.diff fixed).toList
       rowVars := ((u'.apply t).freeRows.diff fixedRows).toList
       numeric := ((u'.apply t).freeVars.diff fixed).filter (fun v => u'.numeric.contains v)
       ty := u'.apply t }, u') :=
  rfl

/-- When rows are closed, what is left of a type has no effects there. -/
theorem apply_closeAll (hu : u.Valid) {t : Ty} (ht : t.Below u.rowCount) {vs : SortedSet RowVar}
    (hvs : ∀ v ∈ vs, v ∈ (u.apply t).freeRows) :
    (u.closeAll vs).apply t = (Assignment.own.close vs).onType (u.apply t) := by
  have hadv := closeAll_advances hu ht hvs
  have happly : (u.closeAll vs).apply t = (u.closeAll vs).apply (u.apply t) :=
    (hadv.refines.apply hu.acyclic t).symm
  rw [happly, Unifier.apply, Substitution.apply_eq_mapVars, Assignment.onType]
  refine Ty.mapVars_congr (fun v hv => ?_) fun e he => ?_
  · exact Substitution.apply_unbound
      ((u.type?_closeAll vs v).trans (hu.acyclic.type?_of_mem_vars_apply hv))
  · cases htail : e.tail with
    | none => rw [Substitution.findRow_closed htail, Assignment.onRow_closed htail]
    | some v =>
      have hrow := u.row?_closeAll vs v
      rw [Assignment.onRow_open htail, Substitution.findRow_eq_extend htail]
      by_cases hmem : v ∈ vs
      · rw [if_pos hmem] at hrow
        rw [hadv.valid.acyclic.findRow_ofVar hrow, Substitution.findRow_closed rfl]
        simp [Assignment.close, hmem]
      · rw [if_neg hmem] at hrow
        have hnone := hu.acyclic.row?_of_mem_effects_apply he htail
        rw [Substitution.findRow_unbound rfl (hrow.trans hnone)]
        simp [Assignment.close, hmem, Assignment.own]

end Unifier

/-- Whether a scheme is another one with some of its rows closed: they are not quantified, and its
instances are those of the other without effects there. Each may be used in the place of the instance of
the other that has effects there. -/
structure Scheme.Closes (s s' : Scheme) (closed : SortedSet RowVar) : Prop where
  typeVars : s'.typeVars = s.typeVars
  numeric : s'.numeric = s.numeric
  quantified : ∀ v ∈ closed, v ∈ s.rowVars
  rowVars : ∀ v, v ∈ s'.rowVars ↔ v ∈ s.rowVars ∧ v ∉ closed
  instances : ∀ σ : Assignment, σ.onType s'.ty = (σ.close closed).onType s.ty
  within : ∀ σ : Assignment, (σ.onType s'.ty).Within (σ.onType s.ty)

/-- Generalizing the type of a top-level declaration closes rows of the scheme that it has otherwise: all
that may be closed. -/
theorem generalize_closes {u : Unifier} (hu : u.Valid) {t : Ty} (ht : t.Below u.rowCount)
    (env : TypeEnv) : (generalizeOpen t env u).1.Closes (generalize t env true u).1
      ((u.apply t).closable (env.freeRows u.substitution)) := by
  have hclosed := @Ty.mem_closable (u.apply t) (env.freeRows u.substitution)
  rw [Unifier.generalize_run]
  dsimp only
  generalize (u.apply t).closable (env.freeRows u.substitution) = closed at hclosed ⊢
  have happly := Unifier.apply_closeAll hu ht fun v hv => (hclosed.1 hv).1
  have hvars : ((u.closeAll closed).apply t).freeVars = (u.apply t).freeVars :=
    SortedSet.ext_mem fun v => by simp [Ty.freeVars, happly, Assignment.vars_close_own]
  have hinstances : ∀ σ : Assignment,
      σ.onType ((u.closeAll closed).apply t) = (σ.close closed).onType (u.apply t) :=
    fun σ => (congrArg σ.onType happly).trans (Assignment.onType_close_own _ _)
  constructor
  · exact congrArg (fun vs => (SortedSet.diff vs _).toList) hvars
  · exact congrArg (fun vs => (SortedSet.diff vs _).filter _) hvars
  · exact fun v hv => SortedSet.mem_diff.2 ⟨(hclosed.1 hv).1, (hclosed.1 hv).2.2⟩
  · intro v
    have hrows : v ∈ ((u.closeAll closed).apply t).freeRows ↔ v ∈ (u.apply t).freeRows ∧ v ∉ closed := by
      simp [Ty.freeRows, happly, Assignment.rows_close_own]
    exact SortedSet.mem_diff.trans ((and_congr_left' hrows).trans
      (and_right_comm.trans (and_congr_left' SortedSet.mem_diff.symm)))
  · exact hinstances
  · intro σ
    rw [hinstances]
    exact Assignment.close_within fun v hv => by rw [(hclosed.1 hv).2.1]

/-! ## Schemes without effects -/

namespace Scheme

variable {s s' : Scheme} {closed : SortedSet RowVar}

/-- A scheme of the functional core stays one when its variables are renamed and its rows are replaced by
others without labels. -/
theorem Plain.of_ty (hs : s.Plain) (hnumeric : s'.numeric = ∅) {f : TyVar → TyVar} {r : Row → Row}
    (hty : s'.ty = s.ty.mapVars (fun v => .var (f v)) r)
    (hr : ∀ e, e.labels = ∅ → (r e).labels = ∅) : s'.Plain where
  numeric := hnumeric
  bare e he := by
    rw [hty, Ty.mem_effects_mapVars] at he
    rcases he with ⟨v, -, hv⟩ | ⟨d, hd, rfl⟩
    · cases hv
    · exact hr d (hs.bare d hd)
  proper := by
    rw [hty, Ty.mapVars_proper]
    exact ⟨hs.proper, fun v _ => rfl⟩

theorem Plain.canonical (hs : s.Plain) : s.canonical.PlainClosed where
  toPlain := by
    refine hs.of_ty (SortedSet.ext_mem fun i => ?_) s.ty_canonical fun _ h => h
    simp [mem_numeric_canonical, hs.numeric, SortedSet.not_mem_empty]
  types := s.canonical_closed.typeVars
  rows e he v hv := s.canonical_closed.rowVars v (Ty.mem_rows.2 ⟨e, he, hv⟩)

namespace Closes

theorem ty_eq (h : s.Closes s' closed) :
    s'.ty = s.ty.mapVars (fun v => .var v) (Assignment.own.close closed).onRow := by
  have hown : Assignment.own.onType s'.ty = s'.ty :=
    Ty.mapVars_eq_self (fun _ _ => rfl) fun e _ => Assignment.onRow_own e
  exact hown.symm.trans (h.instances .own)

/-- Closing rows leaves a scheme one of the functional core. -/
theorem plain (h : s.Closes s' closed) (hs : s.Plain) : s'.Plain := by
  refine hs.of_ty (h.numeric.trans hs.numeric) (f := id) h.ty_eq fun e he => ?_
  cases ht : e.tail with
  | none => rwa [Assignment.onRow_closed ht]
  | some v =>
    rw [Assignment.onRow_open ht]
    refine SortedSet.union_empty he ?_
    simp only [Assignment.close]
    split <;> rfl

/-- Closing rows changes nothing but effects. -/
theorem sameTypes (h : s.Closes s' closed) : s.canonical.SameTypes s'.canonical := by
  intro t
  have hunder : ∀ g, s'.ty.under g = s.ty.under g := fun g => by
    rw [h.ty_eq, Ty.under_mapVars]
    rfl
  rw [canonical_admits_iff, canonical_admits_iff]
  simp only [hunder]

theorem serveAlike (h : s.Closes s' closed) (hs : s.Plain) :
    s.canonical.ServeAlike s'.canonical :=
  h.sameTypes.serveAlike hs.canonical (h.plain hs).canonical

end Closes

end Scheme

/-! ## The schemes of a group -/

namespace Checker

/-- Whether a declaration is given its scheme in a state: that of its type, with all rows closed that may
be. If no effect is named in it, it serves like the scheme with these rows left open. -/
structure GivenAt (env : TypeEnv) (u : Unifier) (d : Checked) (e : String × Scheme) : Prop where
  name : e.1 = d.decl.name.text
  scheme : e.2 = (generalize d.body.ty env true u).1.canonical
  closes : (generalizeOpen d.body.ty env u).1.Closes (generalize d.body.ty env true u).1
    ((u.apply d.body.ty).closable (env.freeRows u.substitution))
  serves : (generalizeOpen d.body.ty env u).1.Plain →
    (generalizeOpen d.body.ty env u).1.canonical.ServeAlike e.2

/-- Whether declarations are given their schemes one after the other. What is closed for one of them
stays closed for those after it. -/
inductive Given (env : TypeEnv) : Unifier → List Checked → List (String × Scheme) → Prop
  | nil {u : Unifier} : Given env u [] []
  | cons {u : Unifier} {d : Checked} {ds : List Checked} {e : String × Scheme}
      {es : List (String × Scheme)} : GivenAt env u d e →
      Given env (generalize d.body.ty env true u).2 ds es → Given env u (d :: ds) (e :: es)

theorem recordScheme_unifier (name : Name) (s : Scheme) (c : Checker) :
    (recordScheme name s c).2.unifier = c.unifier ∧ (recordScheme name s c).2.env = c.env := by
  simp only [recordScheme, modify, modifyGet, MonadStateOf.modifyGet, StateT.modifyGet, Pure.pure]
  split <;> exact ⟨rfl, rfl⟩

theorem Given.getElem? {env : TypeEnv} {u : Unifier} {ds : List Checked} {es : List (String × Scheme)}
    (h : Given env u ds es) {i : Nat} {d : Checked} (hd : ds[i]? = some d) :
    ∃ v e, es[i]? = some e ∧ GivenAt env v d e := by
  induction h generalizing i with
  | nil => cases hd
  | @cons u _ _ e _ h _ ih =>
    cases i with
    | zero =>
      obtain rfl := Option.some.inj hd
      exact ⟨u, e, rfl, h⟩
    | succ i => exact ih hd

theorem closeSchemes_given {c : Checker} (hu : c.unifier.Valid) {ds : List Checked}
    (hds : ∀ d ∈ ds, d.body.ty.Below c.unifier.rowCount) :
    Given c.env c.unifier ds (closeSchemes false ds c).1 := by
  induction ds generalizing c with
  | nil => exact .nil
  | cons d ds ih =>
    rw [List.forall_mem_cons] at hds
    have hcloses := generalize_closes hu hds.1 c.env
    have hadv := (Unifier.generalize_does hu hds.1 c.env true).1
    let s := (generalize d.body.ty c.env true c.unifier).1.canonical
    let c' := (recordScheme d.decl.name s
      { c with unifier := (generalize d.body.ty c.env true c.unifier).2 }).2
    obtain ⟨hunifier, henv⟩ : c'.unifier = (generalize d.body.ty c.env true c.unifier).2 ∧
        c'.env = c.env := recordScheme_unifier ..
    have hrun : (closeSchemes false (d :: ds) c).1 =
        (d.decl.name.text, s) :: (closeSchemes false ds c').1 := rfl
    have hrest := ih (c := c') (hunifier ▸ hadv.valid) fun d' hd' =>
      (hds.2 d' hd').mono (hunifier ▸ hadv.rows)
    rw [hunifier, henv] at hrest
    rw [hrun]
    exact .cons ⟨rfl, rfl, hcloses, fun hs => hcloses.serveAlike hs⟩ hrest

end Checker

/-- The schemes that an accepted group gives to its declarations are those that they have in its last
state, but for rows that are closed one declaration after the other. -/
theorem checkGroup_closes {r : Registries} (hr : r.RowsClosed) {env : TypeEnv} (henv : env.Below 0)
    (tracing : Bool) {decls : List Decl} (h : (checkGroup r env tracing decls).diagnostics = []) :
    let last := Checker.inferGroup r (decls.filterMap Decl.value?) (.start env tracing)
    Checker.Given last.2.env last.2.unifier last.1 (checkGroup r env tracing decls).schemes := by
  intro last
  obtain ⟨hvalid, hbelow, hschemes, -⟩ := checkGroup_settles hr henv tracing h
  rw [hschemes]
  exact Checker.closeSchemes_given hvalid.unifier hbelow

/-- `fn quiet(s: String) { () }` -/
def quiet : Decl :=
  let name := Name.mk .synthetic
  .fn ⟨.synthetic, name "quiet", [⟨name "s", some (.named .synthetic "String" [])⟩], none, none,
    .lit .synthetic .unit⟩

theorem quiet_closes :
    (let last := Checker.inferGroup (Module.registries [quiet]).1 ([quiet].filterMap Decl.value?)
      (.start printing false)
    Checker.Given last.2.env last.2.unifier last.1
      (checkGroup (Module.registries [quiet]).1 printing false [quiet]).schemes) ∧
    (checkGroup (Module.registries [quiet]).1 printing false [quiet]).schemes =
      [("quiet", .mono (.arrow .string .unit))] :=
  ⟨checkGroup_closes (Module.registries_collected [quiet]).rowsClosed printing_below false
    (List.isEmpty_iff.1 (by decide +kernel)), by decide +kernel⟩

/-! ## A branch that is refused -/

/-- The schemes of the declarations of a group, with the rows of their results left open. -/
def openSchemes (r : Registries) (env : TypeEnv) (decls : List Decl) : List (String × Scheme) :=
  let (checked, c) := (Checker.inferGroup r (decls.filterMap Decl.value?)).run (.start env false)
  checked.map (fun d =>
    (d.decl.name.text, ((generalizeOpen d.body.ty c.env).run c.unifier).1.canonical))

/-- `fn pick(b) { if b { quiet } else { print } }` -/
def pick : Decl :=
  let name := Name.mk .synthetic
  .fn ⟨.synthetic, name "pick", [⟨name "b", none⟩], none, none,
    .cond .synthetic (.var .synthetic "b") (.var .synthetic "quiet") (.var .synthetic "print")⟩

/-- With its row open, the function that performs nothing may stand in a branch beside one that performs
`io`. With its row closed it may not. -/
theorem branch_refused :
    let s : Scheme := ⟨[], [0], ∅, .fn .string .unit (.ofVar 0)⟩
    let s' : Scheme := .mono (.arrow .string .unit)
    openSchemes .empty printing [quiet] = [("quiet", s)] ∧
    (checkGroup .empty printing false [quiet]).schemes = [("quiet", s')] ∧
    (checkGroup .empty (TypeEnv.ofGlobals (printing.globals.insert "quiet" s)) false
      [pick]).hasErrors = false ∧
    (checkGroup .empty (TypeEnv.ofGlobals (printing.globals.insert "quiet" s')) false
      [pick]).hasErrors = true := by decide +kernel

end RowCheck
