import RowCheck.Check
import RowCheck.Proofs.Dependency.Levels
import RowCheck.Proofs.Infer.Coincidence
import RowCheck.Proofs.Typing.Group

/-!
What checking the groups of a module yields, apart from what it finds out: whether or not a group is
at fault, each of its declarations is there in its checked form and has a scheme, under its own name
and in the order of the group.
-/
namespace RowCheck

namespace Checker

variable {r : Registries}

theorem inferDecls_answers (ps : List (ValueDecl × Ty)) :
    Always (inferDecls r ps) fun ks => ks.map (·.decl) = ps.map (·.1) := by
  induction ps with
  | nil => exact .pure rfl
  | cons p ps ih =>
    obtain ⟨d, placeholder⟩ := p
    have hrest : ∀ q : TExpr × Row, Always (do
        Unifier.unify placeholder q.1.ty
          ((Provenance.of d.span .recursiveUse).relatedTo d.name.span)
        return ⟨d, q.1, q.2⟩ :: (← inferDecls r ps) : CheckM (List Checked))
        fun ks => ks.map (·.decl) = d :: ps.map (·.1) := fun q =>
      .bind fun _ => ih.next fun _ hks => .pure (congrArg (d :: ·) hks)
    unfold inferDecls
    refine .bind fun _ => ?_
    cases d with
    | fn f => exact .bind hrest
    | active a => exact .bind hrest

theorem inferGroup_answers (ds : List ValueDecl) :
    Always (inferGroup r ds) fun ks => ks.map (·.decl) = ds := by
  have hplaceholders : Always (bindPlaceholders ds) fun ps => ps.map (·.1) = ds :=
    bindPlaceholders_fst ds
  unfold inferGroup
  refine .bind fun _ => hplaceholders.next fun ps hps => ?_
  refine (inferDecls_answers ps).next fun ks hks => .bind fun _ => .bind fun _ => .pure ?_
  exact hks.trans hps

theorem closeSchemes_answers (failed : Bool) (ks : List Checked) :
    Always (closeSchemes failed ks) fun ss => ss.map (·.1) = ks.map (·.decl.name.text) := by
  induction ks with
  | nil => exact .pure rfl
  | cons k ks ih =>
    have hrest : ∀ s : Scheme, Always (do
        recordScheme k.decl.name s
        return (k.decl.name.text, s) :: (← closeSchemes failed ks))
        fun ss => ss.map (·.1) = k.decl.name.text :: ks.map (·.decl.name.text) := fun s =>
      .bind fun _ => ih.next fun _ hss => .pure (congrArg (k.decl.name.text :: ·) hss)
    unfold closeSchemes
    dsimp only
    split
    · exact hrest _
    · exact .bind fun _ => .bind fun s => hrest _

end Checker

open Checker

variable {r : Registries}

/-- Whether a typed declaration is a function, or a value, of some name. -/
def TDecl.Defines (d : TDecl) (name : String) : Prop := ∃ f, d.function? = some f ∧ f.name = name

theorem TDecl.Defines.name {d : TDecl} {name : String} (h : d.Defines name) : d.name = name := by
  obtain ⟨f, hf, rfl⟩ := h
  cases d with
  | type t => cases hf
  | fn g | active g p =>
    cases hf
    rfl

/-- The checks of ownership and of matches keep the name of a declaration. -/
theorem TDecl.Defines.analyze {d : TDecl} {name : String} (h : d.Defines name) :
    (d.analyze r).1.Defines name := by
  obtain ⟨f, hf, rfl⟩ := h
  cases d with
  | type t => cases hf
  | fn g | active g p =>
    cases hf
    exact ⟨_, rfl, rfl⟩

/-- The names of the values that some declarations bind. -/
def valueNames (decls : List Decl) : List String :=
  (decls.filterMap Decl.value?).map (·.name.text)

/-- A group gives its values schemes in order. -/
theorem checkGroup_schemes (env : TypeEnv) (tracing : Bool) (decls : List Decl) :
    (checkGroup r env tracing decls).schemes.map (·.1) = valueNames decls := by
  have hks := inferGroup_answers (r := r) (decls.filterMap Decl.value?) (.start env tracing)
  rw [valueNames, ← hks, List.map_map]
  exact closeSchemes_answers _ _ _

/-- A group has its values as typed declarations in order. -/
theorem checkGroup_decls (env : TypeEnv) (tracing : Bool) (decls : List Decl) :
    List.Forall₂ TDecl.Defines (checkGroup r env tracing decls).decls (valueNames decls) := by
  have hks := inferGroup_answers (r := r) (decls.filterMap Decl.value?) (.start env tracing)
  rw [valueNames, ← hks, List.map_map]
  refine List.forall₂_map_left_iff.2 (List.forall₂_map_right_iff.2 (List.forall₂_same.2 fun k _ => ?_))
  exact ⟨_, Checked.function?_settle r _ k, rfl⟩

namespace Module

variable {m : Module}

/-- The declarations at some indices. -/
def declsAt (m : Module) (group : List Nat) : List Decl := group.filterMap fun index => m[index]?

/-- The first values of names, in a list of their own, bind these names in order. -/
theorem firstValue_valueNames {group : List Nat} (h : ∀ i ∈ group, ∃ name, m.FirstValue name i) :
    List.Forall₂ (fun i name => m.FirstValue name i) group (valueNames (m.declsAt group)) := by
  induction group with
  | nil => exact .nil
  | cons i group ih =>
    rw [List.forall_mem_cons] at h
    obtain ⟨⟨name, hname⟩, hrest⟩ := h
    obtain ⟨d, hd, hvalue⟩ := Option.bind_eq_some_iff.1 hname.1
    obtain ⟨v, hv, rfl⟩ : ∃ v, d.value? = some v ∧ v.name.text = name := by
      cases d with
      | type d => cases hvalue
      | fn d | active d => exact ⟨_, rfl, Option.some.inj hvalue⟩
    have hcons : valueNames (m.declsAt (i :: group)) =
        v.name.text :: valueNames (m.declsAt group) := by
      rw [declsAt, List.filterMap_cons_some hd, valueNames, List.filterMap_cons_some hv]
      rfl
    exact hcons ▸ .cons hname (ih hrest)

/-- Whether a checked declaration that comes with an index is the value that is declared there. -/
structure Declares (m : Module) (i : Nat) (d : Nat × CheckedDecl) : Prop where
  index : d.1 = i
  first : m.FirstValue d.2.name i
  defines : d.2.decl.Defines d.2.name

variable (r) (config : CheckConfig) (env : TypeEnv)

/-- The schemes of a group are those of its declarations. -/
theorem checkGroup_schemes {group : List Nat} (h : ∀ i ∈ group, ∃ name, m.FirstValue name i) :
    List.Forall₂ (fun i name => m.FirstValue name i) group
      ((m.checkGroup r config env group).schemes.map (·.1)) := by
  have hnames := firstValue_valueNames h
  rwa [← RowCheck.checkGroup_schemes env config.traceInference] at hnames

theorem declares_zip {group : List Nat} {names : List String} {ds : List (TDecl × List Diagnostic)}
    (hnames : List.Forall₂ (fun i name => m.FirstValue name i) group names)
    (hds : List.Forall₂ (fun d name => d.1.Defines name) ds names)
    (schemes : SortedMap String Scheme) :
    List.Forall₂ m.Declares group ((group.zip ds).map fun d =>
      (d.1, ⟨d.2.1.name, d.2.1, schemes.get? d.2.1.name⟩)) := by
  induction hnames generalizing ds with
  | nil => exact .nil
  | @cons i name group names hname _ ih =>
    cases hds with
    | @cons d _ ds _ hd hds =>
      have hfirst : m.FirstValue d.1.name i := hd.name.symm ▸ hname
      have hdefines : d.1.Defines d.1.name := hd.name.symm ▸ hd
      exact .cons ⟨rfl, hfirst, hdefines⟩ (ih hds)

/-- The checked declarations of a group are its declarations, with their indices. -/
theorem checkGroup_declarations {group : List Nat} (h : ∀ i ∈ group, ∃ name, m.FirstValue name i) :
    List.Forall₂ m.Declares group (m.checkGroup r config env group).declarations := by
  have hdecls := checkGroup_decls (r := r) env config.traceInference (m.declsAt group)
  refine declares_zip (firstValue_valueNames h) ?_ _
  split
  · exact List.forall₂_map_left_iff.2 hdecls
  · exact List.forall₂_map_left_iff.2 (hdecls.imp fun _ _ hd => hd.analyze)

end Module
end RowCheck
