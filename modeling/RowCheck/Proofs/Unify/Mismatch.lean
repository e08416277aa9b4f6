import RowCheck.Proofs.Unify.Outcome
import RowCheck.Proofs.Unify.Runs
import RowCheck.Proofs.Types.Texts

/-!
What the report of a mismatch shows. Types that are written alike, and no part of which is written
as another type, are never a mismatch: they are taken apart into parts that are written alike, down
to variables. So the types of a mismatch are displayed differently, unless they have such a part.
-/
namespace RowCheck

open Equation

/-- Whether two types are written alike, and no part of them is written as another type. -/
structure Ty.Resembles (names : VarNames) (s t : Ty) : Prop where
  spelling : s.spelling names = t.spelling names
  left : s.ambiguous = false
  right : t.ambiguous = false

/-- Whether two rows are written alike. -/
def Row.Resembles (names : VarNames) (r r' : Row) : Prop := r.spelling names = r'.spelling names

variable {names : VarNames} {a b : Ty}

namespace Ty

theorem Resembles.symm (h : Resembles names a b) : Resembles names b a :=
  ⟨h.spelling.symm, h.right, h.left⟩

/-- Items of lists that are written alike are. -/
theorem resembles_items {as bs : List Ty} (has : ambiguousAny as = false)
    (hbs : ambiguousAny bs = false) (h : spellings names as = spellings names bs) :
    List.Forall₂ (Resembles names) as bs := by
  rw [ambiguousAny_iff] at has hbs
  rw [spellings_eq_map, spellings_eq_map] at h
  induction as generalizing bs with
  | nil =>
    rw [List.map_eq_nil_iff.1 h.symm]
    exact .nil
  | cons a as ih =>
    obtain ⟨b, bs, rfl, hb, hbs'⟩ := List.map_eq_cons_iff.1 h.symm
    rw [List.forall_mem_cons] at has hbs
    exact .cons ⟨hb.symm, has.1, hbs.1⟩ (ih has.2 hbs.2 hbs'.symm)

/-- What is written like a builtin type, and is not ambiguous, is that type. -/
theorem Resembles.eq_builtin {w : String} (ha : a.builtin? = some w) (hb : b.Plain)
    (h : Resembles names a b) : a = b := by
  have hword : b.spelling names = .named w [] := by
    rw [← h.spelling]
    cases a with
    | prim p | string | unit => exact congrArg (Spelling.named · []) (Option.some.inj ha)
    | _ => cases ha
  rcases of_word hword with hb' | ⟨v, rfl, -⟩ | rfl
  · exact builtin?_inj ha hb'
  · exact absurd rfl (hb.ne_var v)
  · exact absurd (mem_builtinNames ha) (not_ambiguous_word h.right)

theorem Resembles.parts_builtin {w : String} (ha : a.Plain) (hw : a.builtin? = some w)
    (hb : b.Plain) (h : Resembles names a b) : parts a b = some [] := by
  obtain rfl := h.eq_builtin hw hb
  cases a with
  | prim p => exact if_pos rfl
  | string | unit => rfl
  | _ => cases hw

/-- Types that are written alike are taken apart into parts that are. -/
theorem Resembles.parts (ha : a.Plain) (hb : b.Plain) (h : Resembles names a b) :
    ∃ es, parts a b = some es ∧ ∀ e ∈ es, e.Relates (Resembles names) (Row.Resembles names) := by
  have builtin : ∀ {w}, b.builtin? = some w → b = a := fun hw => h.symm.eq_builtin hw ha
  obtain ⟨hspelling, hleft, hright⟩ := h
  cases a with
  | fn p r e => cases b with
    | fn p' r' e' =>
      simp only [ambiguous, Bool.or_eq_false_iff] at hleft hright
      obtain ⟨hp, he, hr⟩ := Spelling.arrow.inj hspelling
      refine ⟨_, rfl, ?_⟩
      simp only [List.forall_mem_cons]
      exact ⟨⟨spelling_of_boxed hleft.1.1 hright.1.1 hp, hleft.1.2, hright.1.2⟩,
        ⟨hr, hleft.2, hright.2⟩, he, List.forall_mem_nil _⟩
    | _ => cases hspelling
  | tuple items => cases b with
    | tuple items' =>
      have hitems := resembles_items hleft hright (Spelling.tuple.inj hspelling)
      exact ⟨_, if_pos hitems.length_eq, (relates_zipWith hitems.length_eq).2 hitems⟩
    | _ => cases hspelling
  | named name args => cases b with
    | named name' args' =>
      simp only [ambiguous, Bool.or_eq_false_iff] at hleft hright
      obtain ⟨rfl, hargs⟩ := Spelling.named.inj hspelling
      have hargs := resembles_items hleft.2 hright.2 hargs
      exact ⟨_, if_pos ⟨rfl, hargs.length_eq⟩, (relates_zipWith hargs.length_eq).2 hargs⟩
    | prim q => cases builtin rfl
    | string => cases builtin rfl
    | unit => cases builtin rfl
    | var v => exact absurd rfl (hb.ne_var v)
    | _ => cases hspelling
  | ref kind inner => cases b with
    | ref kind' inner' =>
      simp only [ambiguous, Bool.or_eq_false_iff] at hleft hright
      obtain ⟨rfl, hinner⟩ := Spelling.ref.inj hspelling
      exact ⟨_, if_pos rfl, List.forall_mem_singleton.2
        ⟨spelling_of_boxed hleft.1 hright.1 hinner, hleft.2, hright.2⟩⟩
    | _ => cases hspelling
  | var v => exact absurd rfl (ha.ne_var v)
  | error => exact absurd rfl ha.ne_error
  | _ =>
    exact ⟨_, Resembles.parts_builtin ha rfl hb ⟨hspelling, hleft, hright⟩, List.forall_mem_nil _⟩

/-- A variable is not written like a type that it occurs in. -/
theorem Resembles.not_occurs {v : TyVar} {t : Ty} (hv : v ∈ t.vars) (hne : t ≠ .var v) :
    ¬ Resembles names (.var v) t := by
  intro h
  rcases of_word h.spelling.symm with ht | ⟨w, rfl, -⟩ | rfl
  · cases t with
    | prim p | string | unit => cases hv
    | _ => cases ht
  · exact hne (congrArg Ty.var (List.mem_singleton.1 hv).symm)
  · cases hv

end Ty

/-- Rows that clash are not written alike: they differ in labels, and in more than a single one. -/
theorem Row.Resembles.not_clash {s : Substitution} {r r' : Row} (h : s.level r r' = none) :
    ¬ r.Resembles names r' := by
  intro hr
  have same : r ≠ r' := by
    rintro rfl
    rw [Substitution.level_self] at h
    cases h
  have hempty : ∀ {l l' : SortedSet String}, l.isEmpty = true → (l.diff l').isEmpty = true := by
    intro l l' hl
    refine SortedSet.isEmpty_diff.2 fun x hx => ?_
    rw [SortedSet.mem_def, List.isEmpty_iff.1 hl] at hx
    cases hx
  obtain ⟨l, tail⟩ := r
  obtain ⟨l', tail'⟩ := r'
  cases tail with
  | none => cases tail' with
    | none => exact same (congrArg (Row.mk · none) (Row.spelling_closed.1 hr))
    | some v =>
      have hl' : (l'.diff l).isEmpty = true := hempty (Row.spelling_open_closed.1 hr.symm).1
      simp [Substitution.level, hl'] at h
  | some v => cases tail' with
    | none =>
      have hl : (l.diff l').isEmpty = true := hempty (Row.spelling_open_closed.1 hr).1
      simp [Substitution.level, hl] at h
    | some v' =>
      obtain ⟨rfl, -⟩ := Row.spelling_open.1 hr
      by_cases hv : v = v'
      · exact same (hv ▸ rfl)
      · simp [Substitution.level, hv] at h

theorem discerning_resembles (names : VarNames) :
    Discerning (Ty.Resembles names) (Row.Resembles names) where
  parts := Ty.Resembles.parts
  occurs hv hne := ⟨Ty.Resembles.not_occurs hv hne, fun h => Ty.Resembles.not_occurs hv hne h.symm⟩
  rows := Row.Resembles.not_clash

namespace Unifier

variable {u : Unifier}

/-- The types of a mismatch are displayed differently, unless one of them is ambiguous. -/
theorem solve_displays (hu : u.Valid) (ha : a.Below u.rowCount) (hb : b.Below u.rowCount)
    (h : ((solve a b).run u).1.isOk = false) {s t : Ty} (hs : ((solve a b).run u).2.apply a = s)
    (ht : ((solve a b).run u).2.apply b = t) (hss : s.Spelt) (hts : t.Spelt)
    (has : s.ambiguous = false) (hat : t.ambiguous = false) :
    (Ty.displayPair s t).1 ≠ (Ty.displayPair s t).2 := by
  subst hs ht
  intro heq
  exact (solve_tells (discerning_resembles _) hu ha hb).2 h
    ⟨(Ty.displayPair_eq_iff hss hts).1 heq, has, hat⟩

@[simp] theorem message_reportWithHelp (p : Provenance) (c : Category) (message : String) :
    (p.reportWithHelp c message).message = message := by
  unfold Provenance.reportWithHelp Provenance.report
  dsimp only
  split
  · split
    · rfl
    · rfl
  · split
    · rfl
    · rfl

/-- What a mismatch is reported with: the types as they are displayed together. -/
theorem unify_mismatch (why : Provenance) {u' : Unifier}
    (h : (solve a b).run u = (.error .mismatch, u')) :
    (∀ t, (unify a b why u).2.apply t = u'.apply t) ∧
    ∃ d, (unify a b why u).2.errors = u'.errors ++ [d] ∧ d.category = .typeMismatch ∧
      d.message =
        let texts := Ty.displayPair (u'.apply a) (u'.apply b)
        match why.reason with
        | .application => s!"expected a function, got `{texts.2}`"
        | _ => s!"expected `{texts.1}`, got `{texts.2}`" := by
  unfold unify
  simp only [Bind.bind, StateT.bind]
  rw [h]
  refine ⟨fun t => ?_, _, congrArg (· ++ _) ?_, category_reportWithHelp ..,
    message_reportWithHelp ..⟩
  · exact congrArg (Substitution.apply · t) (note_substitution ..)
  · exact ((note_changesRows ..).moves _).eqs.2.2.2

end Unifier

/-- The report of a mismatch shows a difference, unless a part of one of its types is written as
another type: a declared type under the name of a builtin one, or a tuple of just an arrow where an
arrow stands in parentheses. In general, two types over valid names are displayed alike if and only
if they are spelled alike. So apart from such parts, and where the variables have names of their
own, what is displayed determines the type. -/
theorem mismatch_displays {s t : Ty} (hs : s.Spelt) (ht : t.Spelt) :
    (s.ambiguous = false → t.ambiguous = false →
      ∀ {u : Unifier} {a b : Ty} {why : Provenance}, u.Reachable → a.Below u.rowCount →
      b.Below u.rowCount → ((Unifier.solve a b).run u).1 = .error .mismatch →
      (Unifier.unify a b why u).2.apply a = s → (Unifier.unify a b why u).2.apply b = t →
      ∃ p q, Ty.displayPair s t = (p, q) ∧ p ≠ q ∧
        ∃ d, (Unifier.unify a b why u).2.errors.getLast? = some d ∧ d.category = .typeMismatch ∧
          d.message = match why.reason with
            | .application => s!"expected a function, got `{q}`"
            | _ => s!"expected `{p}`, got `{q}`") ∧
    ((Ty.displayPair s t).1 = (Ty.displayPair s t).2 ↔
      s.spelling (.ofTypes [s, t]) = t.spelling (.ofTypes [s, t])) ∧
    (s.ambiguous = false → t.ambiguous = false → (VarNames.ofTypes [s, t]).Apart [s, t] →
      (Ty.displayPair s t).1 = (Ty.displayPair s t).2 → s = t) := by
  refine ⟨fun has hat {u a b why} hu ha hb hm hsa htb => ?_, Ty.displayPair_eq_iff hs ht,
    Ty.eq_of_displayPair_eq hs ht⟩
  obtain ⟨happly, d, herrors, hcategory, hmessage⟩ :=
    Unifier.unify_mismatch why (Prod.ext hm rfl)
  rw [happly] at hsa htb
  rw [hsa, htb] at hmessage
  have hfail : ((Unifier.solve a b).run u).1.isOk = false := by
    rw [hm]
    rfl
  exact ⟨_, _, rfl, Unifier.solve_displays hu.valid ha hb hfail hsa htb hs ht has hat, d,
    by rw [herrors, List.getLast?_concat], hcategory, hmessage⟩

/-- A variable that was bound before types clash is displayed as what it is bound to. Rows that
differ in their tails only are displayed with two names. -/
theorem pair_displays :
    (∃ p q, Ty.displayPair (.tuple [.string, .s32]) (.tuple [.string, .string]) = (p, q) ∧ p ≠ q ∧
      ∃ d, (Unifier.unify (.tuple [.var 0, .s32]) (.tuple [.string, .string])
          (.of .synthetic .letType) (PassOp.run .empty [.freshTypeVar])).2.errors.getLast? =
            some d ∧
        d.category = .typeMismatch ∧ d.message = s!"expected `{p}`, got `{q}`") ∧
    let s : Ty := .fn (.var 0) .unit ⟨.ofList ["io"], some 0⟩
    let t : Ty := .fn (.var 0) .unit ⟨.ofList ["io"], some 1⟩
    (Ty.displayPair s t).1 ≠ (Ty.displayPair s t).2 := by
  have hu : (PassOp.run .empty [.freshTypeVar]).Reachable :=
    Unifier.reachable_run ⟨trivial, trivial⟩
  refine ⟨?_, ?_⟩
  · obtain ⟨hmismatch, -⟩ := @mismatch_displays (.tuple [.string, .s32]) (.tuple [.string, .string])
      (by decide) (by decide)
    exact hmismatch (by decide) (by decide) (a := .tuple [.var 0, .s32])
      (b := .tuple [.string, .string]) hu (Ty.below_of_effects_eq_nil rfl)
      (Ty.below_of_effects_eq_nil rfl) rfl (by decide +kernel) (by decide +kernel)
  · intro s t h
    obtain ⟨-, -, hdetermined⟩ := @mismatch_displays s t (by decide +kernel) (by decide +kernel)
    exact absurd (hdetermined (by decide) (by decide) (by decide +kernel) h) (by decide +kernel)

/-- Behind a reference, an arrow is displayed like a tuple of just that arrow, and a declared type
may have the name of a builtin one: these are mismatches of types that are displayed alike. Besides,
a declared type may have the name of a variable, and a label by itself that of a tail. -/
theorem displayed_alike :
    (∀ p ∈ [(Ty.ref .shared (.arrow .s32 .s32), Ty.ref .shared (.tuple [.arrow .s32 .s32])),
        (.named "String" [], .string)],
      p.1.Spelt ∧ p.2.Spelt ∧ ((Unifier.solve p.1 p.2).run .empty).1 = .error .mismatch ∧
        let u := (Unifier.unify p.1 p.2 (.of .synthetic .functionArg) .empty).2
        (Ty.displayPair (u.apply p.1) (u.apply p.2)).1 =
          (Ty.displayPair (u.apply p.1) (u.apply p.2)).2) ∧
    ∀ p ∈ [(Ty.named "a" [], Ty.var 0),
        (.fn .unit .unit (.closed ["e"]), .fn .unit .unit (.ofVar 0))],
      p.1.Spelt ∧ p.2.Spelt ∧ p.1 ≠ p.2 ∧
        (Ty.displayPair p.1 p.2).1 = (Ty.displayPair p.1 p.2).2 := by
  refine ⟨List.forall_mem_cons.2 ⟨⟨?_, ?_, rfl, ?_⟩, List.forall_mem_singleton.2
    ⟨?_, ?_, rfl, ?_⟩⟩, ?_⟩
  all_goals decide +kernel

end RowCheck
