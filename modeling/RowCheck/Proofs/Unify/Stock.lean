import RowCheck.Proofs.Unify.Kept

/-!
The solver stays among the types that it is given. A stock of types has with a type all its parts;
where it has with a variable what that is bound to, solving an equation between two of its types
binds its own variables to its own types, and leaves all other type variables alone.
-/
namespace RowCheck

/-- A stock of types over finitely many type variables. It has with a type the parts of it, and `Rows`
tells how row variables may be bound for it: its rows can be made equal within that. -/
structure Stock where
  Has : Ty → Prop
  HasRow : Row → Prop
  Rows : Array (Option Row) → Prop
  vars : Finset TyVar
  mem_vars : ∀ {v}, Has (.var v) → v ∈ vars
  fn : ∀ {p r e}, Has (.fn p r e) → Has p ∧ Has r ∧ HasRow e
  tuple : ∀ {items}, Has (.tuple items) → ∀ t ∈ items, Has t
  named : ∀ {name args}, Has (.named name args) → ∀ t ∈ args, Has t
  ref : ∀ {k t}, Has (.ref k t) → Has t
  rows : ∀ {u : Unifier} {e f}, u.Valid → Rows u.substitution.rows → HasRow e → HasRow f →
    e.Below u.rowCount → f.Below u.rowCount →
    u.Solves (Unifier.solveRows e f) (fun _ u' => Rows u'.substitution.rows)

namespace Substitution

variable {s : Substitution}

theorem size_types_bindType {v : TyVar} (h : v < s.types.size) (t : Ty) :
    (s.bindType v t).types.size = s.types.size := by
  simp only [bindType, reach, Array.size_set, Array.size_append, Array.size_replicate]
  rw [Nat.sub_eq_zero_of_le h, Nat.add_zero]

theorem size_types_compress {vs : List TyVar} (h : ∀ v ∈ vs, v < s.types.size) (t : Ty) :
    (s.compress vs t).types.size = s.types.size := by
  induction vs generalizing s with
  | nil => rfl
  | cons v vs ih =>
    simp only [List.mem_cons, forall_eq_or_imp] at h
    have hsize := size_types_bindType h.1 t
    exact (ih (s := s.bindType v t) (hsize ▸ h.2)).trans hsize

end Substitution

namespace Unifier

variable {u u' u'' : Unifier} {K : Stock}

/-- The number of type variables that were made. -/
abbrev typeCount (u : Unifier) : Nat := u.substitution.types.size

/-- A valid state without numeric bounds in which the variables of a stock are bound to types of
it. -/
structure Holds (u : Unifier) (K : Stock) : Prop extends u.Valid where
  numeric : u.numeric = ∅
  rows : K.Rows u.substitution.rows
  bound : ∀ v t, K.Has (.var v) → u.substitution.type? v = some t → K.Has t

/-- Whether a later state differs in the variables of a stock only, and has neither more errors nor
more that waits. It has as many type variables, if those of the stock were made. -/
structure StaysIn (K : Stock) (u u' : Unifier) : Prop where
  holds : u'.Holds K
  count : (∀ v, K.Has (.var v) → v < u.typeCount) → u'.typeCount = u.typeCount
  others : ∀ v, ¬ K.Has (.var v) → u'.substitution.type? v = u.substitution.type? v
  pending : u'.pending = u.pending
  errors : u'.errors = u.errors

theorem Holds.staysIn (h : u.Holds K) : StaysIn K u u :=
  ⟨h, fun _ => rfl, fun _ _ => rfl, rfl, rfl⟩

theorem StaysIn.trans (h : StaysIn K u u') (h' : StaysIn K u' u'') : StaysIn K u u'' where
  holds := h'.holds
  count hK := by
    have hcount := h.count hK
    exact (h'.count fun v hv => hcount ▸ hK v hv).trans hcount
  others v hv := (h'.others v hv).trans (h.others v hv)
  pending := h'.pending.trans h.pending
  errors := h'.errors.trans h.errors

/-- A state with the same substitution, in which neither bounds nor errors nor what waits have
changed. -/
theorem Holds.staysIn_of_eq (h : u.Holds K) (hu : u'.Valid)
    (he : u'.substitution = u.substitution ∧ u'.numeric = u.numeric ∧ u'.pending = u.pending ∧
      u'.errors = u.errors) : StaysIn K u u' := by
  obtain ⟨hs, hn, hp, he⟩ := he
  exact ⟨⟨hu, hn.trans h.numeric, hs ▸ h.rows, hs ▸ h.bound⟩, fun _ => by rw [typeCount, hs],
    fun v _ => by rw [hs], hp, he⟩

/-! ## The parts of the solver -/

theorem Holds.has_of_chain (h : u.Holds K) {v : TyVar} {vs : List TyVar} {t : Ty}
    (hc : u.substitution.Chain v vs t) (hv : K.Has (.var v)) :
    K.Has t ∧ ∀ w ∈ vs, K.Has (.var w) := by
  induction hc with
  | unbound _ => exact ⟨hv, by simp⟩
  | stop ht _ => exact ⟨h.bound _ _ hv ht, by simpa using hv⟩
  | next hw _ ih =>
    obtain ⟨ht, hvs⟩ := ih (h.bound _ _ hv hw)
    exact ⟨ht, by simpa using ⟨hv, hvs⟩⟩

theorem find_staysIn (h : u.Holds K) {t : Ty} (ht : K.Has t) (hb : t.Below u.rowCount) :
    u.Does (find t) (fun t' u' => StaysIn K u u' ∧ K.Has t') := by
  refine ⟨(find_does h.toValid hb).1, ?_⟩
  rcases Substitution.find_eq h.acyclic t with ⟨v, vs, rfl, hc, he⟩ | ⟨hne, he⟩
  · obtain ⟨hhead, hvs⟩ := h.has_of_chain hc ht
    have hval := (find_does h.toValid hb).1.valid
    have hstate : (find (.var v) u).2 =
        { u with substitution := u.substitution.compress vs (u.substitution.find (.var v)).1 } := by
      simp only [find, ← he]
    rw [hstate] at hval ⊢
    refine ⟨⟨⟨hval, h.numeric, ?_, fun w x hw hx => ?_⟩, fun hK => ?_, fun w hw => ?_, rfl, rfl⟩,
      hhead⟩
    · exact (Substitution.rows_compress ..).symm ▸ h.rows
    · rw [Substitution.type?_compress] at hx
      split at hx
      · cases hx
        exact hhead
      · exact h.bound w x hw hx
    · exact Substitution.size_types_compress (fun w hw => hK w (hvs w hw)) _
    · exact (Substitution.type?_compress ..).trans (if_neg fun hmem => hw (hvs w hmem))
  · have hfind : find t u = (t, u) := by simp only [find, he]
    rw [hfind]
    exact ⟨h.staysIn, ht⟩

theorem bindVar_staysIn (h : u.Holds K) {v : TyVar} {t : Ty} (hv : K.Has (.var v)) (ht : K.Has t)
    (hunbound : u.substitution.type? v = none) (hb : t.Below u.rowCount) :
    u.Solves (bindVar v t) (fun _ u' => StaysIn K u u') := by
  unfold bindVar
  refine .get_bind ?_
  dsimp only
  split
  · exact .throw h.toValid _
  · rename_i hm
    have hm : v ∉ (u.apply t).vars := by rwa [Ty.mentions_iff] at hm
    refine .lift_bind (note_bounds h.toValid ..) fun _ u₁ h₁ e₁ => ?_
    have k₁ := h.staysIn_of_eq h₁.valid e₁
    have hbind := modify_bindType_does h₁.valid (v := v) (t := t) (e₁.1 ▸ hunbound)
      (by rwa [apply, e₁.1]) (hb.mono h₁.rows)
    refine .lift_bind (Q := fun _ u' => StaysIn K u₁ u' ∧ u'.numeric = ∅) ⟨hbind.1, ?_, ?_⟩
      fun _ u₂ h₂ k₂ => ?_
    · refine ⟨⟨hbind.1.valid, k₁.holds.numeric, k₁.holds.rows, fun w x hw hx => ?_⟩,
        fun hK => Substitution.size_types_bindType (hK v hv) t, fun w hw => ?_, rfl, rfl⟩
      · replace hx := (Substitution.type?_bindType ..).symm.trans hx
        split at hx
        · cases hx
          exact ht
        · exact k₁.holds.bound w x hw hx
      · refine (Substitution.type?_bindType ..).trans (if_neg ?_)
        rintro rfl
        exact hw hv
    · exact k₁.holds.numeric
    refine .get_bind ?_
    rw [k₂.2, SortedMap.get?_empty]
    exact .pure h₂.valid (k₁.trans k₂.1)

theorem ChangesRows.staysIn {α : Type} {m : UnifyM α} (h : ChangesRows m) (hu : u.Holds K)
    (hval : (m u).2.Valid) (hrows : K.Rows (m u).2.substitution.rows) : StaysIn K u (m u).2 := by
  obtain ⟨ht, hn, hp, he⟩ := (h.moves u).eqs
  have htype := (h.moves u).type?
  exact ⟨⟨hval, hn.trans hu.numeric, hrows, fun v t hv hb => hu.bound v t hv (htype v ▸ hb)⟩,
    fun _ => congrArg Array.size ht, fun v _ => htype v, hp, he⟩

theorem solveRows_staysIn (h : u.Holds K) {e f : Row} (he : K.HasRow e) (hf : K.HasRow f)
    (hbe : e.Below u.rowCount) (hbf : f.Below u.rowCount) :
    u.Solves (solveRows e f) (fun _ u' => StaysIn K u u') := by
  obtain ⟨hadv, hrows⟩ := K.rows h.toValid h.rows he hf hbe hbf
  exact ⟨hadv, fun a ha => (solveRows_changesRows e f).staysIn h hadv.valid (hrows a ha)⟩

/-! ## The solver -/

theorem StaysIn.after {α : Type} (k : StaysIn K u u') {m : SolveM α}
    (hm : u'.Solves m (fun _ u'' => StaysIn K u' u'')) :
    u'.Solves m (fun _ u'' => StaysIn K u u'') :=
  hm.imp fun _ _ _ k' => k.trans k'

/-- What is done with the head of a type. -/
theorem Holds.find_bind (h : u.Holds K) {b : Ty} (hb : K.Has b) (hbelow : b.Below u.rowCount)
    {f : Ty → SolveM Unit}
    (hf : ∀ (b' : Ty) (u' : Unifier), u.Advances u' → u'.Holds K → K.Has b' →
      b'.Below u'.rowCount → (∀ v, b' = .var v → u'.substitution.type? v = none) →
      (∀ x, u'.apply x = u.apply x) → u'.Solves (f b') (fun _ u'' => StaysIn K u' u'')) :
    u.Solves (liftM (find b) >>= f) (fun _ u'' => StaysIn K u u'') := by
  have hstay := find_staysIn h hb hbelow
  obtain ⟨-, -, hsame, hhead, hbelow', -⟩ := find_does h.toValid hbelow
  refine .lift_bind (Q := fun b' u' => (StaysIn K u u' ∧ K.Has b') ∧ b'.Below u'.rowCount ∧
    (∀ v, b' = .var v → u'.substitution.type? v = none) ∧ ∀ x, u'.apply x = u.apply x)
    ⟨hstay.1, hstay.2, hbelow', hhead, hsame⟩ fun b' u' hadv hq => ?_
  exact hq.1.1.after (hf b' u' hadv hq.1.1.holds hq.1.2 hq.2.1 hq.2.2.1 hq.2.2.2)

theorem Holds.note_bind (h : u.Holds K) {action : UnifyAction} {left right : Ty} {detail : String}
    {m : SolveM Unit} (hm : ∀ u', u.Advances u' → u'.Holds K →
      u'.Solves m (fun _ u'' => StaysIn K u' u'')) :
    u.Solves (liftM (note action left right detail) >>= fun _ => m)
      (fun _ u'' => StaysIn K u u'') := by
  refine .lift_bind (note_bounds h.toValid ..) fun _ u' hadv he => ?_
  have k := h.staysIn_of_eq hadv.valid he
  exact k.after (hm u' hadv k.holds)

theorem Holds.lift_note (h : u.Holds K) (action : UnifyAction) (left right : Ty)
    (detail : String) :
    u.Solves (liftM (note action left right detail)) (fun _ u' => StaysIn K u u') :=
  .lift ((note_bounds h.toValid ..).imp fun _ _ hadv he => h.staysIn_of_eq hadv.valid he)

/-- Whether what solves equations stays within a stock. -/
def SolvesWithin (K : Stock) (solver : Ty → Ty → SolveM Unit) : Prop :=
  ∀ {u : Unifier} {a b : Ty}, u.Holds K → K.Has a → K.Has b → a.Below u.rowCount →
    b.Below u.rowCount → u.Solves (solver a b) (fun _ u' => StaysIn K u u')

/-- Whether a step of the solver on a type stays within a stock. -/
def StepStays (K : Stock) (again : Ty → Ty → SolveM Unit) (a : Ty) : Prop :=
  ∀ (u : Unifier) (b : Ty), u.Holds K → K.Has a → K.Has b → a.Below u.rowCount → b.Below u.rowCount →
    u.Solves (solveStep again a b) (fun _ u' => StaysIn K u u')

/-- The same for a list of equations. -/
def EachStays (K : Stock) (again : Ty → Ty → SolveM Unit) (as : List Ty) : Prop :=
  ∀ (u : Unifier) (bs : List Ty), u.Holds K → (∀ t ∈ as, K.Has t) → (∀ t ∈ bs, K.Has t) →
    (∀ t ∈ as, t.Below u.rowCount) → (∀ t ∈ bs, t.Below u.rowCount) →
    u.Solves (solveEach again as bs) (fun _ u' => StaysIn K u u')

/-- A type that is no variable is compared with the head of the other one. A failed part is absorbed and
a variable is bound to it. -/
theorem Holds.compare_staysIn (h : u.Holds K) {a b : Ty} (ha : K.Has a) (hb : K.Has b)
    (hba : a.Below u.rowCount) (hbb : b.Below u.rowCount) {f : Ty → SolveM Unit}
    (herror : f .error = absorb a .error) (hvar : ∀ w, f (.var w) = bindVar w a)
    (hf : ∀ (b' : Ty) (u' : Unifier), u.Advances u' → u'.Holds K → K.Has b' → b'.Below u'.rowCount →
      b' ≠ .error → (∀ w, b' ≠ .var w) → u'.Solves (f b') (fun _ u'' => StaysIn K u' u'')) :
    u.Solves (liftM (find b) >>= f) (fun _ u' => StaysIn K u u') := by
  refine h.find_bind hb hbb fun b' u' hadv h' hb' hbb' hhead _ => ?_
  cases b' with
  | error => exact herror ▸ h'.lift_note ..
  | var w => exact hvar w ▸ bindVar_staysIn h' hb' ha (hhead w rfl) (hba.mono hadv.rows)
  | _ => exact hf _ u' hadv h' hb' hbb' (by simp) (by simp)

section

variable {again : Ty → Ty → SolveM Unit}

theorem error_stays : StepStays K again .error := by
  intro u b h _ hb _ hbb
  unfold solveStep
  exact h.find_bind hb hbb fun b' u' _ h' _ _ _ _ => h'.lift_note ..

theorem prim_stays (p : Primitive) : StepStays K again (.prim p) := by
  intro u b h ha hb hba hbb
  unfold solveStep
  refine h.compare_staysIn ha hb hba hbb rfl (fun _ => rfl) fun b' u' _ h' _ _ herror hvar => ?_
  cases b' with
  | error => exact absurd rfl herror
  | var w => exact absurd rfl (hvar w)
  | prim q =>
    dsimp only
    split
    · exact .pure h'.toValid h'.staysIn
    · exact .throw h'.toValid _
  | _ => exact .throw h'.toValid _

theorem string_stays : StepStays K again .string := by
  intro u b h ha hb hba hbb
  unfold solveStep
  refine h.compare_staysIn ha hb hba hbb rfl (fun _ => rfl) fun b' u' _ h' _ _ herror hvar => ?_
  cases b' with
  | error => exact absurd rfl herror
  | var w => exact absurd rfl (hvar w)
  | string => exact .pure h'.toValid h'.staysIn
  | _ => exact .throw h'.toValid _

theorem unit_stays : StepStays K again .unit := by
  intro u b h ha hb hba hbb
  unfold solveStep
  refine h.compare_staysIn ha hb hba hbb rfl (fun _ => rfl) fun b' u' _ h' _ _ herror hvar => ?_
  cases b' with
  | error => exact absurd rfl herror
  | var w => exact absurd rfl (hvar w)
  | unit => exact .pure h'.toValid h'.staysIn
  | _ => exact .throw h'.toValid _

theorem ref_stays (k : BorrowKind) {inner : Ty} (hinner : StepStays K again inner) :
    StepStays K again (.ref k inner) := by
  intro u b h ha hb hba hbb
  unfold solveStep
  refine h.compare_staysIn ha hb hba hbb rfl (fun _ => rfl) fun b' u' hadv h' hb' hbb' herror hvar => ?_
  cases b' with
  | error => exact absurd rfl herror
  | var w => exact absurd rfl (hvar w)
  | ref k' inner' =>
    dsimp only
    split
    · exact hinner u' inner' h' (K.ref ha) (K.ref hb') (hba.mono hadv.rows) hbb'
    · exact .throw h'.toValid _
  | _ => exact .throw h'.toValid _

theorem tuple_stays {items : List Ty} (hitems : EachStays K again items) :
    StepStays K again (.tuple items) := by
  intro u b h ha hb hba hbb
  unfold solveStep
  refine h.compare_staysIn ha hb hba hbb rfl (fun _ => rfl) fun b' u' hadv h' hb' hbb' herror hvar => ?_
  cases b' with
  | error => exact absurd rfl herror
  | var w => exact absurd rfl (hvar w)
  | tuple items' =>
    dsimp only
    split
    · refine h'.note_bind fun u₁ h₁ k₁ => ?_
      exact hitems u₁ items' k₁ (K.tuple ha) (K.tuple hb')
        (fun t ht => (Ty.below_tuple.1 hba t ht).mono (hadv.trans h₁).rows)
        (fun t ht => (Ty.below_tuple.1 hbb' t ht).mono h₁.rows)
    · exact .throw h'.toValid _
  | _ => exact .throw h'.toValid _

theorem named_stays (name : String) {args : List Ty} (hargs : EachStays K again args) :
    StepStays K again (.named name args) := by
  intro u b h ha hb hba hbb
  unfold solveStep
  refine h.compare_staysIn ha hb hba hbb rfl (fun _ => rfl) fun b' u' hadv h' hb' hbb' herror hvar => ?_
  cases b' with
  | error => exact absurd rfl herror
  | var w => exact absurd rfl (hvar w)
  | named name' args' =>
    dsimp only
    split
    · refine h'.note_bind fun u₁ h₁ k₁ => ?_
      exact hargs u₁ args' k₁ (K.named ha) (K.named hb')
        (fun t ht => (Ty.below_named.1 hba t ht).mono (hadv.trans h₁).rows)
        (fun t ht => (Ty.below_named.1 hbb' t ht).mono h₁.rows)
    · exact .throw h'.toValid _
  | _ => exact .throw h'.toValid _

/-- The parts of two functions are made equal one after the other, and their rows last. -/
theorem fn_stays {p r : Ty} (e : Row) (hparam : StepStays K again p) (hresult : StepStays K again r) :
    StepStays K again (.fn p r e) := by
  intro u b h ha hb hba hbb
  unfold solveStep
  refine h.compare_staysIn ha hb hba hbb rfl (fun _ => rfl) fun b' u' hadv h' hb' hbb' herror hvar => ?_
  cases b' with
  | error => exact absurd rfl herror
  | var w => exact absurd rfl (hvar w)
  | fn p' r' e' =>
    obtain ⟨hp, hr, he⟩ := K.fn ha
    obtain ⟨hp', hr', he'⟩ := K.fn hb'
    obtain ⟨hbp, hbr, hbe⟩ := Ty.below_fn.1 (hba.mono hadv.rows)
    obtain ⟨hbp', hbr', hbe'⟩ := Ty.below_fn.1 hbb'
    refine h'.note_bind fun u₁ h₁ k₁ => ?_
    refine .bind (hparam u₁ p' k₁ hp hp' (hbp.mono h₁.rows) (hbp'.mono h₁.rows))
      fun _ u₂ h₂ k₂ => k₂.after ?_
    have hle₂ := (h₁.trans h₂).rows
    refine .bind (hresult u₂ r' k₂.holds hr hr' (hbr.mono hle₂) (hbr'.mono hle₂))
      fun _ u₃ h₃ k₃ => k₃.after ?_
    have hle₃ := hle₂.trans h₃.rows
    exact solveRows_staysIn k₃.holds he he' (hbe.mono hle₃) (hbe'.mono hle₃)
  | _ => exact .throw h'.toValid _

/-- What a variable stands for is looked up before the other side, so its head is still one then. -/
theorem var_stays (hagain : SolvesWithin K again) (v : TyVar) : StepStays K again (.var v) := by
  intro u b h ha hb hba hbb
  unfold solveStep
  refine h.find_bind ha hba fun a' u₁ h₁ k₁ ha' hba' hheada _ => ?_
  refine k₁.find_bind hb (hbb.mono h₁.rows) fun b' u₂ h₂ k₂ hb' hbb' hheadb hsame => ?_
  have hunbound : ∀ w, a' = .var w → u₂.substitution.type? w = none := fun w hw => by
    rw [h₂.valid.acyclic.type?_eq_none_iff]
    exact (hsame (.var w)).trans (Substitution.apply_unbound (hheada w hw))
  split
  · split
    · exact k₂.lift_note ..
    · exact bindVar_staysIn k₂ ha' hb' (hunbound _ rfl) hbb'
  · exact k₂.lift_note ..
  · exact bindVar_staysIn k₂ ha' hb' (hunbound _ rfl) hbb'
  · exact hagain k₂ ha' hb' (hba'.mono h₂.rows) hbb'

mutual

/-- A step of the solver stays within a stock if what goes on from there does. -/
theorem solveStep_staysIn (hagain : SolvesWithin K again) : (a : Ty) → StepStays K again a
  | .error => error_stays
  | .prim p => prim_stays p
  | .string => string_stays
  | .unit => unit_stays
  | .ref k inner => ref_stays k (solveStep_staysIn hagain inner)
  | .tuple items => tuple_stays (solveEach_staysIn hagain items)
  | .named name args => named_stays name (solveEach_staysIn hagain args)
  | .fn p r e => fn_stays e (solveStep_staysIn hagain p) (solveStep_staysIn hagain r)
  | .var v => var_stays hagain v

theorem solveEach_staysIn (hagain : SolvesWithin K again) : (as : List Ty) → EachStays K again as
  | [], u, bs, h, _, _, _, _ => by
    unfold solveEach
    exact .pure h.toValid h.staysIn
  | a :: as, u, [], h, _, _, _, _ => by
    unfold solveEach
    exact .pure h.toValid h.staysIn
  | a :: as, u, b :: bs, h, has, hbs, hba, hbb => by
    unfold solveEach
    simp only [List.mem_cons, forall_eq_or_imp] at has hbs hba hbb
    refine .bind (solveStep_staysIn hagain a u b h has.1 hbs.1 hba.1 hbb.1)
      fun _ u₁ h₁ k₁ => k₁.after ?_
    exact solveEach_staysIn hagain as u₁ bs k₁.holds has.2 hbs.2
      (fun t ht => (hba.2 t ht).mono h₁.rows) (fun t ht => (hbb.2 t ht).mono h₁.rows)

end

end

theorem solveWithin_staysIn (n : Nat) : SolvesWithin K (solveWithin n) := by
  induction n with
  | zero => exact fun h _ _ _ _ => .throw h.toValid _
  | succ n ih => exact fun h ha hb hba hbb => solveStep_staysIn ih _ _ _ h ha hb hba hbb

/-- Solving an equation between types of a stock stays within it. -/
theorem solve_staysIn (h : u.Holds K) {a b : Ty} (ha : K.Has a) (hb : K.Has b)
    (hba : a.Below u.rowCount) (hbb : b.Below u.rowCount) :
    u.Solves (solve a b) (fun _ u' => StaysIn K u u') :=
  .get_bind (solveWithin_staysIn _ h ha hb hba hbb)

end Unifier
end RowCheck
