import Mathlib.Data.Int.Interval
import Mathlib.Data.Set.Finite.Basic
import RowCheck.Proofs.Match.Steps
import RowCheck.Proofs.Types.Ty

/-!
Having values. Where every type has one, subjects can be built with any constructor from any fields,
the result of an active pattern can be chosen freely, and a column that does not list all
constructors of its type leaves a value out.
-/
namespace RowCheck

/-! ## Building subjects -/

namespace Subject

/-- The subject built with a constructor from given fields. On the value itself the active patterns
give what `results` says. -/
def assemble (c : Constructor) (fields : List Subject) (results : String → Value) : Subject where
  value := c.build (fields.map Subject.value)
  results
    | .field i :: path, p => ((fields[i]?).map (fun f => f.results path p)).getD (results p)
    | _, p => results p

/-- A subject on which an active pattern gives another result. -/
def withResult (s : Subject) (pattern : String) (result : Subject) : Subject where
  value := s.value
  results
    | [], p => if p = pattern then result.value else s.results [] p
    | .active q :: path, p =>
      if q = pattern then result.results path p else s.results (.active q :: path) p
    | path, p => s.results path p

@[simp] theorem applied_withResult (s u : Subject) (pattern : String) :
    (s.withResult pattern u).applied pattern = u := by
  simp [withResult, applied]

theorem sameBut_withResult (s u : Subject) (pattern : String) :
    (s.withResult pattern u).SameBut pattern s :=
  ⟨rfl, rfl, fun p hp => by simp [withResult, applied, hp]⟩

theorem Fits.withResult {r : Registries} {s u : Subject} {t : Ty} {pattern : String}
    (hs : s.Fits r t) (hu : u.Fits r (.named pattern [])) :
    (s.withResult pattern u).Fits r t := by
  refine ⟨hs.value, fun path p hp => ?_⟩
  simp only [Subject.withResult]
  split
  · split
    · rename_i h
      exact h ▸ hu.value
    · exact hs.results _ p hp
  · split
    · exact hu.results _ p hp
    · exact hs.results _ p hp
  · exact hs.results _ p hp

end Subject

/-- Whether every type has a value. -/
def Registries.Populated (r : Registries) : Prop := ∀ t, ∃ v, r.HasType v t

section

variable {r : Registries} {t : Ty} {c : Constructor} {types : List Ty}

theorem exists_each {α β : Type} {R : α → β → Prop} {l : List α} (h : ∀ a ∈ l, ∃ b, R a b) :
    ∃ bs, List.Forall₂ R l bs := by
  induction l with
  | nil => exact ⟨[], .nil⟩
  | cons a l ih =>
    simp only [List.mem_cons, forall_eq_or_imp] at h
    obtain ⟨b, hb⟩ := h.1
    obtain ⟨bs, hbs⟩ := ih h.2
    exact ⟨b :: bs, .cons hb hbs⟩

theorem Registries.Populated.exists_result (h : r.Populated) :
    ∃ results : String → Value, ∀ p, r.HasType (results p) (.named p []) :=
  ⟨fun p => (h (.named p [])).choose, fun p => (h (.named p [])).choose_spec⟩

theorem Registries.Populated.exists_subject (h : r.Populated) {v : Value} (hv : r.HasType v t) :
    ∃ s : Subject, s.value = v ∧ s.Fits r t := by
  obtain ⟨results, hres⟩ := h.exists_result
  exact ⟨⟨v, fun _ => results⟩, rfl, hv, fun _ p _ => hres p⟩

theorem Registries.Populated.exists_subjects (h : r.Populated) (columns : List Column) :
    ∃ ss, List.Forall₂ (fun column s => Subject.Fits r s (Column.ty column)) columns ss := by
  refine exists_each fun column _ => ?_
  obtain ⟨v, hv⟩ := h column.ty
  obtain ⟨s, -, hs⟩ := h.exists_subject hv
  exact ⟨s, hs⟩

/-- Subjects of the right types are the fields of a subject. -/
theorem Registries.Populated.exists_assembled (h : r.Populated) (hb : r.Builds t c types)
    {ss : List Subject} (hss : List.Forall₂ (fun s u => Subject.Fits r s u) ss types) :
    ∃ s : Subject, s.Fits r t ∧ s.value.constructor? = some c ∧ s.fields = ss := by
  obtain ⟨results, hres⟩ := h.exists_result
  have hlen : (ss.map Subject.value).length = types.length := by simpa using hss.length_eq
  refine ⟨.assemble c ss results, ⟨.built hb ?_, fun path p hp => ?_⟩,
    hb.constructor?_build hlen, ?_⟩
  · exact (List.forall₂_map_left_iff).2 (hss.imp fun _ _ hs => hs.value)
  · simp only [Subject.assemble]
    split
    · rename_i i path
      cases hi : ss[i]? with
      | none => exact hres p
      | some s =>
        obtain ⟨hlt, rfl⟩ := List.getElem?_eq_some_iff.1 hi
        have hs := List.Forall₂.get hss hlt (hss.length_eq ▸ hlt)
        exact hs.results path p hp
    · exact hres _
  · refine List.ext_getElem? fun i => ?_
    rw [Subject.getElem?_fields]
    simp only [Subject.assemble, hb.parts_build hlen, List.getElem?_map, Option.map_map]
    cases hi : ss[i]? with
    | none => rfl
    | some s => rfl

end

/-- A type has values if its parts have, and every definition has a variant without fields. -/
theorem Registries.populated_of_constants {r : Registries} (hr : r.types.WellFormed)
    (h : ∀ name d, r.types.get? name = some d → ∃ v ∈ d.variants, v.fields = []) :
    r.Populated := by
  have key : ∀ {t : Ty} {key : LiteralKey}, key.Fits t → ∃ v, r.HasType v t := fun hk =>
    ⟨_, .built (.literal hk) .nil⟩
  intro t
  induction t using Ty.induction with
  | prim p =>
    cases hp : p.range? with
    | some range =>
      obtain ⟨low, high⟩ := range
      refine key (.int hp (le_refl low) ?_)
      cases p <;> simp only [Primitive.range?, Option.some.injEq, Prod.mk.injEq, reduceCtorEq] at hp
        <;> omega
    | none =>
      cases p with
      | bool => exact key (.bool true)
      | f32 => exact key (.f32 "")
      | f64 => exact key (.f64 "")
      | _ => cases hp
  | string => exact key (.string "")
  | unit => exact key .unit
  | fn _ _ _ _ _ | ref _ _ _ => exact ⟨.sealed, .sealed rfl⟩
  | tuple items ih =>
    obtain ⟨vs, hvs⟩ := exists_each ih
    exact ⟨_, .built (.tuple items) hvs.flip⟩
  | named name args ih =>
    cases hd : r.types.get? name with
    | none => exact ⟨.sealed, .sealed (by simp [isSealed, hd])⟩
    | some d =>
      obtain ⟨v, hv, hnil⟩ := h name d hd
      have hc : Constructor.variant d.name v.name v.fields.length ∈
          d.variants.map (fun v => Constructor.variant d.name v.name v.fields.length) :=
        List.mem_map_of_mem hv
      obtain ⟨types, hb⟩ := r.exists_builds_of_mem_signature (t := .named name args) hr
        (by simp only [signature?, hd, Option.map_some]) hc
      have hlen := hb.arity_eq
      rw [Constructor.arity, hnil] at hlen
      obtain rfl := List.length_eq_zero_iff.1 hlen.symm
      exact ⟨_, .built hb .nil⟩
  | var v => exact ⟨.sealed, .var .sealed v⟩
  | error => exact ⟨.sealed, .error .sealed⟩

/-! ## Columns that leave a value out -/

namespace Matrix

/-- The matrices that compiling looks into, with their names bound. -/
inductive Arises (r : Registries) : Matrix → Matrix → Prop
  | self (m : Matrix) : Arises r m m.bindNames
  | step {m n k : Matrix} : n ∈ (m.bindNames.step r).rest → Arises r n k → Arises r m k

/-- Whether no column of integers lists all values of its type. -/
def IntegersOpen (m : Matrix) : Prop :=
  ∀ i column p low high, m.columns[i]? = some column → column.ty = .prim p →
    p.range? = some (low, high) →
    ∃ n, low ≤ n ∧ n ≤ high ∧ Constructor.literal (.int n) ∉ m.heads i

end Matrix

theorem length_foldl_le {α β : Type} {f : List β → α → List β}
    (h : ∀ seen a, (f seen a).length ≤ seen.length + 1) (l : List α) (seen : List β) :
    (l.foldl f seen).length ≤ seen.length + l.length := by
  induction l generalizing seen with
  | nil => exact Nat.le_refl _
  | cons a l ih =>
    have := ih (f seen a)
    have := h seen a
    simp only [List.foldl_cons, List.length_cons]
    omega

theorem Matrix.length_heads_le (m : Matrix) (i : Nat) : (m.heads i).length ≤ m.rows.length := by
  unfold heads
  refine (length_foldl_le (fun seen row => ?_) m.rows []).trans (by simp)
  split
  · split <;> simp
  · exact Nat.le_succ _

/-- Compiling makes no rows. -/
theorem Matrix.length_rows_le_of_mem_step {r : Registries} {m n : Matrix}
    (h : n ∈ (m.step r).rest) : n.rows.length ≤ m.rows.length := by
  have hst := m.steps r
  generalize m.step r = st at h hst
  cases hst with
  | fail _ | leaf _ _ _ => cases h
  | guard hm _ _ =>
    obtain rfl := List.mem_singleton.1 h
    simp [hm]
  | active _ _ _ =>
    obtain rfl := List.mem_singleton.1 h
    simp [expandActive]
  | tuple _ _ _ _ =>
    obtain rfl := List.mem_singleton.1 h
    exact List.length_filterMap_le _ _
  | @switch row i d args listed complete _ _ _ _ =>
    rcases List.mem_append.1 h with h | h
    · simp only [List.map_map, List.mem_map, Function.comp_apply] at h
      obtain ⟨c, -, rfl⟩ := h
      exact List.length_filterMap_le _ _
    · cases complete with
      | true => cases h
      | false =>
        obtain rfl := List.mem_singleton.1 h
        exact List.length_filterMap_le _ _

theorem Matrix.Arises.length_rows_le {r : Registries} {m n : Matrix} (h : Arises r m n) :
    n.rows.length ≤ m.rows.length := by
  induction h with
  | self m => simp [bindNames]
  | step hn _ ih => exact ih.trans ((length_rows_le_of_mem_step hn).trans (by simp [bindNames]))

/-- A list shorter than a range leaves an integer of the range out. -/
theorem exists_unlisted_int {low high : Int} {l : List Constructor}
    (h : (l.length : Int) ≤ high - low) :
    ∃ n, low ≤ n ∧ n ≤ high ∧ Constructor.literal (.int n) ∉ l := by
  have hinj : Function.Injective (fun n => Constructor.literal (.int n)) := fun m n h => by
    simpa using h
  have hcard : l.toFinset.card <
      ((Finset.Icc low high).image (fun n => Constructor.literal (.int n))).card := by
    rw [Finset.card_image_of_injective _ hinj, Int.card_Icc]
    have := List.toFinset_card_le l
    omega
  obtain ⟨c, hc, hn⟩ := Finset.exists_mem_notMem_of_card_lt_card hcard
  obtain ⟨n, hmem, rfl⟩ := Finset.mem_image.1 hc
  obtain ⟨hlow, hhigh⟩ := Finset.mem_Icc.1 hmem
  exact ⟨n, hlow, hhigh, by simpa using hn⟩

/-- Fewer rows than the smallest integer type has values do not list all of them. -/
theorem Matrix.Arises.integersOpen {r : Registries} {m n : Matrix} (h : Arises r m n)
    (hm : m.rows.length < 2 ^ 8) : n.IntegersOpen := by
  intro i column p low high _ _ hrange
  refine exists_unlisted_int ?_
  have hheads := n.length_heads_le i
  have hrows := h.length_rows_le
  have hwide : 2 ^ 8 - 1 ≤ high - low := by
    cases p <;> simp only [Primitive.range?, Option.some.injEq, Prod.mk.injEq, reduceCtorEq]
      at hrange <;> omega
  omega

theorem exists_fresh_text (l : List Constructor) (f : String → LiteralKey)
    (hf : Function.Injective f) : ∃ text, Constructor.literal (f text) ∉ l := by
  have hinj : Function.Injective (fun n => Constructor.literal (f (String.ofList
      (List.replicate n 'a')))) := by
    intro m n h
    have h := congrArg String.toList (hf (Constructor.literal.inj h))
    simpa using congrArg List.length h
  obtain ⟨_, ⟨n, rfl⟩, hn⟩ := (Set.infinite_range_of_injective hinj).exists_notMem_finset l.toFinset
  exact ⟨_, by simpa using hn⟩

/-- A value of a column's type that is built with none of the constructors tested there, where a
switch needs a fallback. -/
theorem exists_unlisted {r : Registries} (hr : r.types.WellFormed) (hp : r.Populated) {t : Ty}
    {d : Constructor} {types : List Ty} (ht : r.Builds t d types) {heads listed : List Constructor}
    (hsw : Matrix.switchCases r t heads = (listed, false))
    (hint : ∀ p low high, t = .prim p → p.range? = some (low, high) →
      ∃ n, low ≤ n ∧ n ≤ high ∧ Constructor.literal (.int n) ∉ heads) :
    ∃ v, r.HasType v t ∧ ∀ c ∈ heads, v.constructor? ≠ some c := by
  have hlit : ∀ key : LiteralKey, key.Fits t → Constructor.literal key ∉ heads →
      ∃ v, r.HasType v t ∧ ∀ c ∈ heads, v.constructor? ≠ some c := by
    intro key hk hn
    refine ⟨.literal key, .built (.literal hk) .nil, fun c hc e => ?_⟩
    cases e
    exact hn hc
  cases ha : r.signature? t with
  | some all =>
    have hcomplete : ¬ ∃ all, r.signature? t = some all ∧ ∀ c ∈ all, c ∈ listed := fun h => by
      simpa using (Matrix.complete_iff hsw).2 h
    obtain ⟨c, hc, hn⟩ : ∃ c ∈ all, c ∉ listed := by
      by_contra h
      push Not at h
      exact hcomplete ⟨all, ha, h⟩
    obtain ⟨us, hb⟩ := r.exists_builds_of_mem_signature hr ha hc
    obtain ⟨ss, hss⟩ := hp.exists_subjects (us.map (fun u => ⟨.root, u⟩))
    obtain ⟨s, hs, hv, -⟩ := hp.exists_assembled hb (List.forall₂_map_left_iff.1 hss).flip
    refine ⟨s.value, hs.value, fun c' hc' e => ?_⟩
    rw [hv] at e
    cases e
    exact hn (Matrix.mem_listed hr.named hsw hb hc')
  | none =>
    cases ht with
    | literal hk =>
      cases hk with
      | unit => simp [Registries.signature?] at ha
      | bool b => simp [Registries.signature?] at ha
      | int hrange _ _ =>
        obtain ⟨n, hlow, hhigh, hn⟩ := hint _ _ _ rfl hrange
        exact hlit _ (.int hrange hlow hhigh) hn
      | f32 _ =>
        obtain ⟨text, hn⟩ := exists_fresh_text heads .float (fun a b h => by simpa using h)
        exact hlit _ (.f32 text) hn
      | f64 _ =>
        obtain ⟨text, hn⟩ := exists_fresh_text heads .float (fun a b h => by simpa using h)
        exact hlit _ (.f64 text) hn
      | string _ =>
        obtain ⟨text, hn⟩ := exists_fresh_text heads .string (fun a b h => by simpa using h)
        exact hlit _ (.string text) hn
    | tuple items => simp [Registries.signature?] at ha
    | variant args hd hv => simp [Registries.signature?, hd] at ha

end RowCheck
