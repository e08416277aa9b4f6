import RowCheck.Proofs.Match.FirstMatch
import RowCheck.Proofs.Match.Inhabited

/-!
Compiling patterns ends, whether or not the patterns have the types of their columns. Applying an active
pattern widens every row, and looking into a constructor widens those that are wild there; but the first
moves a test that weighs less than the application, and what the second puts in weighs nothing, while the
row that asked for it loses a test or is dropped. The rows stay as long as there are columns, so a cell is
never looked for where there is none.
-/
namespace RowCheck
namespace Registries

/-- Whether a variant has as many fields as it was declared with, if it was declared. -/
def Registered (r : Registries) : Constructor → Prop
  | .variant type name n => ∀ d v, r.types.get? type = some d → d.variant? name = some v →
    v.fields.length = n
  | .tuple _ | .literal _ => True

/-- Whether a switch on values of a type can list a constructor. -/
def Lists (r : Registries) (t : Ty) (c : Constructor) : Prop :=
  ∀ all, r.signature? t = some all → c ∈ all

variable {r : Registries} {c : Constructor}

/-- There is a column for each argument, of whatever type the value is. -/
theorem Registered.length_fieldTypes (h : r.Registered c) (t : Ty) :
    (r.fieldTypes t c).length = c.arity := by
  cases c with
  | literal key => rfl
  | tuple n =>
    simp only [fieldTypes, Constructor.arity]
    split
    · split
      · assumption
      · exact List.length_replicate
    · exact List.length_replicate
  | variant type name n =>
    simp only [fieldTypes, Constructor.arity]
    split
    · exact List.length_replicate
    · rename_i d hd
      split
      · exact List.length_replicate
      · rename_i v hv
        have hfields : ∀ args, (d.fieldsAt v args).length = n := fun args => by
          rw [SumType.fieldsAt, List.length_map, h d v hd hv]
        split
        · split <;> exact hfields _
        · exact hfields _

end Registries

/-! ## Cells that have their arguments -/

namespace Cell

/-- Whether the tests in a cell have as many arguments as their constructors have fields. The result of an
active pattern needs this only where its type lists a variant with that many fields. -/
inductive Sized (r : Registries) : Cell → Prop
  | wild (name : Option String) : Sized r (.wild name)
  | test {c : Constructor} {args : List Cell} : args.length = c.arity → r.Registered c →
      (∀ a ∈ args, Sized r a) → Sized r (.test c args)
  | active {pattern case : String} {args : List Cell} :
      (r.Lists (.named pattern []) (.variant pattern case args.length) →
        r.Registered (.variant pattern case args.length)) →
      (∀ a ∈ args, Sized r a) → Sized r (.active pattern case args)

/-- Whether a cell has its arguments as far as a switch on its column looks at them. -/
def Suits (r : Registries) : Cell → Column → Prop
  | .test c args, k =>
    args.length = c.arity ∧ (r.Lists k.ty c → r.Registered c) ∧ ∀ a ∈ args, a.Sized r
  | .wild name, _ => Sized r (.wild name)
  | .active pattern case args, _ => Sized r (.active pattern case args)

theorem Sized.suits {r : Registries} {c : Cell} (h : c.Sized r) (k : Column) : c.Suits r k := by
  cases h with
  | wild name => exact .wild name
  | test hlen hreg hargs => exact ⟨hlen, fun _ => hreg, hargs⟩
  | active hreg hargs => exact .active hreg hargs

end Cell

namespace Matrix

/-- Whether every row has a cell for each column and no more. -/
def Rectangular (m : Matrix) : Prop := ∀ row ∈ m.rows, row.cells.length = m.columns.length

def Sized (r : Registries) (m : Matrix) : Prop := ∀ row ∈ m.rows, ∀ c ∈ row.cells, c.Sized r

section

variable {r : Registries} {m n : Matrix} {i : Nat} {column : Column} {c : Constructor}

theorem Each.rectangular {R : Cell → Column → Prop} (h : m.Each R) : m.Rectangular :=
  fun row hrow => (h row hrow).length_eq

theorem Rectangular.suits (h : m.Rectangular) (hs : m.Sized r) : m.Each (Cell.Suits r) :=
  fun row hrow => forall₂_of_length_eq (h row hrow) fun c hc k _ => (hs row hrow c hc).suits k

/-! ## Steps keep the rows as long as the columns -/

theorem suits_expandActive (h : m.Each (Cell.Suits r)) (hk : m.columns[i]? = some column)
    (pattern : String) : (m.expandActive i pattern).Each (Cell.Suits r) := by
  refine h.expandActive hk (fun _ _ _ => id) fun c hc => ?_
  cases c with
  | wild name => exact .cons (.wild name) (.cons (.wild none) .nil)
  | test d args => exact .cons hc (.cons (.wild none) .nil)
  | active p case args =>
    simp only [Cell.applied]
    split
    · rename_i hp
      subst hp
      cases hc with
      | active hreg hargs => exact .cons (.wild none) (.cons ⟨rfl, hreg, hargs⟩ .nil)
    · exact .cons hc (.cons (.wild none) .nil)

theorem suits_within (h : m.Each (Cell.Suits r)) (hk : m.columns[i]? = some column)
    (hc : (r.Lists column.ty c → r.Registered c) → r.Registered c) :
    (m.within r i c).Each (Cell.Suits r) := by
  refine h.within hk (fun _ _ _ => id) (fun _ _ => .wild none) fun args htest => ?_
  obtain ⟨hlen, hreg, hargs⟩ := htest
  refine forall₂_of_length_eq ?_ fun a ha k _ => (hargs a ha).suits k
  rw [length_fieldColumns, (hc hreg).length_fieldTypes, hlen]

theorem lists_of_listed {t : Ty} {heads listed : List Constructor} {complete : Bool}
    (h : switchCases r t heads = (listed, complete)) (hc : c ∈ listed) : r.Lists t c := by
  intro all ha
  simp only [switchCases, ha, Prod.mk.injEq] at h
  obtain ⟨rfl, -⟩ := h
  exact (List.mem_filter.1 hc).1

/-- What a step leaves to compile has its arguments again. -/
theorem suits_of_mem_step (h : m.Each (Cell.Suits r)) (hn : n ∈ (m.step r).rest) :
    n.Each (Cell.Suits r) := by
  have hst := m.steps r
  generalize m.step r = st at hn hst
  cases hst with
  | fail _ | leaf _ _ _ => cases hn
  | guard hm _ _ =>
    obtain rfl := List.mem_singleton.1 hn
    exact h.tail hm
  | @active row i pattern hrow hi _ =>
    obtain rfl := List.mem_singleton.1 hn
    obtain ⟨column, hk⟩ := h.exists_column hrow hi
    exact suits_expandActive h hk pattern
  | @tuple row i k args hrow hc _ _ =>
    obtain rfl := List.mem_singleton.1 hn
    obtain ⟨column, hk⟩ := h.exists_column hrow (List.getElem?_eq_some_iff.1 hc).1
    exact suits_within h hk fun _ => trivial
  | @switch row i d args listed complete hrow hc _ hsw =>
    obtain ⟨column, hk⟩ := h.exists_column hrow (List.getElem?_eq_some_iff.1 hc).1
    rw [columnAt_eq hk] at hsw
    rcases List.mem_append.1 hn with hn | hn
    · simp only [List.map_map, List.mem_map, Function.comp_apply] at hn
      obtain ⟨c, hlisted, rfl⟩ := hn
      exact suits_within h hk fun hreg => hreg (lists_of_listed hsw hlisted)
    · cases complete with
      | true => cases hn
      | false =>
        obtain rfl := List.mem_singleton.1 hn
        exact h.fallback fun _ _ _ => id

theorem Arises.suits (h : Arises r m n) (hm : m.Each (Cell.Suits r)) : n.Each (Cell.Suits r) := by
  induction h with
  | self m => exact hm.bindNames fun _ _ _ => .wild none
  | step hn _ ih => exact ih (suits_of_mem_step (hm.bindNames fun _ _ _ => .wild none) hn)

end

/-! ## Compiling with a bound -/

/-- The tree of a matrix, if at most `n` matrices are compiled one within the other. -/
def compileWithin (r : Registries) : Nat → Matrix → Option DecisionTree
  | 0, _ => none
  | n + 1, m =>
    match m.bindNames.step r with
    | .fail => some .fail
    | .leaf arm bindings => some (.leaf arm bindings)
    | .guard arm bindings rest => (compileWithin r n rest).map (.guard arm bindings)
    | .goOn rest => compileWithin r n rest
    | .switch o cases fallback => do
      let trees ← cases.mapM (fun c => (compileWithin r n c.2).map (fun t => (c.1, t)))
      match fallback with
      | none => some (.switch o trees none)
      | some rest => (compileWithin r n rest).map (fun t => .switch o trees (some t))

/-- The cases of a switch have trees if each of their matrices has. -/
theorem compileWithin_cases {r : Registries} {n : Nat} {cases : List (Constructor × Matrix)}
    (h : ∀ c ∈ cases, c.2.compileWithin r n = some (c.2.compile r)) :
    cases.mapM (fun c => (c.2.compileWithin r n).map (fun t => (c.1, t))) =
      some (cases.map (fun c => (c.1, c.2.compile r))) := by
  induction cases with
  | nil => rfl
  | cons c cases ih =>
    rw [List.forall_mem_cons] at h
    rw [List.mapM_cons, h.1, ih h.2]
    rfl

/-- The weight of a matrix is enough of a bound. -/
theorem compileWithin_eq (r : Registries) (n : Nat) {m : Matrix} (h : m.weight < n) :
    m.compileWithin r n = some (m.compile r) := by
  induction n generalizing m with
  | zero => exact absurd h (Nat.not_lt_zero _)
  | succ n ih =>
    have hrest : ∀ k ∈ (m.bindNames.step r).rest, k.compileWithin r n = some (k.compile r) := by
      intro k hk
      have hlt := weight_of_mem_step hk
      rw [m.weight_bindNames] at hlt
      exact ih (by omega)
    rw [compileWithin, compile_eq]
    generalize m.bindNames.step r = st at hrest
    cases st with
    | fail | leaf arm bindings => rfl
    | guard arm bindings rest =>
      have hrest := hrest rest (List.mem_singleton_self _)
      simp only [hrest, Option.map_some]
    | goOn rest => exact hrest rest (List.mem_singleton_self _)
    | switch o cases fallback =>
      have hcases := compileWithin_cases fun c hc =>
        hrest c.2 (List.mem_append_left _ (List.mem_map_of_mem hc))
      simp only [hcases, Option.bind_eq_bind, Option.bind_some]
      cases fallback with
      | none => rfl
      | some rest =>
        have hrest := hrest rest (List.mem_append_right _ (List.mem_singleton_self _))
        simp only [hrest, Option.map_some]

/-- Compiling a matrix whose rows are as long as there are columns, and whose tests have their arguments,
comes to an end: every matrix that compiling comes to is of this kind again, each of those that are left
to compile of it weighs less, and no more are compiled one within the other than the first one weighs. The
types of the columns do not matter. -/
theorem compile_terminates {r : Registries} {m : Matrix} (hm : m.Rectangular) (hs : m.Sized r) :
    (∀ n, Arises r m n → n.Rectangular ∧ ∀ k ∈ (n.step r).rest, k.weight < n.weight) ∧
    m.compileWithin r (m.weight + 1) = some (m.compile r) :=
  ⟨fun _ hn => ⟨(hn.suits (hm.suits hs)).rectangular, fun _ hk => weight_of_mem_step hk⟩,
    compileWithin_eq r _ (Nat.lt_succ_self _)⟩

/-- Patterns of many kinds on a value whose check has failed: `1`, `(_, Even)`, `(_, _, _)`,
`Some (Positive k)`, `Positive k` and `Even`, where `Even` is no pattern of the module. -/
def mixed : Matrix where
  columns := [⟨.root, .error⟩]
  rows := [⟨[.test (.literal (.int 1)) []], 0, true, []⟩,
    ⟨[.test (.tuple 2) [.wild none, .active "Even" "Even" []]], 1, false, []⟩,
    ⟨[.test (.tuple 3) [.wild none, .wild none, .wild none]], 2, true, []⟩,
    ⟨[.test (.variant "Option" "Some" 1) [.active "Sign" "Positive" [.wild (some "k")]]], 3, true, []⟩,
    ⟨[.active "Sign" "Positive" [.wild (some "k")]], 4, false, []⟩,
    ⟨[.active "Even" "Even" []], 5, true, []⟩]

/-- Compiling them takes no more matrices one within the other than they weigh. -/
theorem mixed_terminates : mixed.weight = 18 ∧ (∀ n, Arises positives mixed n → n.Rectangular) ∧
    mixed.compileWithin positives 19 = some (mixed.compile positives) := by
  have hsome : positives.Registered (.variant "Option" "Some" 1) := by
    rintro d v ⟨⟩ ⟨⟩
    rfl
  have hpositive : positives.Registered (.variant "Sign" "Positive" 1) := by
    rintro d v ⟨⟩ ⟨⟩
    rfl
  have heven : positives.Registered (.variant "Even" "Even" 0) := nofun
  have hsign : (Cell.active "Sign" "Positive" [.wild (some "k")]).Sized positives :=
    .active (fun _ => hpositive) (by simpa using .wild _)
  have hrect : mixed.Rectangular := by
    unfold Rectangular
    decide
  have hsized : mixed.Sized positives := by
    simp only [Sized, mixed, List.forall_mem_cons, List.not_mem_nil, false_imp_iff, implies_true, and_true]
    refine ⟨.test rfl trivial nofun, .test rfl trivial ?_, .test rfl trivial ?_, .test rfl hsome ?_,
      hsign, .active (fun _ => heven) nofun⟩
    · simpa using ⟨Cell.Sized.wild none, .active (fun _ => heven) nofun⟩
    · simpa using Cell.Sized.wild none
    · simpa using hsign
  have hweight : mixed.weight = 18 := by decide +kernel
  obtain ⟨hsteps, hcompile⟩ := compile_terminates hrect hsized
  rw [hweight] at hcompile
  exact ⟨hweight, fun n hn => (hsteps n hn).1, hcompile⟩

end Matrix

end RowCheck
