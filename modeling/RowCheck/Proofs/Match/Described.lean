import Mathlib.Data.List.Nodup
import RowCheck.Match.Uncovered
import RowCheck.Proofs.Match.Steps
import RowCheck.Proofs.Types.Ty

/-!
What a witness stands for, and what it tells of the way through a tree that it was read off. A witness
describes the values that are had from it by putting any value of the right type for each wildcard.
If every constructor that a way fixes belongs to the type at its occurrence, the witness is well-typed,
and each value it describes is built with those constructors at those occurrences.
-/
namespace RowCheck

/-! ## Witnesses as sets of values -/

/-- The witness for values built with a constructor, given witnesses for the parts. -/
def Constructor.witness : Constructor → List Witness → Witness
  | variant _ name _, args => .variant name args
  | tuple _, items => .tuple items
  | literal key, _ => .literal key

/-- Whether a witness is well-typed: constructors belong to the type and have as many arguments as they
are registered with, integers lie in the range of their type. -/
inductive Witness.Fits (r : Registries) : Witness → Ty → Prop
  | wild (t : Ty) : Fits r .wild t
  | built {t : Ty} {c : Constructor} {types : List Ty} {args : List Witness} :
      r.Builds t c types → List.Forall₂ (Fits r) args types → Fits r (c.witness args) t

/-- The values that a witness describes at a type: those built as it is, with any value of the type of
its place for each wildcard. -/
inductive Registries.Describes (r : Registries) : Witness → Ty → Value → Prop
  | wild {t : Ty} {v : Value} : r.HasType v t → Describes r .wild t v
  | built {t : Ty} {c : Constructor} {types : List Ty} {args : List Witness} {parts : List Value} :
      r.Builds t c types → args.length = types.length → parts.length = types.length →
      (∀ (i : Nat) w u v, args[i]? = some w → types[i]? = some u → parts[i]? = some v →
        Describes r w u v) →
      Describes r (c.witness args) t (c.build parts)

namespace Registries

variable {r : Registries} {t : Ty} {c d : Constructor} {types types' : List Ty}

theorem Describes.hasType {w : Witness} {v : Value} (h : r.Describes w t v) : r.HasType v t := by
  induction h with
  | wild h => exact h
  | @built t c types args parts hb hargs hparts _ ih =>
    refine .built hb (List.forall₂_iff_get.2 ⟨hparts, fun i h₁ h₂ => ?_⟩)
    have h₀ : i < args.length := by omega
    exact ih i args[i] types[i] parts[i] (List.getElem?_eq_getElem h₀) (List.getElem?_eq_getElem h₂)
      (List.getElem?_eq_getElem h₁)

/-- A witness tells the constructor, given the type. -/
theorem Builds.eq_of_witness (h : r.Builds t c types) (h' : r.Builds t d types')
    {args args' : List Witness} (hargs : args.length = types.length)
    (hargs' : args'.length = types'.length) (e : c.witness args = d.witness args') :
    c = d ∧ types = types' ∧ args = args' := by
  cases h with
  | literal _ =>
    cases h' with
    | literal _ =>
      obtain rfl := Witness.literal.inj e
      have hnil := List.length_eq_zero_iff.1 hargs
      exact ⟨rfl, rfl, hnil.trans (List.length_eq_zero_iff.1 hargs').symm⟩
    | tuple _ | variant _ _ _ => cases e
  | tuple items =>
    cases h' with
    | tuple _ => exact ⟨rfl, rfl, Witness.tuple.inj e⟩
    | literal _ => cases e
  | variant args hd hv =>
    cases h' with
    | variant _ hd' hv' =>
      obtain ⟨rfl, hargs⟩ := Witness.variant.inj e
      obtain rfl := Option.some.inj (hd.symm.trans hd')
      obtain rfl := Option.some.inj (hv.symm.trans hv')
      exact ⟨rfl, rfl, hargs⟩
    | literal _ => cases e

/-- What a witness that names a constructor describes is built with it, from parts that the witnesses
of the parts describe. -/
theorem Builds.exists_described (hb : r.Builds t c types) {args : List Witness}
    (hargs : args.length = types.length) {v : Value} (h : r.Describes (c.witness args) t v) :
    v.constructor? = some c ∧ v.parts.length = types.length ∧
      ∀ (i : Nat) w u p, args[i]? = some w → types[i]? = some u → v.parts[i]? = some p →
        r.Describes w u p := by
  generalize hw : c.witness args = w at h
  cases h with
  | wild _ => cases c <;> cases hw
  | @built _ d types' args' parts hb' hargs' hparts h =>
    obtain ⟨rfl, rfl, rfl⟩ := hb.eq_of_witness hb' hargs hargs' hw
    rw [hb.constructor?_build hparts, hb.parts_build hparts]
    exact ⟨rfl, hparts, h⟩

end Registries

/-! ## Occurrences within others -/

namespace Occurrence

/-- Whether the second occurrence lies in the first one, or is it. -/
def holds (o : Occurrence) : Occurrence → Bool
  | root => decide (o = root)
  | field parent index => decide (o = field parent index) || o.holds parent
  | active parent pattern => decide (o = active parent pattern) || o.holds parent

@[simp] theorem holds_self (o : Occurrence) : o.holds o = true := by
  cases o <;> simp [holds]

theorem holds_field {o parent : Occurrence} {index : Nat} :
    o.holds (field parent index) = true ↔ o = field parent index ∨ o.holds parent = true := by
  simp [holds]

/-- What lies in a field lies in the value it is a field of. -/
theorem holds_of_field {o x : Occurrence} {index : Nat} (h : (field o index).holds x = true) :
    o.holds x = true := by
  induction x with
  | root => simp [holds] at h
  | field parent i ih =>
    rw [holds_field] at h ⊢
    rcases h with h | h
    · cases h
      exact .inr (holds_self _)
    · exact .inr (ih h)
  | active parent pattern ih =>
    simp only [holds, Bool.or_eq_true, decide_eq_true_eq, reduceCtorEq, false_or] at h ⊢
    exact .inr (ih h)

theorem sizeOf_le_of_holds {o x : Occurrence} (h : o.holds x = true) : sizeOf o ≤ sizeOf x := by
  induction x with
  | root =>
    simp only [holds, decide_eq_true_eq] at h
    exact Nat.le_of_eq (congrArg sizeOf h)
  | field parent i ih | active parent pattern ih =>
    simp only [holds, Bool.or_eq_true, decide_eq_true_eq] at h
    rcases h with rfl | h
    · exact Nat.le_refl _
    · have := ih h
      simp only [field.sizeOf_spec, active.sizeOf_spec]
      omega

/-- A value does not lie in its own field. -/
theorem not_holds_parent (o : Occurrence) (index : Nat) : (field o index).holds o = false := by
  refine Bool.eq_false_iff.2 fun h => ?_
  have := sizeOf_le_of_holds h
  simp only [field.sizeOf_spec] at this
  omega

theorem holds_sibling {o : Occurrence} {i j : Nat} (h : (field o i).holds (field o j) = true) :
    i = j := by
  rcases holds_field.1 h with h | h
  · cases h
    rfl
  · simp [not_holds_parent] at h

end Occurrence

/-! ## What a way fixes -/

namespace TreePath

variable {path : TreePath} {o o' : Occurrence} {c d : Constructor}

theorem at?_concat : at? (path ++ [(o', c)]) o = if o' = o then some c else path.at? o := by
  by_cases h : o' = o <;> simp [at?, h]

theorem mem_of_at? (h : path.at? o = some c) : (o, c) ∈ path := by
  obtain ⟨e, he, rfl⟩ := Option.map_eq_some_iff.1 h
  have ho : e.1 = o := by simpa using List.find?_some he
  exact ho ▸ List.mem_reverse.1 (List.mem_of_find?_eq_some he)

/-- Where no occurrence is fixed twice, each is fixed as the way says. -/
theorem at?_eq_some (hn : (path.map (·.1)).Nodup) (h : (o, c) ∈ path) : path.at? o = some c := by
  obtain ⟨d, hd⟩ : ∃ d, path.at? o = some d := by
    rw [← Option.isSome_iff_exists, at?, Option.isSome_map, List.find?_isSome]
    exact ⟨(o, c), List.mem_reverse.2 h, by simp⟩
  have := List.inj_on_of_nodup_map hn (mem_of_at? hd) h rfl
  exact hd.trans (congrArg some (Prod.mk.inj this).2)

theorem at?_eq_none (h : ∀ e ∈ path, e.1 ≠ o) : path.at? o = none := by
  refine Option.eq_none_iff_forall_not_mem.2 fun c hc => h _ (mem_of_at? hc) rfl

/-- The number of occurrences fixed within one. -/
def fixedIn (path : TreePath) (o : Occurrence) : Nat := path.countP (fun e => o.holds e.1)

theorem fixedIn_field_le (path : TreePath) (o : Occurrence) (i : Nat) :
    path.fixedIn (.field o i) ≤ path.fixedIn o :=
  List.countP_mono_left fun _ _ h => Occurrence.holds_of_field h

/-- An occurrence that is fixed is not fixed within its fields. -/
theorem fixedIn_field_lt (h : path.at? o = some c) (i : Nat) :
    path.fixedIn (.field o i) < path.fixedIn o := by
  obtain ⟨l, l', rfl⟩ := List.append_of_mem (mem_of_at? h)
  have hl := fixedIn_field_le l o i
  have hl' := fixedIn_field_le l' o i
  simp only [fixedIn, List.countP_append, List.countP_cons, Occurrence.holds_self,
    Occurrence.not_holds_parent] at hl hl' ⊢
  simp
  omega

end TreePath

/-- The type of a value that is looked into on a way: its parts are those of the constructor that the way
fixes, or the items of a tuple. -/
inductive Opened (r : Registries) (scrutinee : Ty) (path : TreePath) : Occurrence → Ty → Prop
  | root : Opened r scrutinee path .root scrutinee
  | item {o : Occurrence} {items : List Ty} {i : Nat} {t : Ty} :
      Opened r scrutinee path o (.tuple items) → path.at? o = none → items[i]? = some t →
      Opened r scrutinee path (.field o i) t
  | part {o : Occurrence} {u t : Ty} {c : Constructor} {types : List Ty} {i : Nat} :
      Opened r scrutinee path o u → path.at? o = some c → r.Builds u c types →
      types[i]? = some t → Opened r scrutinee path (.field o i) t

section

variable {r : Registries} {scrutinee t u : Ty} {path : TreePath} {o o' : Occurrence}
  {c : Constructor} {types : List Ty}

theorem Registries.Builds.tuple_inv {items : List Ty} (h : r.Builds (.tuple items) c types) :
    c = .tuple items.length ∧ types = items := by
  cases h with
  | literal h => cases h
  | tuple _ => exact ⟨rfl, rfl⟩

/-- The type at an occurrence is found again from the way. -/
theorem Opened.typeAt_eq (h : Opened r scrutinee path o t) : r.typeAt scrutinee path o = t := by
  induction h with
  | root => rfl
  | item _ _ hi ih => simp [Registries.typeAt, ih, hi]
  | @part o u t c types i _ hc hb hi ih =>
    rw [Registries.typeAt, ih]
    split
    · rw [← hb.tuple_inv.2, hi, Option.getD_some]
    · rw [hc]
      simp [hb.fieldTypes_eq, hi]

theorem Opened.unique (h : Opened r scrutinee path o t) (h' : Opened r scrutinee path o u) : t = u :=
  h.typeAt_eq.symm.trans h'.typeAt_eq

theorem Opened.not_active {p : Occurrence} {pattern : String}
    (h : Opened r scrutinee path (.active p pattern) t) : False := by
  cases h

/-- Fixing one more occurrence leaves the types of the others as they are. -/
theorem Opened.concat (h : Opened r scrutinee path o t) (h' : Opened r scrutinee path o' u)
    (hnone : path.at? o' = none) (hb : r.Builds u c types) :
    Opened r scrutinee (path ++ [(o', c)]) o t := by
  induction h with
  | root => exact .root
  | @item p items i t hp hn hi ih =>
    by_cases he : o' = p
    · subst he
      obtain rfl := h'.unique hp
      exact .part ih (by simp [TreePath.at?_concat]) hb (hb.tuple_inv.2 ▸ hi)
    · exact .item ih (by rw [TreePath.at?_concat, if_neg he, hn]) hi
  | @part p w t d types' i hp hd hb' hi ih =>
    have he : o' ≠ p := by
      rintro rfl
      simp [hnone] at hd
    exact .part ih (by rw [TreePath.at?_concat, if_neg he, hd]) hb' hi

end

/-- Whether a way fits the type of the scrutinee: each occurrence is fixed once, to a constructor of its
type. -/
structure TreePath.Fits (r : Registries) (scrutinee : Ty) (path : TreePath) : Prop where
  built : ∀ e ∈ path, ∃ u types, Opened r scrutinee path e.1 u ∧ r.Builds u e.2 types
  nodup : (path.map (·.1)).Nodup

/-- Whether a subject is built as a way says, at the occurrences where it has values. -/
def TreePath.FollowedBy (path : TreePath) (s : Subject) : Prop :=
  ∀ e ∈ path, ∀ x, s.at? e.1 = some x → x.value.constructor? = some e.2

/-! ## Reading a witness off a way -/

namespace Registries

variable {r : Registries} {scrutinee t : Ty} {path : TreePath} {o : Occurrence} {c : Constructor}
  {types items : List Ty} {n : Nat}

theorem witnessesAt_eq (deeper : Occurrence → Ty → Witness) (index : Nat) (ts : List Ty) :
    r.witnessesAt path deeper o index ts =
      (ts.zipIdx index).map (fun f => r.witnessAt path deeper (.field o f.2) f.1) := by
  induction ts generalizing index with
  | nil => rfl
  | cons t ts ih => rw [witnessesAt, ih, List.zipIdx_cons, List.map_cons]

/-- Where a constructor is fixed, the witness names it. -/
theorem witnessWithin_of_fixed (ho : ∀ p q, o ≠ .active p q) (hc : path.at? o = some c)
    (hb : r.Builds t c types) : r.witnessWithin path (n + 1) o t =
      c.witness (types.zipIdx.map (fun f => r.witnessWithin path n (.field o f.2) f.1)) := by
  have hof : r.witnessWithin path (n + 1) o t = r.witnessOf (r.witnessWithin path n) o t c := by
    cases t <;> simp [witnessWithin, witnessAt, hc]
  rw [hof]
  simp only [witnessOf, hb.fieldTypes_eq]
  cases c with
  | literal _ | tuple _ => rfl
  | variant type name arity =>
    cases o with
    | root | field _ _ => rfl
    | active p q => exact absurd rfl (ho p q)

/-- Where a tuple is not fixed, the witness opens it. -/
theorem witnessWithin_tuple (hc : path.at? o = none) :
    r.witnessWithin path (n + 1) o (.tuple items) = (Constructor.tuple items.length).witness
      (items.zipIdx.map (fun f => r.witnessWithin path (n + 1) (.field o f.2) f.1)) := by
  simp [witnessWithin, witnessAt, hc, witnessesAt_eq, Constructor.witness]

theorem witnessWithin_wild (hc : path.at? o = none) (ht : ∀ items, t ≠ .tuple items)
    (ha : path.appliedTo? o = none) : r.witnessWithin path (n + 1) o t = .wild := by
  cases t with
  | tuple items => exact absurd rfl (ht items)
  | _ => simp [witnessWithin, witnessAt, hc, ha]

/-- Where nothing is fixed, but something is at the result of an active pattern, the witness names it. -/
theorem witnessWithin_of_applied {pattern : String} (hc : path.at? o = none)
    (ht : ∀ items, t ≠ .tuple items) (ha : path.appliedTo? o = some pattern)
    (hr : path.at? (.active o pattern) = some c) : r.witnessWithin path (n + 1) o t =
      r.witnessOf (r.witnessWithin path n) (.active o pattern) (.named pattern []) c := by
  cases t with
  | tuple items => exact absurd rfl (ht items)
  | _ => simp [witnessWithin, witnessAt, hc, ha, hr]

end Registries

/-- What the witness at the root describes is, at every occurrence that is looked into, described by the
witness there. -/
theorem Opened.describes {r : Registries} {scrutinee t : Ty} {path : TreePath} {o : Occurrence}
    {s : Subject}
    (hs : r.Describes (r.witnessWithin path (path.length + 1) .root scrutinee) scrutinee s.value)
    (ho : Opened r scrutinee path o t) : ∀ x, s.at? o = some x →
      ∃ n, path.fixedIn o < n ∧ r.Describes (r.witnessWithin path n o t) t x.value := by
  have hfield : ∀ {o i x}, s.at? (.field o i) = some x →
      ∃ y, s.at? o = some y ∧ y.value.parts[i]? = some x.value := by
    intro o i x hx
    obtain ⟨y, hy, hx⟩ := Option.bind_eq_some_iff.1 hx
    rw [Subject.getElem?_fields] at hx
    obtain ⟨v, hv, rfl⟩ := Option.map_eq_some_iff.1 hx
    exact ⟨y, hy, hv⟩
  induction ho with
  | root =>
    rintro x ⟨⟩
    exact ⟨path.length + 1, Nat.lt_succ_of_le List.countP_le_length, hs⟩
  | @item o items i t _ hnone hi ih =>
    intro x hx
    obtain ⟨y, hy, hpart⟩ := hfield hx
    obtain ⟨n, hn, hdesc⟩ := ih y hy
    obtain ⟨n, rfl⟩ := Nat.exists_eq_add_one_of_ne_zero (Nat.ne_zero_of_lt hn)
    rw [Registries.witnessWithin_tuple hnone] at hdesc
    obtain ⟨-, -, hparts⟩ := (Registries.Builds.tuple items).exists_described (by simp) hdesc
    have hle := path.fixedIn_field_le o i
    exact ⟨n + 1, by omega, hparts i _ _ _ (by simp [hi]) hi hpart⟩
  | @part o u t c types i hou hc hb hi ih =>
    intro x hx
    obtain ⟨y, hy, hpart⟩ := hfield hx
    obtain ⟨n, hn, hdesc⟩ := ih y hy
    obtain ⟨n, rfl⟩ := Nat.exists_eq_add_one_of_ne_zero (Nat.ne_zero_of_lt hn)
    rw [Registries.witnessWithin_of_fixed (fun p q e => (e ▸ hou).not_active) hc hb] at hdesc
    obtain ⟨-, -, hparts⟩ := hb.exists_described (by simp) hdesc
    have hlt := TreePath.fixedIn_field_lt hc i
    exact ⟨n, by omega, hparts i _ _ _ (by simp [hi]) hi hpart⟩

namespace TreePath.Fits

variable {r : Registries} {scrutinee t : Ty} {path : TreePath} {o : Occurrence} {c : Constructor}

theorem appliedTo?_eq_none (h : path.Fits r scrutinee) (o : Occurrence) :
    path.appliedTo? o = none := by
  refine List.findSome?_eq_none_iff.2 fun e he => ?_
  obtain ⟨u, types, hu, -⟩ := h.built e he
  split
  · rename_i p q heq
    exact absurd (heq ▸ hu) Opened.not_active
  · rfl

/-- What is fixed at an occurrence builds values of the type there. -/
theorem builds (h : path.Fits r scrutinee) (ho : Opened r scrutinee path o t)
    (hc : path.at? o = some c) : ∃ types, r.Builds t c types := by
  obtain ⟨u, types, hu, hb⟩ := h.built _ (TreePath.mem_of_at? hc)
  exact ⟨types, hu.unique ho ▸ hb⟩

/-- The witness at an occurrence is well-typed. The recursion is the one of reading it: into a fixed
constructor there is less left to look into, into a tuple the type gets smaller. -/
theorem witness_fits (h : path.Fits r scrutinee) : (n : Nat) → (t : Ty) → (o : Occurrence) →
    Opened r scrutinee path o t → path.fixedIn o < n → (r.witnessWithin path n o t).Fits r t
  | n + 1, t, o, ho, hn => by
    have hactive : ∀ p q, o ≠ .active p q := by
      rintro p q rfl
      exact ho.not_active
    cases hc : path.at? o with
    | some c =>
      obtain ⟨types, hb⟩ := h.builds ho hc
      rw [Registries.witnessWithin_of_fixed hactive hc hb]
      refine .built hb (List.forall₂_iff_get.2 ⟨by simp, fun i _ hi => ?_⟩)
      have hlt := TreePath.fixedIn_field_lt hc i
      simpa using h.witness_fits n types[i] (.field o i)
        (.part ho hc hb (List.getElem?_eq_getElem hi)) (by omega)
    | none =>
      by_cases ht : ∃ items, t = .tuple items
      · obtain ⟨items, e⟩ := ht
        rw [e, Registries.witnessWithin_tuple hc]
        refine .built (.tuple items) (List.forall₂_iff_get.2 ⟨by simp, fun i _ hi => ?_⟩)
        have hle := path.fixedIn_field_le o i
        have hsize : sizeOf items[i] < sizeOf t := by
          have := List.sizeOf_lt_of_mem (List.getElem_mem hi)
          rw [e, Ty.tuple.sizeOf_spec]
          omega
        simpa using h.witness_fits (n + 1) items[i] (.field o i)
          (.item (e ▸ ho) hc (List.getElem?_eq_getElem hi)) (by omega)
      · rw [Registries.witnessWithin_wild hc (fun items e => ht ⟨items, e⟩)
          (h.appliedTo?_eq_none o)]
        exact .wild t
  termination_by n t => (n, sizeOf t)

/-- What the witness describes is built as the way says. -/
theorem followedBy (h : path.Fits r scrutinee) {s : Subject}
    (hs : r.Describes (r.witnessWithin path (path.length + 1) .root scrutinee) scrutinee s.value) :
    path.FollowedBy s := by
  intro e he x hx
  obtain ⟨u, types, hu, hb⟩ := h.built e he
  obtain ⟨n, hn, hdesc⟩ := hu.describes hs x hx
  obtain ⟨n, rfl⟩ := Nat.exists_eq_add_one_of_ne_zero (Nat.ne_zero_of_lt hn)
  have hc : path.at? e.1 = some e.2 := TreePath.at?_eq_some h.nodup he
  rw [Registries.witnessWithin_of_fixed (fun p q heq => (heq ▸ hu).not_active) hc hb] at hdesc
  exact (hb.exists_described (by simp) hdesc).1

end TreePath.Fits

end RowCheck
