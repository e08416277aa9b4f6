import RowCheck.Match.Matrix
import RowCheck.Proofs.Match.Subject

/-!
What the cells of a matrix accept and bind, and that a cell made from a pattern accepts and binds
what the pattern does. Cells that stand side by side are read against the subjects of their columns.
-/
namespace RowCheck

namespace Cell

mutual

/-- Whether a cell accepts a subject. -/
def accepts (s : Subject) : Cell → Bool
  | wild _ => true
  | test c args => decide (s.value.constructor? = some c) && acceptsAll s.fields args
  | active pattern case args =>
    decide ((s.applied pattern).value.constructor? = some (.variant pattern case args.length)) &&
      acceptsAll (s.applied pattern).fields args

def acceptsAll : List Subject → List Cell → Bool
  | s :: ss, c :: cs => c.accepts s && acceptsAll ss cs
  | [], [] => true
  | _, _ => false

end

mutual

/-- The names in a cell, with where their values are found. -/
def places (o : Occurrence) : Cell → Bindings
  | wild (some name) => [(name, o)]
  | wild none => []
  | test _ args => placesFrom o 0 args
  | active pattern _ args => placesFrom (.active o pattern) 0 args

def placesFrom (o : Occurrence) (index : Nat) : List Cell → Bindings
  | [] => []
  | c :: cs => c.places (.field o index) ++ placesFrom o (index + 1) cs

end

/-- The names in cells that stand below columns. -/
def placesAll : List Column → List Cell → Bindings
  | column :: columns, c :: cs => c.places column.occurrence ++ placesAll columns cs
  | _, _ => []

/-- Whether a cell is well-formed for the values of a type. -/
inductive Fits (r : Registries) : Cell → Ty → Prop
  | wild (name : Option String) (t : Ty) : Fits r (.wild name) t
  | test {c : Constructor} {args : List Cell} {t : Ty} {types : List Ty} :
      r.Builds t c types → List.Forall₂ (Fits r) args types → Fits r (.test c args) t
  | active {pattern case : String} {args : List Cell} {types : List Ty} (t : Ty) :
      (r.active.get? pattern).isSome →
      r.Builds (.named pattern []) (.variant pattern case args.length) types →
      List.Forall₂ (Fits r) args types → Fits r (.active pattern case args) t

/-! ## Cells of patterns -/

@[simp] theorem length_ofPatterns (ps : List TPattern) : (ofPatterns ps).length = ps.length := by
  induction ps with
  | nil => rfl
  | cons p ps ih => simp [ofPatterns, ih]

mutual

theorem accepts_ofPattern (s : Subject) :
    (p : TPattern) → (ofPattern p).accepts s = p.accepts s
  | .wild .. | .bind .. => by simp [ofPattern, accepts, TPattern.accepts]
  | .lit .. => by
    cases hv : s.value <;>
      simp [ofPattern, accepts, TPattern.accepts, hv, acceptsAll, Value.constructor?,
        Subject.fields, Value.parts]
  | .tuple _ _ items => by
    simp [ofPattern, accepts, TPattern.accepts, acceptsAll_ofPatterns s.fields items]
  | .variant _ _ _ _ args => by
    simp [ofPattern, accepts, TPattern.accepts, acceptsAll_ofPatterns s.fields args]
  | .active _ _ pattern _ args => by
    simp [ofPattern, accepts, TPattern.accepts,
      acceptsAll_ofPatterns (s.applied pattern).fields args]

theorem acceptsAll_ofPatterns :
    (ss : List Subject) → (ps : List TPattern) →
      acceptsAll ss (ofPatterns ps) = TPattern.acceptsAll ss ps
  | [], [] => rfl
  | s :: ss, p :: ps => by
    simp [ofPatterns, acceptsAll, TPattern.acceptsAll, accepts_ofPattern s p,
      acceptsAll_ofPatterns ss ps]
  | [], _ :: _ => rfl
  | _ :: _, [] => rfl

end

mutual

theorem places_ofPattern (o : Occurrence) :
    (p : TPattern) → (ofPattern p).places o = p.places o
  | .wild .. | .bind .. => by simp [ofPattern, places, TPattern.places]
  | .lit .. => by simp [ofPattern, places, placesFrom, TPattern.places]
  | .tuple _ _ items => by
    simp [ofPattern, places, TPattern.places, placesFrom_ofPatterns o 0 items]
  | .variant _ _ _ _ args => by
    simp [ofPattern, places, TPattern.places, placesFrom_ofPatterns o 0 args]
  | .active _ _ pattern _ args => by
    simp [ofPattern, places, TPattern.places, placesFrom_ofPatterns (.active o pattern) 0 args]

theorem placesFrom_ofPatterns (o : Occurrence) (index : Nat) :
    (ps : List TPattern) → placesFrom o index (ofPatterns ps) = TPattern.placesFrom o index ps
  | [] => rfl
  | p :: ps => by
    simp [ofPatterns, placesFrom, TPattern.placesFrom, places_ofPattern (.field o index) p,
      placesFrom_ofPatterns o (index + 1) ps]

end

mutual

theorem fits_ofPattern {r : Registries} :
    (p : TPattern) → (t : Ty) → p.Fits r t → (ofPattern p).Fits r t
  | .wild .., t, _ => .wild none t
  | .bind _ _ name _, t, _ => .wild (some name) t
  | .lit .., _, h => by
    cases h with
    | lit _ _ hb => exact .test hb .nil
  | .tuple _ _ items, _, h => by
    cases h with
    | tuple _ _ hb hs => exact .test hb (fits_ofPatterns items _ hs)
  | .variant _ _ _ _ args, _, h => by
    cases h with
    | variant _ _ hb hs => exact .test hb (fits_ofPatterns args _ hs)
  | .active _ _ _ _ args, t, h => by
    cases h with
    | active _ _ _ ha hb hs =>
      exact .active t ha (by simpa using hb) (fits_ofPatterns args _ hs)

theorem fits_ofPatterns {r : Registries} :
    (ps : List TPattern) → (ts : List Ty) → List.Forall₂ (TPattern.Fits r) ps ts →
      List.Forall₂ (Fits r) (ofPatterns ps) ts
  | [], _, h => by
    cases h
    exact .nil
  | p :: ps, _, h => by
    cases h with
    | cons hp hps => exact .cons (fits_ofPattern p _ hp) (fits_ofPatterns ps _ hps)

end

/-! ## Cells side by side -/

theorem acceptsAll_append {ss ss' : List Subject} {cs cs' : List Cell}
    (h : ss.length = cs.length) :
    acceptsAll (ss ++ ss') (cs ++ cs') = (acceptsAll ss cs && acceptsAll ss' cs') := by
  induction ss generalizing cs with
  | nil =>
    have : cs = [] := List.length_eq_zero_iff.1 h.symm
    simp [this, acceptsAll]
  | cons s ss ih =>
    cases cs with
    | nil => simp at h
    | cons c cs => simp [acceptsAll, ih (by simpa using h), Bool.and_assoc]

theorem acceptsAll_replicate_wild {ss : List Subject} {n : Nat} (h : ss.length = n) :
    acceptsAll ss (List.replicate n (wild none)) = true := by
  induction ss generalizing n with
  | nil => simp [← h, acceptsAll]
  | cons s ss ih =>
    obtain ⟨m, rfl⟩ : ∃ m, n = m + 1 := ⟨ss.length, by simpa using h.symm⟩
    simp [List.replicate_succ, acceptsAll, accepts, ih (by simpa using h)]

/-- Cells that are all wild accept everything. -/
theorem acceptsAll_of_wild {ss : List Subject} {cs : List Cell} (h : ss.length = cs.length)
    (hw : ∀ c ∈ cs, c.isWild = true) : acceptsAll ss cs = true := by
  induction cs generalizing ss with
  | nil => simp [List.length_eq_zero_iff.1 h, acceptsAll]
  | cons c cs ih =>
    cases ss with
    | nil => simp at h
    | cons s ss =>
      have hc := hw c List.mem_cons_self
      cases c with
      | wild name =>
        simp [acceptsAll, accepts,
          ih (by simpa using h) (fun c hc => hw c (List.mem_cons_of_mem _ hc))]
      | test d args => simp [isWild] at hc
      | active p case args => simp [isWild] at hc

/-- Applying an active pattern beforehand makes no difference to what a cell accepts. What the
pattern gives on the value itself does not matter afterwards. -/
theorem acceptsAll_applied {s u : Subject} {pattern : String} (h : s.SameBut pattern u)
    (c : Cell) : acceptsAll [u, s.applied pattern] (c.applied pattern) = c.accepts s := by
  cases c with
  | wild name => simp [applied, acceptsAll, accepts]
  | test d args => simp [applied, acceptsAll, accepts, h.value, h.fields]
  | active p case args =>
    by_cases hp : p = pattern
    · subst hp
      simp [applied, acceptsAll, accepts]
    · simp [applied, acceptsAll, accepts, hp, h.applied p hp]

theorem length_applied (pattern : String) (c : Cell) : (c.applied pattern).length = 2 := by
  cases c with
  | wild name => rfl
  | test d args => rfl
  | active p case args => by_cases h : p = pattern <;> simp [applied, h]

theorem placesAll_applied (column : Column) (t : Ty) (pattern : String) {c : Cell}
    (hc : ∀ name, c ≠ wild (some name)) :
    placesAll [column, ⟨.active column.occurrence pattern, t⟩] (c.applied pattern) =
      c.places column.occurrence := by
  cases c with
  | wild name =>
    cases name with
    | none => simp [applied, placesAll, places]
    | some name => exact absurd rfl (hc name)
  | test d args => simp [applied, placesAll, places]
  | active p case args =>
    by_cases h : p = pattern
    · subst h
      simp [applied, placesAll, places]
    · simp [applied, placesAll, places, h]

theorem placesAll_append {columns columns' : List Column} {cs cs' : List Cell}
    (h : columns.length = cs.length) :
    placesAll (columns ++ columns') (cs ++ cs') =
      placesAll columns cs ++ placesAll columns' cs' := by
  induction columns generalizing cs with
  | nil =>
    have : cs = [] := List.length_eq_zero_iff.1 h.symm
    simp [this, placesAll]
  | cons column columns ih =>
    cases cs with
    | nil => simp at h
    | cons c cs => simp [placesAll, ih (by simpa using h)]

theorem placesAll_replicate_wild (columns : List Column) (n : Nat) :
    placesAll columns (List.replicate n (wild none)) = [] := by
  induction columns generalizing n with
  | nil => cases n <;> rfl
  | cons column columns ih =>
    cases n with
    | zero => rfl
    | succ n => simp [List.replicate_succ, placesAll, places, ih]

/-- Cells without tests and without names bind nothing. -/
theorem placesAll_of_wild {columns : List Column} {cs : List Cell}
    (hw : ∀ c ∈ cs, c.isWild = true) (hn : ∀ name, wild (some name) ∉ cs) :
    placesAll columns cs = [] := by
  induction cs generalizing columns with
  | nil => cases columns <;> rfl
  | cons c cs ih =>
    cases columns with
    | nil => rfl
    | cons column columns =>
      have hc := hw c List.mem_cons_self
      have ih : placesAll columns cs = [] :=
        ih (fun c hc => hw c (List.mem_cons_of_mem _ hc))
          (fun name h => hn name (List.mem_cons_of_mem _ h))
      cases c with
      | wild name =>
        cases name with
        | none => simp [placesAll, places, ih]
        | some name => exact absurd List.mem_cons_self (hn name)
      | test d args => simp [isWild] at hc
      | active p case args => simp [isWild] at hc

/-- The names in the arguments of a test are found at the fields of its value. -/
theorem placesAll_fields (o : Occurrence) (types : List Ty) (args : List Cell) (index : Nat)
    (h : types.length = args.length) :
    placesAll ((types.zipIdx index).map (fun f => ⟨.field o f.2, f.1⟩)) args =
      placesFrom o index args := by
  induction types generalizing args index with
  | nil =>
    have : args = [] := List.length_eq_zero_iff.1 h.symm
    simp [this, placesAll, placesFrom]
  | cons t types ih =>
    cases args with
    | nil => simp at h
    | cons c args => simp [placesAll, placesFrom, ih args (index + 1) (by simpa using h)]

end Cell

/-! ## Replacing an item of a list -/

section splice

variable {α β : Type}

@[simp] theorem splice_cons_zero (a : α) (l m : List α) : splice (a :: l) 0 m = m ++ l := by
  simp [splice]

@[simp] theorem splice_cons_succ (a : α) (l m : List α) (i : Nat) :
    splice (a :: l) (i + 1) m = a :: splice l i m := by
  simp [splice]

theorem mem_splice {l m : List α} {i : Nat} {a : α} (h : a ∈ splice l i m) : a ∈ l ∨ a ∈ m := by
  simp only [splice, List.mem_append] at h
  rcases h with (h | h) | h
  · exact .inl (List.mem_of_mem_take h)
  · exact .inr h
  · exact .inl (List.mem_of_mem_drop h)

/-- A list around one of its items. -/
theorem exists_split {l : List α} {i : Nat} {a : α} (h : l[i]? = some a) :
    ∃ l₁ l₂, l = l₁ ++ a :: l₂ ∧ ∀ m, splice l i m = l₁ ++ m ++ l₂ := by
  obtain ⟨hi, rfl⟩ := List.getElem?_eq_some_iff.1 h
  exact ⟨l.take i, l.drop (i + 1), by simp, fun m => rfl⟩

theorem perm_splice (l m : List α) (i : Nat) : (splice l i m).Perm (m ++ splice l i []) := by
  simpa [splice] using List.perm_append_comm_assoc (l.take i) m (l.drop (i + 1))

theorem perm_cons_splice {l : List α} {i : Nat} {a : α} (h : l[i]? = some a) :
    l.Perm (a :: splice l i []) := by
  obtain ⟨l₁, l₂, rfl, hsplice⟩ := exists_split h
  rw [hsplice, List.append_nil]
  exact List.perm_middle

theorem forall₂_imp_of_mem {R R' : α → β → Prop} {l : List α} {l' : List β}
    (h : List.Forall₂ R l l') (hR : ∀ b ∈ l', ∀ a, R a b → R' a b) : List.Forall₂ R' l l' :=
  List.forall₂_iff_get.2 ⟨h.length_eq, fun _ h₁ h₂ => hR _ (l'.get_mem _) _ (h.get h₁ h₂)⟩

theorem forall₂_of_length_eq {R : α → β → Prop} {l : List α} {l' : List β}
    (h : l.length = l'.length) (hR : ∀ a ∈ l, ∀ b ∈ l', R a b) : List.Forall₂ R l l' :=
  List.forall₂_iff_get.2 ⟨h, fun _ _ _ => hR _ (l.get_mem _) _ (l'.get_mem _)⟩

/-- When an item is replaced, the others may from then on be related in another way. -/
theorem forall₂_splice_of_imp {R R' : α → β → Prop} {l m : List α} {l' m' : List β} (i : Nat)
    (h : List.Forall₂ R l l') (hR : ∀ b ∈ splice l' i [], ∀ a, R a b → R' a b)
    (hm : List.Forall₂ R' m m') : List.Forall₂ R' (splice l i m) (splice l' i m') := by
  have htake : ∀ b ∈ l'.take i, ∀ a, R a b → R' a b := fun b hb => hR b (by simp [splice, hb])
  have hdrop : ∀ b ∈ l'.drop (i + 1), ∀ a, R a b → R' a b := fun b hb => hR b (by simp [splice, hb])
  exact List.rel_append (List.rel_append (forall₂_imp_of_mem (List.forall₂_take i h) htake) hm)
    (forall₂_imp_of_mem (List.forall₂_drop (i + 1) h) hdrop)

theorem forall₂_splice {R : α → β → Prop} {l m : List α} {l' m' : List β} (i : Nat)
    (h : List.Forall₂ R l l') (hm : List.Forall₂ R m m') :
    List.Forall₂ R (splice l i m) (splice l' i m') :=
  forall₂_splice_of_imp i h (fun _ _ _ => id) hm

end splice

/-- Cells that replace one cell, and accept the subjects that replace its subject when it accepts
that one, leave what is accepted as it was. -/
theorem Cell.acceptsAll_splice {ss xs : List Subject} {cs ys : List Cell} {i : Nat} {s : Subject}
    {c : Cell} (hs : ss[i]? = some s) (hc : cs[i]? = some c) (hlen : xs.length = ys.length)
    (h : acceptsAll xs ys = c.accepts s) :
    acceptsAll (splice ss i xs) (splice cs i ys) = acceptsAll ss cs := by
  induction i generalizing ss cs with
  | zero =>
    cases ss with
    | nil => simp at hs
    | cons s' ss =>
      cases cs with
      | nil => simp at hc
      | cons c' cs =>
        obtain rfl : s' = s := by simpa using hs
        obtain rfl : c' = c := by simpa using hc
        simp [acceptsAll_append hlen, h, acceptsAll]
  | succ i ih =>
    cases ss with
    | nil => simp at hs
    | cons s' ss =>
      cases cs with
      | nil => simp at hc
      | cons c' cs =>
        simp [acceptsAll, ih (by simpa using hs) (by simpa using hc)]

/-- A cell that does not accept its subject keeps the whole row from being accepted. -/
theorem Cell.acceptsAll_eq_false {ss : List Subject} {cs : List Cell} {i : Nat} {s : Subject}
    {c : Cell} (hs : ss[i]? = some s) (hc : cs[i]? = some c) (h : c.accepts s = false) :
    acceptsAll ss cs = false := by
  induction i generalizing ss cs with
  | zero =>
    cases ss with
    | nil => simp at hs
    | cons s' ss =>
      cases cs with
      | nil => simp at hc
      | cons c' cs =>
        obtain rfl : s' = s := by simpa using hs
        obtain rfl : c' = c := by simpa using hc
        simp [acceptsAll, h]
  | succ i ih =>
    cases ss with
    | nil => simp at hs
    | cons s' ss =>
      cases cs with
      | nil => simp at hc
      | cons c' cs => simp [acceptsAll, ih (by simpa using hs) (by simpa using hc)]

theorem Cell.placesAll_splice {columns new : List Column} {cs ys : List Cell} {i : Nat}
    {column : Column} {c : Cell} (hk : columns[i]? = some column) (hc : cs[i]? = some c)
    (hlen : new.length = ys.length) (h : placesAll new ys = c.places column.occurrence) :
    placesAll (splice columns i new) (splice cs i ys) = placesAll columns cs := by
  induction i generalizing columns cs with
  | zero =>
    cases columns with
    | nil => simp at hk
    | cons k columns =>
      cases cs with
      | nil => simp at hc
      | cons c' cs =>
        obtain rfl : k = column := by simpa using hk
        obtain rfl : c' = c := by simpa using hc
        simp [placesAll_append hlen, h, placesAll]
  | succ i ih =>
    cases columns with
    | nil => simp at hk
    | cons k columns =>
      cases cs with
      | nil => simp at hc
      | cons c' cs => simp [placesAll, ih (by simpa using hk) (by simpa using hc)]

end RowCheck
