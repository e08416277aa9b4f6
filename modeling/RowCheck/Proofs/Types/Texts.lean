import RowCheck.Proofs.Types.Spelling
import RowCheck.Proofs.Types.Ty

/-!
What the text of a type tells. It tells the type's spelling, neither more nor less. A spelling
leaves open what a word names, whether an arrow in parentheses is a tuple by itself, and whether a
word alone in brackets is a label or a tail. Where these cannot be mistaken, a text tells its type.
-/
namespace RowCheck

/-- Lists are equal if a function that tells their items apart makes them equal. -/
theorem eq_of_map_eq {α β : Type} {f : α → β} {as bs : List α}
    (h : ∀ a ∈ as, ∀ b ∈ bs, f a = f b → a = b) (heq : as.map f = bs.map f) : as = bs := by
  induction as generalizing bs with
  | nil => exact (List.map_eq_nil_iff.1 heq.symm).symm
  | cons a as ih =>
    obtain ⟨b, bs, rfl, hb, hbs⟩ := List.map_eq_cons_iff.1 heq.symm
    rw [h a List.mem_cons_self b List.mem_cons_self hb.symm,
      ih (fun a ha b hb => h a (List.mem_cons_of_mem _ ha) b (List.mem_cons_of_mem _ hb)) hbs.symm]

open Spelling RowSpelling

/-! ## Spellings of types -/

/-- Labels come first, and a tail by itself is written like a label. -/
def Row.spelling (names : VarNames) (r : Row) : RowSpelling :=
  match r.tail with
  | none => ⟨r.labels.toList, none⟩
  | some v =>
    if r.labels.isEmpty then ⟨[names.rowVar v], none⟩
    else ⟨r.labels.toList, some (names.rowVar v)⟩

namespace Row

variable {names : VarNames} {l l' : SortedSet String} {v v' : RowVar}

/-- Closed rows are spelled alike if they are the same. -/
theorem spelling_closed :
    spelling names ⟨l, none⟩ = spelling names ⟨l', none⟩ ↔ l = l' := by
  obtain ⟨l, hl⟩ := l
  obtain ⟨l', hl'⟩ := l'
  simp [spelling]

/-- An open row is spelled like a closed one if a tail by itself is named like a label by itself. -/
theorem spelling_open_closed : spelling names ⟨l, some v⟩ = spelling names ⟨l', none⟩ ↔
    l.isEmpty = true ∧ l'.toList = [names.rowVar v] := by
  unfold spelling
  dsimp only
  split
  · simp [*, eq_comm]
  · simp [*]

/-- Open rows are spelled alike if they have the same labels, and tails of one name. -/
theorem spelling_open : spelling names ⟨l, some v⟩ = spelling names ⟨l', some v'⟩ ↔
    l = l' ∧ names.rowVar v = names.rowVar v' := by
  obtain ⟨l, hl⟩ := l
  obtain ⟨l', hl'⟩ := l'
  cases l with
  | nil => cases l' with
    | nil => simp [spelling, SortedSet.isEmpty]
    | cons x' xs' => simp [spelling, SortedSet.isEmpty]
  | cons x xs => cases l' with
    | nil => simp [spelling, SortedSet.isEmpty]
    | cons x' xs' => simp [spelling, SortedSet.isEmpty]

end Row

/-- An arrow in parentheses is spelled as a tuple by itself. -/
def Spelling.boxed : Spelling → Spelling
  | .arrow p e r => .tuple [.arrow p e r]
  | x => x

@[simp] theorem Spelling.boxed_eq_self {x : Spelling} (h : x.isArrow = false) : x.boxed = x := by
  cases x with
  | arrow p e r => cases h
  | _ => rfl

/-- Parentheses make no difference but between an arrow and a tuple of just that arrow. -/
theorem Spelling.of_boxed_eq {x y : Spelling} (h : x.boxed = y.boxed) :
    x = y ∨ (∃ p e r, x = .tuple [.arrow p e r]) ∨ ∃ p e r, y = .tuple [.arrow p e r] := by
  cases x with
  | arrow p e r => cases y with
    | arrow p' e' r' => exact .inl (List.cons.inj (Spelling.tuple.inj h)).1
    | _ => exact .inr (.inr ⟨p, e, r, h.symm⟩)
  | _ => cases y with
    | arrow p e r => exact .inr (.inl ⟨p, e, r, h⟩)
    | _ => exact .inl h

namespace Ty

mutual

/-- The spelling of a type. What is a word by itself is spelled alike, whatever it names. -/
def spelling (names : VarNames) : Ty → Spelling
  | .prim p => .named p.name []
  | .string => .named "String" []
  | .unit => .named "Unit" []
  | .error => .error
  | .var v => .named (names.typeVar v) []
  | .fn p r e => .arrow (p.spelling names).boxed (e.spelling names) (r.spelling names)
  | .tuple items => .tuple (spellings names items)
  | .named name args => .named name (spellings names args)
  | .ref kind inner => .ref kind (inner.spelling names).boxed

def spellings (names : VarNames) : List Ty → List Spelling
  | [] => []
  | t :: ts => t.spelling names :: spellings names ts

end

mutual

/-- The names of declared types and the labels in a type. -/
def words : Ty → List String
  | .fn p r e => e.labels.toList ++ (p.words ++ r.words)
  | .tuple items => wordsList items
  | .named name args => name :: wordsList args
  | .ref _ inner => inner.words
  | .prim _ | .string | .unit | .var _ | .error => []

def wordsList : List Ty → List String
  | [] => []
  | t :: ts => t.words ++ wordsList ts

end

variable {names : VarNames}

@[simp] theorem spellings_eq_map (ts : List Ty) : spellings names ts = ts.map (spelling names) := by
  induction ts with
  | nil => rfl
  | cons t ts ih => simp [spellings, ih]

@[simp] theorem wordsList_eq (ts : List Ty) : wordsList ts = ts.flatMap words := by
  induction ts with
  | nil => rfl
  | cons t ts ih => simp [wordsList, ih]

@[simp] theorem textsAt_eq_map (ts : List Ty) : textsAt names ts = ts.map (textAt names false) := by
  induction ts with
  | nil => rfl
  | cons t ts ih => simp [textsAt, ih]

end Ty

/-- What is joined by commas is written as a list. -/
theorem toList_joined (ws : List String) :
    (String.intercalate ", " ws).toList = listed (ws.map String.toList) := by
  rw [String.toList_intercalate]
  rfl

namespace Row

variable {names : VarNames}

theorem isEmpty_words (r : Row) : (r.spelling names).words.isEmpty = r.isPure := by
  obtain ⟨labels, tail⟩ := r
  cases tail with
  | none => exact (Bool.and_true _).symm
  | some v =>
    rw [show isPure ⟨labels, some v⟩ = (labels.isEmpty && false) from rfl, Bool.and_false]
    unfold spelling
    dsimp only
    split
    · rfl
    · rename_i hempty
      exact Bool.eq_false_iff.2 hempty

theorem toList_textWith (r : Row) : (r.textWith names).toList =
    '[' :: listed ((r.spelling names).words.map String.toList) ++ barText (r.spelling names).last ++
      [']'] := by
  obtain ⟨labels, tail⟩ := r
  unfold textWith spelling
  cases tail with
  | none => simp [listed, barText]
  | some v =>
    dsimp only
    split
    · simp [listed, barText]
    · simp [listed, barText]

theorem toList_arrowText (r : Row) : (r.arrowText names).toList = (r.spelling names).text := by
  rw [RowSpelling.text, isEmpty_words, arrowText]
  split
  · rfl
  · simp [toList_textWith]

end Row

namespace Ty

variable {names : VarNames}

/-- Types in a list are written as their spellings. -/
theorem toList_joined_textsAt {ts : List Ty}
    (h : ∀ t ∈ ts, (t.textAt names false).toList = (t.spelling names).text) :
    (String.intercalate ", " (textsAt names ts)).toList = listed (texts (spellings names ts)) := by
  rw [toList_joined, textsAt_eq_map, texts_eq_map, spellings_eq_map, List.map_map, List.map_map]
  exact congrArg listed (List.map_congr_left h)

/-- A type is written as its spelling. -/
theorem toList_textAt (t : Ty) (nested : Bool) : (t.textAt names nested).toList =
    (if nested then (t.spelling names).boxed else t.spelling names).text := by
  induction t using Ty.induction generalizing nested with
  | fn p r e hp hr =>
    have harrow : (p.textAt names true ++ e.arrowText names ++ r.textAt names false).toList =
        ((fn p r e).spelling names).text := by
      rw [String.toList_append, String.toList_append, hp, hr, Row.toList_arrowText]
      rfl
    unfold textAt
    dsimp only
    cases nested with
    | false => exact harrow
    | true =>
      rw [if_pos rfl, if_pos rfl, String.toList_append, String.toList_append, harrow]
      exact (congrArg ('(' :: · ++ [')']) (List.append_nil _)).symm
  | tuple items ih =>
    rw [boxed_eq_self rfl, ite_self, textAt, String.toList_append, String.toList_append,
      toList_joined_textsAt fun t ht => ih t ht false]
    rfl
  | named name args ih =>
    have hargs := toList_joined_textsAt fun t ht => ih t ht false
    rw [boxed_eq_self rfl, ite_self, textAt, spelling, Spelling.text]
    cases args with
    | nil => exact (List.append_nil _).symm
    | cons t ts =>
      rw [List.isEmpty_cons, if_neg (by decide), String.toList_append, String.toList_append,
        String.toList_append, hargs]
      simp [spellings, bracketed]
  | ref kind inner ih =>
    rw [boxed_eq_self rfl, ite_self, textAt, String.toList_append, ih]
    rfl
  | error =>
    rw [boxed_eq_self rfl, ite_self]
    simp [textAt, spelling, Spelling.text]
  | _ =>
    rw [boxed_eq_self rfl, ite_self]
    exact (text_word _).symm

/-- Whether all names of declared types and all labels in a type are valid names. -/
def Spelt (t : Ty) : Prop := ∀ w ∈ t.words, ValidName w

instance : DecidablePred Spelt := fun t => inferInstanceAs (Decidable (∀ w ∈ t.words, ValidName w))

end Ty

theorem Spelling.isArrow_boxed (x : Spelling) : x.boxed.isArrow = false := by
  cases x with
  | _ => rfl

theorem Spelling.Proper.boxed {x : Spelling} (h : x.Proper) : x.boxed.Proper := by
  cases x with
  | arrow p e r => exact properAll_iff.2 (List.forall_mem_singleton.2 h)
  | _ => exact h

theorem Row.proper_spelling {names : VarNames} (hn : names.Valid) {r : Row}
    (h : ∀ w ∈ r.labels.toList, ValidName w) : (r.spelling names).Proper := by
  obtain ⟨labels, tail⟩ := r
  unfold spelling
  cases tail with
  | none => exact ⟨h, nofun, fun _ => rfl⟩
  | some v =>
    dsimp only
    split
    · exact ⟨List.forall_mem_singleton.2 (hn.row v), nofun, nofun⟩
    · rename_i hempty
      refine ⟨h, ?_, fun hl => ?_⟩
      · rintro w ⟨⟩
        exact hn.row v
      · exact absurd (List.isEmpty_iff.2 hl) hempty

namespace Ty

variable {names : VarNames} {s t : Ty}

theorem valid_name (p : Primitive) : ValidName p.name := by
  cases p <;> decide

theorem proper_spellings {ts : List Ty} (h : ∀ t ∈ ts, (t.spelling names).Proper) :
    ProperAll (spellings names ts) := by
  rw [properAll_iff, spellings_eq_map]
  exact List.forall_mem_map.2 h

theorem proper_spelling (hn : names.Valid) (ht : t.Spelt) : (t.spelling names).Proper := by
  have word : ∀ {w : String}, ValidName w → (Spelling.named w []).Proper :=
    fun h => ⟨h, trivial⟩
  induction t using Ty.induction with
  | prim p => exact word (valid_name p)
  | string => exact word (by decide)
  | unit => exact word (by decide)
  | error => trivial
  | var v => exact word (hn.type v)
  | fn p r e hp hr =>
    simp only [Spelt, words, List.forall_mem_append] at ht
    exact ⟨isArrow_boxed _, (hp ht.2.1).boxed, Row.proper_spelling hn ht.1, hr ht.2.2⟩
  | tuple items ih =>
    simp only [Spelt, words, wordsList_eq, List.mem_flatMap] at ht
    exact proper_spellings fun t hm => ih t hm fun w hw => ht w ⟨t, hm, hw⟩
  | named name args ih =>
    simp only [Spelt, words, wordsList_eq, List.forall_mem_cons, List.mem_flatMap] at ht
    exact ⟨ht.1, proper_spellings fun t hm => ih t hm fun w hw => ht.2 w ⟨t, hm, hw⟩⟩
  | ref kind inner ih => exact ⟨isArrow_boxed _, (ih ht).boxed⟩

/-- Two types have one text if and only if they have one spelling. -/
theorem textWith_eq_iff (hn : names.Valid) (hs : s.Spelt) (ht : t.Spelt) :
    s.textWith names = t.textWith names ↔ s.spelling names = t.spelling names := by
  have htext : ∀ t : Ty, (t.textWith names).toList = (t.spelling names).text :=
    fun t => toList_textAt t false
  rw [← String.toList_inj, htext, htext]
  exact ⟨text_injective (proper_spelling hn hs) (proper_spelling hn ht), congrArg _⟩

/-! ## Types that are told -/

/-- The name that a builtin type is written as. -/
def builtin? : Ty → Option String
  | .prim p => some p.name
  | .string => some "String"
  | .unit => some "Unit"
  | _ => none

/-- The names that builtin types are written as. -/
def builtinNames : List String := "String" :: "Unit" :: Primitive.all.map Primitive.name

theorem mem_builtinNames {w : String} (h : t.builtin? = some w) : w ∈ builtinNames := by
  cases t with
  | prim p =>
    cases h
    cases p <;> decide
  | string =>
    cases h
    decide
  | unit =>
    cases h
    decide
  | _ => cases h

theorem name_injective : Function.Injective Primitive.name := by
  intro p q h
  have hp := Primitive.ofName?_name p
  rw [h, Primitive.ofName?_name] at hp
  exact (Option.some.inj hp).symm

/-- Builtin types have names of their own. -/
theorem builtin?_inj {w : String} (hs : s.builtin? = some w) (ht : t.builtin? = some w) :
    s = t := by
  have apart : ∀ p : Primitive, p.name ≠ "String" ∧ p.name ≠ "Unit" := by
    intro p
    cases p <;> decide
  have h := hs.trans ht.symm
  cases s with
  | prim p => cases t with
    | prim q => exact congrArg Ty.prim (name_injective (Option.some.inj h))
    | string => exact absurd (Option.some.inj h) (apart p).1
    | unit => exact absurd (Option.some.inj h) (apart p).2
    | _ => cases ht
  | string => cases t with
    | prim q => exact absurd (Option.some.inj h).symm (apart q).1
    | string => rfl
    | unit => exact absurd (Option.some.inj h) (by decide)
    | _ => cases ht
  | unit => cases t with
    | prim q => exact absurd (Option.some.inj h).symm (apart q).2
    | string => exact absurd (Option.some.inj h) (by decide)
    | unit => rfl
    | _ => cases ht
  | _ => cases hs

/-- Whether a type is a tuple of just an arrow. -/
def isLoneArrow : Ty → Bool
  | .tuple [.fn ..] => true
  | _ => false

mutual

/-- Whether a type has a part that is written as another type is: a declared type under the name of
a builtin one, or a tuple of just an arrow where an arrow stands in parentheses. -/
def ambiguous : Ty → Bool
  | .fn p r _ => p.isLoneArrow || p.ambiguous || r.ambiguous
  | .tuple items => ambiguousAny items
  | .named name args => args.isEmpty && name ∈ builtinNames || ambiguousAny args
  | .ref _ inner => inner.isLoneArrow || inner.ambiguous
  | .prim _ | .string | .unit | .var _ | .error => false

def ambiguousAny : List Ty → Bool
  | [] => false
  | t :: ts => t.ambiguous || ambiguousAny ts

end

@[simp] theorem ambiguousAny_iff (ts : List Ty) :
    ambiguousAny ts = false ↔ ∀ t ∈ ts, t.ambiguous = false := by
  induction ts with
  | nil => simp [ambiguousAny]
  | cons t ts ih => simp [ambiguousAny, ih]

/-- What is spelled as a word is a builtin type, a variable or a declared type without arguments. -/
theorem of_word {w : String} (h : t.spelling names = .named w []) :
    t.builtin? = some w ∨ (∃ v, t = .var v ∧ names.typeVar v = w) ∨ t = .named w [] := by
  cases t with
  | prim p => exact .inl (congrArg some (Spelling.named.inj h).1)
  | string => exact .inl (congrArg some (Spelling.named.inj h).1)
  | unit => exact .inl (congrArg some (Spelling.named.inj h).1)
  | var v => exact .inr (.inl ⟨v, rfl, (Spelling.named.inj h).1⟩)
  | named name args =>
    obtain ⟨rfl, hargs⟩ := Spelling.named.inj h
    rw [spellings_eq_map, List.map_eq_nil_iff] at hargs
    exact .inr (.inr (hargs ▸ rfl))
  | _ => cases h

/-- What is spelled as an arrow by itself between parentheses is a tuple of just an arrow. -/
theorem isLoneArrow_of_spelling {p r : Spelling} {e : RowSpelling}
    (h : t.spelling names = .tuple [.arrow p e r]) : t.isLoneArrow = true := by
  cases t with
  | tuple items =>
    have hitems := Spelling.tuple.inj h
    rw [spellings_eq_map, List.map_eq_singleton_iff] at hitems
    obtain ⟨x, rfl, hx⟩ := hitems
    cases x with
    | fn p r e => rfl
    | _ => cases hx
  | _ => cases h

/-- Where it stands in parentheses, an arrow is told from what is no tuple of just an arrow. -/
theorem spelling_of_boxed (hs : s.isLoneArrow = false) (ht : t.isLoneArrow = false)
    (h : (s.spelling names).boxed = (t.spelling names).boxed) :
    s.spelling names = t.spelling names := by
  rcases Spelling.of_boxed_eq h with h | ⟨p, e, r, h⟩ | ⟨p, e, r, h⟩
  · exact h
  · exact absurd (isLoneArrow_of_spelling h) (by simp [hs])
  · exact absurd (isLoneArrow_of_spelling h) (by simp [ht])

end Ty

/-! ## Texts that tell their types -/

/-- Whether the names of variables are names of nothing else, and tell the variables apart. -/
structure VarNames.Tells (names : VarNames) (vs : List TyVar) (rs : List RowVar)
    (ws : List String) : Prop where
  types : ∀ v ∈ vs, names.typeVar v ∉ Ty.builtinNames ++ ws
  rows : ∀ v ∈ rs, names.rowVar v ∉ ws
  typeVar : ∀ v ∈ vs, ∀ w ∈ vs, names.typeVar v = names.typeVar w → v = w
  rowVar : ∀ v ∈ rs, ∀ w ∈ rs, names.rowVar v = names.rowVar w → v = w

variable {names : VarNames} {vs : List TyVar} {rs : List RowVar} {ws : List String}

theorem Row.eq_of_spelling (hn : names.Tells vs rs ws) {r r' : Row} (hr : ∀ v ∈ r.tail, v ∈ rs)
    (hr' : ∀ v ∈ r'.tail, v ∈ rs) (hl : ∀ w ∈ r.labels.toList, w ∈ ws)
    (hl' : ∀ w ∈ r'.labels.toList, w ∈ ws) (h : r.spelling names = r'.spelling names) : r = r' := by
  -- a tail by itself is not a label
  have apart : ∀ {v : RowVar} {l : List String}, v ∈ rs → (∀ w ∈ l, w ∈ ws) →
      l ≠ [names.rowVar v] :=
    fun hv hl hw => hn.rows _ hv (hl _ (hw ▸ List.mem_singleton_self _))
  obtain ⟨l, tail⟩ := r
  obtain ⟨l', tail'⟩ := r'
  cases tail with
  | none => cases tail' with
    | none => rw [spelling_closed.1 h]
    | some v => exact absurd (spelling_open_closed.1 h.symm).2 (apart (hr' v rfl) hl)
  | some v => cases tail' with
    | none => exact absurd (spelling_open_closed.1 h).2 (apart (hr v rfl) hl')
    | some v' =>
      obtain ⟨rfl, hname⟩ := spelling_open.1 h
      rw [hn.rowVar v (hr v rfl) v' (hr' v' rfl) hname]

namespace Ty

/-- Whether the variables, the tails and the words of a type are among some others. -/
structure Among (t : Ty) (vs : List TyVar) (rs : List RowVar) (ws : List String) : Prop where
  vars : ∀ v ∈ t.vars, v ∈ vs
  rows : ∀ e ∈ t.effects, ∀ v ∈ e.tail, v ∈ rs
  words : ∀ w ∈ t.words, w ∈ ws

variable {s t : Ty} {w : String}

theorem Among.of_fn {p r : Ty} {e : Row} (h : (fn p r e).Among vs rs ws) : p.Among vs rs ws ∧
    r.Among vs rs ws ∧ (∀ v ∈ e.tail, v ∈ rs) ∧ ∀ w ∈ e.labels.toList, w ∈ ws := by
  obtain ⟨hv, he, hw⟩ := h
  simp only [Ty.vars, effects, Ty.words, List.forall_mem_append, List.forall_mem_cons] at hv he hw
  exact ⟨⟨hv.1, he.2.1, hw.2.1⟩, ⟨hv.2, he.2.2, hw.2.2⟩, he.1, hw.1⟩

theorem Among.of_tuple {items : List Ty} (h : (tuple items).Among vs rs ws) :
    ∀ t ∈ items, t.Among vs rs ws := by
  obtain ⟨hv, he, hw⟩ := h
  simp only [Ty.vars, varsList_eq, effects, effectsList_eq, Ty.words, wordsList_eq,
    List.mem_flatMap] at hv he hw
  exact fun t ht => ⟨fun v h => hv v ⟨t, ht, h⟩, fun e h => he e ⟨t, ht, h⟩,
    fun w h => hw w ⟨t, ht, h⟩⟩

theorem Among.of_named {name : String} {args : List Ty} (h : (named name args).Among vs rs ws) :
    ∀ t ∈ args, t.Among vs rs ws :=
  Among.of_tuple ⟨h.vars, h.rows, fun w hw => h.words w (List.mem_cons_of_mem _ hw)⟩

theorem Among.of_ref {kind : BorrowKind} {inner : Ty} (h : (ref kind inner).Among vs rs ws) :
    inner.Among vs rs ws := ⟨h.vars, h.rows, h.words⟩

theorem not_ambiguous_word (h : (named w []).ambiguous = false) : w ∉ builtinNames := by
  simpa [ambiguous, ambiguousAny] using h

/-- Two types that are spelled as one word are the same. -/
theorem eq_of_word (hn : names.Tells vs rs ws) (hs : s.Among vs rs ws) (ht : t.Among vs rs ws)
    (has : s.ambiguous = false) (hat : t.ambiguous = false) (hsw : s.spelling names = .named w [])
    (htw : t.spelling names = .named w []) : s = t := by
  have builtin : ∀ {v}, v ∈ vs → names.typeVar v ∉ builtinNames :=
    fun hv h => hn.types _ hv (List.mem_append_left _ h)
  have declared : ∀ {v}, v ∈ vs → names.typeVar v ∉ ws :=
    fun hv h => hn.types _ hv (List.mem_append_right _ h)
  rcases of_word hsw with hs' | ⟨v, rfl, rfl⟩ | rfl
  · rcases of_word htw with ht' | ⟨v, rfl, rfl⟩ | rfl
    · exact builtin?_inj hs' ht'
    · exact absurd (mem_builtinNames hs') (builtin (ht.vars v List.mem_cons_self))
    · exact absurd (mem_builtinNames hs') (not_ambiguous_word hat)
  · have hv := hs.vars v List.mem_cons_self
    rcases of_word htw with ht' | ⟨v', rfl, hv'⟩ | rfl
    · exact absurd (mem_builtinNames ht') (builtin hv)
    · exact congrArg var (hn.typeVar v hv v' (ht.vars v' List.mem_cons_self) hv'.symm)
    · exact absurd (ht.words _ List.mem_cons_self) (declared hv)
  · rcases of_word htw with ht' | ⟨v, rfl, rfl⟩ | rfl
    · exact absurd (mem_builtinNames ht') (not_ambiguous_word has)
    · exact absurd (hs.words _ List.mem_cons_self) (declared (ht.vars v List.mem_cons_self))
    · rfl

/-- Spellings tell types that are not ambiguous, where the names of variables do. -/
theorem eq_of_spelling (hn : names.Tells vs rs ws) {s t : Ty} (hs : s.Among vs rs ws)
    (ht : t.Among vs rs ws) (has : s.ambiguous = false) (hat : t.ambiguous = false)
    (h : s.spelling names = t.spelling names) : s = t := by
  induction s using Ty.induction generalizing t with
  | fn p r e hp hr => cases t with
    | fn p' r' e' =>
      obtain ⟨hpb, he, hrs⟩ := Spelling.arrow.inj h
      simp only [ambiguous, Bool.or_eq_false_iff] at has hat
      obtain ⟨hsp, hsr, hse⟩ := hs.of_fn
      obtain ⟨htp, htr, hte⟩ := ht.of_fn
      rw [hp hsp htp has.1.2 hat.1.2 (spelling_of_boxed has.1.1 hat.1.1 hpb),
        hr hsr htr has.2 hat.2 hrs,
        Row.eq_of_spelling hn hse.1 hte.1 hse.2 hte.2 he]
    | _ => cases h
  | tuple items ih => cases t with
    | tuple items' =>
      have hitems := Spelling.tuple.inj h
      rw [spellings_eq_map, spellings_eq_map] at hitems
      rw [ambiguous, ambiguousAny_iff] at has hat
      refine congrArg tuple (eq_of_map_eq (fun a ha b hb hab => ?_) hitems)
      exact ih a ha (hs.of_tuple a ha) (ht.of_tuple b hb) (has a ha) (hat b hb) hab
    | _ => cases h
  | named name args ih => cases t with
    | named name' args' =>
      obtain ⟨rfl, hargs⟩ := Spelling.named.inj h
      rw [spellings_eq_map, spellings_eq_map] at hargs
      rw [ambiguous, Bool.or_eq_false_iff, ambiguousAny_iff] at has hat
      refine congrArg (named name) (eq_of_map_eq (fun a ha b hb hab => ?_) hargs)
      exact ih a ha (hs.of_named a ha) (ht.of_named b hb) (has.2 a ha) (hat.2 b hb) hab
    | prim q => exact eq_of_word hn hs ht has hat h rfl
    | string => exact eq_of_word hn hs ht has hat h rfl
    | unit => exact eq_of_word hn hs ht has hat h rfl
    | var v => exact eq_of_word hn hs ht has hat h rfl
    | _ => cases h
  | ref kind inner ih => cases t with
    | ref kind' inner' =>
      obtain ⟨rfl, hinner⟩ := Spelling.ref.inj h
      rw [ambiguous, Bool.or_eq_false_iff] at has hat
      rw [ih hs.of_ref ht.of_ref has.2 hat.2 (spelling_of_boxed has.1 hat.1 hinner)]
    | _ => cases h
  | error => cases t with
    | error => rfl
    | _ => cases h
  | _ => exact eq_of_word hn hs ht has hat rfl h.symm

end Ty

/-- Whether the variables of some types have names that nothing else in them has. -/
@[mk_iff]
structure VarNames.Apart (names : VarNames) (ts : List Ty) : Prop where
  types : ∀ v ∈ ts.flatMap Ty.vars, names.typeVar v ∉ Ty.builtinNames ++ ts.flatMap Ty.words
  rows : ∀ v ∈ ts.flatMap Ty.rows, names.rowVar v ∉ ts.flatMap Ty.words

instance (names : VarNames) (ts : List Ty) : Decidable (names.Apart ts) :=
  decidable_of_iff _ (VarNames.apart_iff names ts).symm

theorem VarNames.Apart.tells {ts : List Ty} (h : (ofTypes ts).Apart ts) :
    (ofTypes ts).Tells (ts.flatMap Ty.vars) (ts.flatMap Ty.rows) (ts.flatMap Ty.words) where
  types := h.types
  rows := h.rows
  typeVar _ hv _ hw := eq_of_numbered letter_injective rfl hv hw
  rowVar _ hv _ hw := eq_of_numbered rowLetter_injective rfl hv hw

namespace Ty

variable {s t : Ty}

theorem among_of_mem {ts : List Ty} (h : t ∈ ts) :
    t.Among (ts.flatMap Ty.vars) (ts.flatMap Ty.rows) (ts.flatMap Ty.words) where
  vars _ hv := List.mem_flatMap.2 ⟨t, h, hv⟩
  rows e he _ hv := List.mem_flatMap.2 ⟨t, h, mem_rows.2 ⟨e, he, hv⟩⟩
  words _ hw := List.mem_flatMap.2 ⟨t, h, hw⟩

/-- Two types are displayed alike if and only if they are spelled alike. -/
theorem displayPair_eq_iff (hs : s.Spelt) (ht : t.Spelt) :
    (displayPair s t).1 = (displayPair s t).2 ↔
      s.spelling (.ofTypes [s, t]) = t.spelling (.ofTypes [s, t]) :=
  textWith_eq_iff (VarNames.valid_ofTypes _) hs ht

/-- Two types that are displayed alike are the same, where they are not ambiguous and the names of
their variables are names of nothing else. -/
theorem eq_of_displayPair_eq (hs : s.Spelt) (ht : t.Spelt) (has : s.ambiguous = false)
    (hat : t.ambiguous = false) (hn : (VarNames.ofTypes [s, t]).Apart [s, t])
    (h : (displayPair s t).1 = (displayPair s t).2) : s = t :=
  eq_of_spelling hn.tells (among_of_mem (by simp)) (among_of_mem (by simp)) has hat
    ((displayPair_eq_iff hs ht).1 h)

end Ty
end RowCheck
