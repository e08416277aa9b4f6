import RowCheck.Proofs.Types.Naming
import Mathlib.Data.List.Basic

/-!
Spellings. A spelling is what the text of a type tells of it: words, tuples, arrows, references and
the type of a failed expression. Whether a word is the name of a declared type, of a builtin one or
of a variable is not told. Spellings whose words are valid names are told apart by their texts:
what may follow a spelling never goes on with it, so texts are taken apart from the front.
-/
namespace RowCheck

/-- What the text of a row tells: the words in front of the bar, and the one behind it. -/
structure RowSpelling where
  words : List String
  last : Option String

/-- What the text of a type tells. -/
inductive Spelling where
  | error
  | named (name : String) (args : List Spelling)
  | tuple (items : List Spelling)
  | arrow (param : Spelling) (effects : RowSpelling) (result : Spelling)
  | ref (kind : BorrowKind) (inner : Spelling)

/-- Texts with a comma between two of them. -/
def listed (texts : List (List Char)) : List Char := List.intercalate [',', ' '] texts

/-- Texts with a comma before each, as they stand behind another one in a list. -/
def listedOn (texts : List (List Char)) : List Char := texts.flatMap fun text => ',' :: ' ' :: text

theorem listed_cons (text : List Char) (texts : List (List Char)) :
    listed (text :: texts) = text ++ listedOn texts := by
  induction texts generalizing text with
  | nil => simp [listed, listedOn]
  | cons t ts ih =>
    rw [listed, List.intercalate_cons_cons, ← listed, ih]
    simp [listedOn]

/-- A list in angle brackets, unless it is empty. -/
def bracketed (texts : List (List Char)) : List Char :=
  if texts.isEmpty then [] else '<' :: listed texts ++ ['>']

namespace RowSpelling

/-- What stands behind the words of a row. -/
def barText : Option String → List Char
  | none => []
  | some w => ' ' :: '|' :: ' ' :: w.toList

/-- The arrow with a row on it. A row without words is left out. -/
def text (e : RowSpelling) : List Char :=
  if e.words.isEmpty then [' ', '-', '>', ' ']
  else ' ' :: '-' :: '[' :: listed (e.words.map String.toList) ++ barText e.last ++
    [']', '-', '>', ' ']

/-- Whether all words are valid names, and some stand in front of a bar. -/
structure Proper (e : RowSpelling) : Prop where
  words : ∀ w ∈ e.words, ValidName w
  last : ∀ w ∈ e.last, ValidName w
  bar : e.words = [] → e.last = none

end RowSpelling

namespace Spelling

open RowSpelling (barText)

mutual

def text : Spelling → List Char
  | error => ['<', 'e', 'r', 'r', 'o', 'r', '>']
  | named name args => name.toList ++ bracketed (texts args)
  | tuple items => '(' :: listed (texts items) ++ [')']
  | arrow p e r => p.text ++ e.text ++ r.text
  | ref kind inner => kind.sigil.toList ++ inner.text

def texts : List Spelling → List (List Char)
  | [] => []
  | x :: xs => x.text :: texts xs

end

@[simp] theorem texts_eq_map (xs : List Spelling) : texts xs = xs.map text := by
  induction xs with
  | nil => rfl
  | cons x xs ih => simp [texts, ih]

@[simp] theorem text_word (w : String) : (named w []).text = w.toList := List.append_nil _

/-- Induction on spellings, where a list of them gives the fact for each of its items. -/
theorem induction {P : Spelling → Prop} (error : P .error)
    (named : ∀ name args, (∀ x ∈ args, P x) → P (.named name args))
    (tuple : ∀ items, (∀ x ∈ items, P x) → P (.tuple items))
    (arrow : ∀ p e r, P p → P r → P (.arrow p e r))
    (ref : ∀ kind inner, P inner → P (.ref kind inner)) (x : Spelling) : P x :=
  @Spelling.rec P (fun l => ∀ x ∈ l, P x) error named tuple
    (fun p e r hp hr => arrow p e r hp hr) ref
    (fun _ h => by cases h)
    (fun _ _ hx hxs y hy => (List.mem_cons.1 hy).elim (fun e => e ▸ hx) (hxs y)) x

def isArrow : Spelling → Bool
  | arrow .. => true
  | _ => false

mutual

/-- Whether a spelling can be written out: its words are valid names, and no arrow stands where it
would need parentheses. -/
def Proper : Spelling → Prop
  | error => True
  | named name args => ValidName name ∧ ProperAll args
  | tuple items => ProperAll items
  | arrow p e r => p.isArrow = false ∧ p.Proper ∧ e.Proper ∧ r.Proper
  | ref _ inner => inner.isArrow = false ∧ inner.Proper

def ProperAll : List Spelling → Prop
  | [] => True
  | x :: xs => x.Proper ∧ ProperAll xs

end

@[simp] theorem properAll_iff {xs : List Spelling} : ProperAll xs ↔ ∀ x ∈ xs, x.Proper := by
  induction xs with
  | nil => simp [ProperAll]
  | cons x xs ih => simp [ProperAll, ih]

/-! ## Where a text ends -/

/-- What may follow a list. -/
def Closes (r : List Char) : Prop :=
  (∃ c k, r = c :: k ∧ c ∈ [')', '>', ']']) ∨ ∃ k, r = ' ' :: '|' :: k

/-- What may follow a type that stands by itself. -/
def Ends (r : List Char) : Prop := r = [] ∨ (∃ k, r = ',' :: k) ∨ Closes r

/-- What may follow a parameter. -/
def Follows (r : List Char) : Prop := Ends r ∨ ∃ k, r = ' ' :: '-' :: k

/-- Whether a word ends in front of a text. -/
def WordEnds (r : List Char) : Prop := ∀ c ∈ r.head?, isIdentifierChar c = false

/-- The first character of what a spelling is written as, where any identifier character counts as
`a`. -/
def first : Spelling → Char
  | error => '<'
  | named .. => 'a'
  | tuple _ => '('
  | arrow p _ _ => p.first
  | ref .. => '&'

/-- A character up to which identifier it starts. -/
def lead (c : Char) : Char := if isIdentifierChar c then 'a' else c

variable {x y p i : Spelling} {xs ys args items : List Spelling} {r r' k : List Char}

theorem first_mem (x : Spelling) : x.first ∈ ['<', 'a', '(', '&'] := by
  induction x using Spelling.induction with
  | arrow p e r hp => exact hp
  | _ => simp [first]

/-- What a valid name consists of. -/
theorem name_chars {w : String} (h : ValidName w) :
    (∃ c cs, w.toList = c :: cs) ∧ ∀ c ∈ w.toList, isIdentifierChar c = true := by
  obtain ⟨c, cs, hw, -, hall⟩ := identifierError?_eq_none_iff.1 h
  exact ⟨⟨c, cs, hw⟩, hw ▸ hall⟩

/-- The text of a spelling is not empty, and its first character tells the form. -/
theorem text_first (hx : x.Proper) : ∃ c cs, x.text = c :: cs ∧ lead c = x.first := by
  induction x using Spelling.induction with
  | error => exact ⟨_, _, rfl, by decide⟩
  | named name args =>
    obtain ⟨⟨c, cs, hname⟩, hall⟩ := name_chars hx.1
    refine ⟨c, _, by rw [text, hname, List.cons_append], ?_⟩
    exact if_pos (hall c (hname ▸ List.mem_cons_self))
  | tuple items => exact ⟨_, _, rfl, if_neg (by decide)⟩
  | arrow p e r hp =>
    obtain ⟨c, cs, hpc, hlead⟩ := hp hx.2.1
    exact ⟨c, _, by rw [text, hpc, List.cons_append, List.cons_append], hlead⟩
  | ref kind inner => cases kind with
    | shared => exact ⟨'&', inner.text, rfl, if_neg (by decide)⟩
    | unique => exact ⟨'&', 'm' :: 'u' :: 't' :: ' ' :: inner.text, rfl, if_neg (by decide)⟩

/-- Texts that start alike are those of one form. -/
theorem first_eq (hx : x.Proper) (hy : y.Proper) (h : x.text ++ r = y.text ++ r') :
    x.first = y.first := by
  obtain ⟨c, cs, hxc, hcx⟩ := text_first hx
  obtain ⟨d, ds, hyd, hdy⟩ := text_first hy
  rw [hxc, hyd] at h
  rw [← hcx, ← hdy, (List.cons.inj h).1]

theorem Closes.ends (h : Closes r) : Ends r := .inr (.inr h)

theorem Ends.follows (h : Ends r) : Follows r := .inl h

theorem closes_cons {c : Char} (h : c ∈ [')', '>', ']']) (k : List Char) : Closes (c :: k) :=
  .inl ⟨c, k, rfl, h⟩

theorem ends_listedOn (texts : List (List Char)) (h : Ends r) : Ends (listedOn texts ++ r) := by
  cases texts with
  | nil => exact h
  | cons t ts => exact .inr (.inl ⟨_, rfl⟩)

theorem wordEnds_cons {c : Char} (h : isIdentifierChar c = false) : WordEnds (c :: k) := by
  rintro _ ⟨⟩
  exact h

/-- What follows a list does not go on with it, and is no first item of it. -/
theorem Closes.lead {c : Char} (h : Closes (c :: k)) : lead c ∉ [',', '<', 'a', '(', '&'] := by
  rcases h with ⟨d, l, hd, hmem⟩ | ⟨l, hl⟩
  · obtain ⟨rfl, -⟩ := List.cons.inj hd
    have closers : [')', '>', ']'].all (Spelling.lead · ∉ [',', '<', 'a', '(', '&']) = true := by
      decide
    exact of_decide_eq_true (List.all_eq_true.1 closers c hmem)
  · rw [(List.cons.inj hl).1]
    decide

theorem Closes.ne_comma (h : Closes r) : r ≠ ',' :: k := by
  rintro rfl
  exact h.lead (by decide)

theorem Closes.ne_text (h : Closes r) (hx : x.Proper) : r ≠ x.text ++ k := by
  rintro rfl
  obtain ⟨c, cs, hc, hlead⟩ := text_first hx
  rw [hc] at h
  exact h.lead (hlead ▸ List.mem_cons_of_mem _ (first_mem x))

theorem Ends.ne_arrow (h : Ends r) : r ≠ ' ' :: '-' :: k := by
  rintro rfl
  simp [Ends, Closes] at h

/-- What follows does not go on with a word, and not with arguments. -/
theorem Follows.lead {c : Char} (h : Follows (c :: k)) : lead c ∉ ['<', 'a'] := by
  rcases h with (h | ⟨l, hl⟩ | h) | ⟨l, hl⟩
  · cases h
  · rw [(List.cons.inj hl).1]
    decide
  · exact fun hmem => h.lead ((by decide : ['<', 'a'] ⊆ [',', '<', 'a', '(', '&']) hmem)
  · rw [(List.cons.inj hl).1]
    decide

theorem Follows.wordEnds (h : Follows r) : WordEnds r := by
  intro c hc
  obtain ⟨k, rfl⟩ := List.head?_eq_some_iff.1 hc
  cases hid : isIdentifierChar c with
  | false => rfl
  | true => exact absurd (by simp [Spelling.lead, hid]) h.lead

theorem Follows.ne_bracket (h : Follows r) : r ≠ '<' :: k := by
  rintro rfl
  exact h.lead (by decide)

/-- Behind a blank, a bar or an arrow follows, and no spelling. -/
theorem Follows.ne_text (h : Follows r) (hx : x.Proper) : r ≠ ' ' :: (x.text ++ k) := by
  rintro rfl
  obtain ⟨c, cs, hc, hlead⟩ := text_first hx
  have hfirst := hlead ▸ first_mem x
  rw [hc] at h
  rcases h with (h | ⟨l, hl⟩ | ⟨d, l, hd, hmem⟩ | ⟨l, hl⟩) | ⟨l, hl⟩
  · cases h
  · cases hl
  · rw [← (List.cons.inj hd).1] at hmem
    exact absurd hmem (by decide)
  · rw [(List.cons.inj (List.cons.inj hl).2).1] at hfirst
    exact absurd hfirst (by decide)
  · rw [(List.cons.inj (List.cons.inj hl).2).1] at hfirst
    exact absurd hfirst (by decide)

/-- Words are told, with where they end. -/
theorem word_eq {v w : String} (hv : ValidName v) (hw : ValidName w) (hr : WordEnds r)
    (hr' : WordEnds r') (h : v.toList ++ r = w.toList ++ r') : v = w ∧ r = r' := by
  have taken : ∀ {w : String} {r : List Char}, ValidName w → WordEnds r →
      (w.toList ++ r).takeWhile isIdentifierChar = w.toList := by
    intro w r hw hr
    rw [List.takeWhile_append_of_pos (name_chars hw).2]
    cases r with
    | nil => simp
    | cons c k => simp [hr c rfl]
  have heq : v.toList = w.toList := by rw [← taken hv hr, h, taken hw hr']
  refine ⟨String.toList_inj.1 heq, ?_⟩
  rw [heq] at h
  exact List.append_cancel_left h

/-! ## Taking texts apart -/

/-- Whether a spelling that is no arrow is told by its text, as a parameter or by itself. -/
def ToldInside (x : Spelling) : Prop :=
  ∀ y r r', y.Proper → y.isArrow = false → Follows r → Follows r' →
    x.text ++ r = y.text ++ r' → x = y ∧ r = r'

/-- Whether a spelling is told by its text. -/
def Told (x : Spelling) : Prop :=
  ∀ y r r', y.Proper → Ends r → Ends r' → x.text ++ r = y.text ++ r' → x = y ∧ r = r'

theorem arrowText_eq (e : RowSpelling) : ∃ k, e.text = ' ' :: '-' :: k := by
  unfold RowSpelling.text
  split
  · exact ⟨_, rfl⟩
  · exact ⟨_, rfl⟩

/-- What is told as a parameter is told by itself: an arrow would go on behind its parameter. -/
theorem ToldInside.told (hx : x.ToldInside) : x.Told := by
  intro y r r' hy hr hr' h
  cases hya : y.isArrow with
  | false => exact hx y r r' hy hya hr.follows hr'.follows h
  | true =>
    cases y with
    | arrow p e q =>
      obtain ⟨k, hk⟩ := arrowText_eq e
      rw [text, hk, List.append_assoc, List.append_assoc] at h
      obtain ⟨-, hrest⟩ := hx p r _ hy.2.1 hy.1 hr.follows (.inr ⟨_, rfl⟩) h
      exact absurd hrest hr.ne_arrow
    | _ => cases hya

theorem told_listedOn (hxs : ∀ x ∈ xs, x.Told) (hys : ∀ y ∈ ys, y.Proper) (hr : Closes r)
    (hr' : Closes r') (h : listedOn (xs.map text) ++ r = listedOn (ys.map text) ++ r') :
    xs = ys ∧ r = r' := by
  induction xs generalizing ys with
  | nil => cases ys with
    | nil => exact ⟨rfl, h⟩
    | cons y ys => exact absurd h hr.ne_comma
  | cons x xs ih => cases ys with
    | nil => exact absurd h.symm hr'.ne_comma
    | cons y ys =>
      rw [List.forall_mem_cons] at hxs hys
      simp only [listedOn, List.map_cons, List.flatMap_cons, List.cons_append, List.append_assoc,
        List.cons.injEq, true_and] at h
      obtain ⟨rfl, hrest⟩ :=
        hxs.1 y _ _ hys.1 (ends_listedOn _ hr.ends) (ends_listedOn _ hr'.ends) h
      obtain ⟨rfl, rfl⟩ := ih hxs.2 hys.2 hrest
      exact ⟨rfl, rfl⟩

/-- Spellings in a list are told, with where the list ends. -/
theorem told_listed (hxs : ∀ x ∈ xs, x.Told) (hpx : ∀ x ∈ xs, x.Proper) (hpy : ∀ y ∈ ys, y.Proper)
    (hr : Closes r) (hr' : Closes r')
    (h : listed (xs.map text) ++ r = listed (ys.map text) ++ r') : xs = ys ∧ r = r' := by
  cases xs with
  | nil => cases ys with
    | nil => exact ⟨rfl, h⟩
    | cons y ys =>
      rw [List.map_cons, listed_cons, List.append_assoc] at h
      exact absurd h (hr.ne_text (hpy y List.mem_cons_self))
  | cons x xs => cases ys with
    | nil =>
      rw [List.map_cons, listed_cons, List.append_assoc] at h
      exact absurd h.symm (hr'.ne_text (hpx x List.mem_cons_self))
    | cons y ys =>
      rw [List.map_cons, listed_cons, List.append_assoc, List.map_cons, listed_cons,
        List.append_assoc] at h
      rw [List.forall_mem_cons] at hxs hpx hpy
      obtain ⟨rfl, hrest⟩ :=
        hxs.1 y _ _ hpy.1 (ends_listedOn _ hr.ends) (ends_listedOn _ hr'.ends) h
      obtain ⟨rfl, rfl⟩ := told_listedOn hxs.2 hpy.2 hr hr' hrest
      exact ⟨rfl, rfl⟩

/-- What stands behind a name, nothing or arguments, is told. -/
theorem told_args (hargs : ∀ x ∈ args, x.Told) (hp : ∀ x ∈ args, x.Proper)
    (hys : ∀ y ∈ ys, y.Proper) (hr : Follows r) (hr' : Follows r')
    (h : bracketed (texts args) ++ r = bracketed (texts ys) ++ r') : args = ys ∧ r = r' := by
  cases args with
  | nil => cases ys with
    | nil => exact ⟨rfl, h⟩
    | cons y ys => exact absurd h hr.ne_bracket
  | cons x xs => cases ys with
    | nil => exact absurd h.symm hr'.ne_bracket
    | cons y ys =>
      rw [texts_eq_map, texts_eq_map] at h
      simp only [bracketed, List.map_cons, List.isEmpty_cons, Bool.false_eq_true, if_false,
        List.cons_append, List.append_assoc, List.nil_append, List.cons.injEq, true_and] at h
      obtain ⟨heq, hrest⟩ := told_listed hargs hp hys (closes_cons (by simp) _)
        (closes_cons (by simp) _) h
      exact ⟨heq, (List.cons.inj hrest).2⟩

theorem wordEnds_args (args : List Spelling) (hr : Follows r) :
    WordEnds (bracketed (texts args) ++ r) := by
  cases args with
  | nil => exact hr.wordEnds
  | cons x xs => exact wordEnds_cons (by decide)

theorem toldInside_named {name : String} (hx : (named name args).Proper)
    (hargs : ∀ x ∈ args, x.Told) : (named name args).ToldInside := by
  intro y r r' hy hya hr hr' h
  have hfirst := first_eq hx hy h
  cases y with
  | named name' args' =>
    rw [text, text, List.append_assoc, List.append_assoc] at h
    obtain ⟨rfl, hrest⟩ := word_eq hx.1 hy.1 (wordEnds_args args hr) (wordEnds_args args' hr') h
    obtain ⟨rfl, rfl⟩ := told_args hargs (properAll_iff.1 hx.2) (properAll_iff.1 hy.2) hr hr' hrest
    exact ⟨rfl, rfl⟩
  | arrow p e q => cases hya
  | _ => cases hfirst

theorem toldInside_error : error.ToldInside := by
  intro y r r' hy hya hr hr' h
  have hfirst := first_eq (x := error) trivial hy h
  cases y with
  | error => exact ⟨rfl, List.append_cancel_left h⟩
  | arrow p e q => cases hya
  | _ => cases hfirst

theorem toldInside_tuple (hx : (tuple items).Proper) (hitems : ∀ x ∈ items, x.Told) :
    (tuple items).ToldInside := by
  intro y r r' hy hya hr hr' h
  have hfirst := first_eq hx hy h
  cases y with
  | tuple items' =>
    simp only [text, texts_eq_map, List.cons_append, List.append_assoc, List.nil_append,
      List.cons.injEq, true_and] at h
    obtain ⟨rfl, hrest⟩ := told_listed hitems (properAll_iff.1 hx) (properAll_iff.1 hy)
      (closes_cons (by simp) _) (closes_cons (by simp) _) h
    exact ⟨rfl, (List.cons.inj hrest).2⟩
  | arrow p e q => cases hya
  | _ => cases hfirst

/-- Behind the sigil of a shared reference, no type goes on as that of a unique reference does. -/
theorem sigil_apart (hi : i.Proper) (hia : i.isArrow = false) (hy : y.Proper) (hr : Follows r) :
    i.text ++ r ≠ 'm' :: 'u' :: 't' :: ' ' :: (y.text ++ r') := by
  intro h
  have hmut : (named "mut" []).Proper := ⟨by decide, trivial⟩
  have hfirst := first_eq hmut hi (r := ' ' :: (y.text ++ r')) h.symm
  cases i with
  | named name args =>
    rw [text, List.append_assoc] at h
    obtain ⟨-, hrest⟩ := word_eq hi.1 hmut.1 (wordEnds_args args hr) (wordEnds_cons (by decide)) h
    cases args with
    | nil => exact hr.ne_text hy hrest
    | cons x xs => exact absurd (List.cons.inj hrest).1 (by decide)
  | arrow p e q => cases hia
  | _ => cases hfirst

theorem toldInside_ref {kind : BorrowKind} (hx : (ref kind i).Proper) (hi : i.ToldInside) :
    (ref kind i).ToldInside := by
  intro y r r' hy hya hr hr' h
  have hfirst := first_eq hx hy h
  cases y with
  | ref kind' i' =>
    cases kind with
    | shared => cases kind' with
      | shared =>
        obtain ⟨rfl, rfl⟩ := hi i' r r' hy.2 hy.1 hr hr' (List.cons.inj h).2
        exact ⟨rfl, rfl⟩
      | unique => exact absurd (List.cons.inj h).2 (sigil_apart hx.2 hx.1 hy.2 hr)
    | unique => cases kind' with
      | shared => exact absurd (List.cons.inj h).2.symm (sigil_apart hy.2 hy.1 hx.2 hr')
      | unique =>
        rw [text, text, List.append_assoc, List.append_assoc] at h
        obtain ⟨rfl, rfl⟩ := hi i' r r' hy.2 hy.1 hr hr' (List.append_cancel_left h)
        exact ⟨rfl, rfl⟩
  | arrow p e q => cases hya
  | _ => cases hfirst

/-- What stands behind the words of a row: nothing, or a bar with a last word. -/
theorem told_bar {v w : Option String} (hv : ∀ x ∈ v, ValidName x) (hw : ∀ x ∈ w, ValidName x)
    (h : barText v ++ ']' :: r = barText w ++ ']' :: r') : v = w ∧ r = r' := by
  have bracket : ∀ {k : List Char}, WordEnds (']' :: k) := wordEnds_cons (by decide)
  cases v with
  | none => cases w with
    | none => exact ⟨rfl, (List.cons.inj h).2⟩
    | some w => exact absurd (List.cons.inj h).1 (by decide)
  | some v => cases w with
    | none => exact absurd (List.cons.inj h).1 (by decide)
    | some w =>
      simp only [barText, List.cons_append, List.cons.injEq, true_and] at h
      obtain ⟨rfl, hrest⟩ := word_eq (hv v rfl) (hw w rfl) bracket bracket h
      exact ⟨rfl, (List.cons.inj hrest).2⟩

theorem closes_bar (w : Option String) (k : List Char) : Closes (barText w ++ ']' :: k) := by
  cases w with
  | none => exact closes_cons (by simp) _
  | some w => exact .inr ⟨_, rfl⟩

/-- Words in a list are told as the items of a list are. -/
theorem told_words {ws ws' : List String} (h : ∀ w ∈ ws, ValidName w)
    (h' : ∀ w ∈ ws', ValidName w) (hr : Closes r) (hr' : Closes r')
    (heq : listed (ws.map String.toList) ++ r = listed (ws'.map String.toList) ++ r') :
    ws = ws' ∧ r = r' := by
  have texts : ∀ ws : List String, ws.map String.toList = (ws.map (named · [])).map text := by
    simp
  have proper : ∀ {ws : List String}, (∀ w ∈ ws, ValidName w) →
      ∀ x ∈ ws.map (named · []), x.Proper :=
    fun h => List.forall_mem_map.2 fun w hw => ⟨h w hw, trivial⟩
  have words : ∀ x ∈ ws.map (named · []), x.Told := List.forall_mem_map.2 fun w hw =>
    ToldInside.told (toldInside_named ⟨h w hw, trivial⟩ (List.forall_mem_nil _))
  rw [texts, texts] at heq
  obtain ⟨hws, rfl⟩ := told_listed words (proper h) (proper h') hr hr' heq
  exact ⟨List.map_injective_iff.2 (fun _ _ h => (named.inj h).1) hws, rfl⟩

/-- A row on an arrow is told, with where the arrow ends. -/
theorem told_row {e f : RowSpelling} (he : e.Proper) (hf : f.Proper)
    (h : e.text ++ r = f.text ++ r') : e = f ∧ r = r' := by
  obtain ⟨ws, last⟩ := e
  obtain ⟨ws', last'⟩ := f
  cases ws with
  | nil =>
    obtain rfl : last = none := he.bar rfl
    cases ws' with
    | nil =>
      obtain rfl : last' = none := hf.bar rfl
      exact ⟨rfl, List.append_cancel_left h⟩
    | cons w ws' => simp [RowSpelling.text] at h
  | cons w ws => cases ws' with
    | nil => simp [RowSpelling.text] at h
    | cons w' ws' =>
      simp only [RowSpelling.text, List.isEmpty_cons, Bool.false_eq_true, if_false,
        List.cons_append, List.nil_append, List.append_assoc, List.cons.injEq, true_and] at h
      obtain ⟨hws, hbar⟩ := told_words he.words hf.words (closes_bar _ _) (closes_bar _ _) h
      obtain ⟨hlast, hrest⟩ := told_bar he.last hf.last hbar
      simp only [List.cons.injEq, true_and] at hrest
      exact ⟨congrArg₂ RowSpelling.mk hws hlast, hrest⟩

theorem told_arrow {e : RowSpelling} {q : Spelling} (hx : (arrow p e q).Proper)
    (hp : p.ToldInside) (hq : q.Told) : (arrow p e q).Told := by
  intro y r r' hy hr hr' h
  obtain ⟨k, hk⟩ := arrowText_eq e
  cases hya : y.isArrow with
  | false =>
    rw [text, hk, List.append_assoc, List.append_assoc] at h
    obtain ⟨-, hrest⟩ := hp y _ r' hy hya (.inr ⟨_, rfl⟩) hr'.follows h
    exact absurd hrest.symm hr'.ne_arrow
  | true => cases y with
    | arrow p' e' q' =>
      obtain ⟨k', hk'⟩ := arrowText_eq e'
      have follows : ∀ {e : RowSpelling} {k l : List Char}, e.text = ' ' :: '-' :: k →
          Follows (e.text ++ l) := fun h => .inr ⟨_, by rw [h]; rfl⟩
      rw [text, text, List.append_assoc, List.append_assoc, List.append_assoc,
        List.append_assoc] at h
      obtain ⟨rfl, hrow⟩ := hp p' _ _ hy.2.1 hy.1 (follows hk) (follows hk') h
      obtain ⟨rfl, hresult⟩ := told_row hx.2.2.1 hy.2.2.1 hrow
      obtain ⟨rfl, rfl⟩ := hq q' r r' hy.2.2.2 hr hr' hresult
      exact ⟨rfl, rfl⟩
    | _ => cases hya

theorem told (hx : x.Proper) : (x.isArrow = false → x.ToldInside) ∧ x.Told := by
  induction x using Spelling.induction with
  | error => exact ⟨fun _ => toldInside_error, toldInside_error.told⟩
  | named name args ih =>
    have h := toldInside_named hx fun x hm => (ih x hm (properAll_iff.1 hx.2 x hm)).2
    exact ⟨fun _ => h, h.told⟩
  | tuple items ih =>
    have h := toldInside_tuple hx fun x hm => (ih x hm (properAll_iff.1 hx x hm)).2
    exact ⟨fun _ => h, h.told⟩
  | arrow p e q hp hq =>
    exact ⟨nofun, told_arrow hx ((hp hx.2.1).1 hx.1) (hq hx.2.2.2).2⟩
  | ref kind inner ih =>
    have h := toldInside_ref hx ((ih hx.2).1 hx.1)
    exact ⟨fun _ => h, h.told⟩

/-- Spellings with the same text are the same. -/
theorem text_injective (hx : x.Proper) (hy : y.Proper) (h : x.text = y.text) : x = y :=
  ((told hx).2 y [] [] hy (.inl rfl) (.inl rfl) (by simpa using h)).1

end Spelling
end RowCheck
