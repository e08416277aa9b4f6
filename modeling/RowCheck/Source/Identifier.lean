/-!
Declared names. A name is one or more ASCII letters, digits and underscores, and does not start
with a digit.
-/
namespace RowCheck

/-- Why a text is not a valid name. -/
inductive IdentifierError where
  | empty
  | badCharacter (c : Char) (index : Nat)
  | leadingDigit
  deriving DecidableEq, Repr

def IdentifierError.message : IdentifierError → String
  | .empty => "identifiers must not be empty"
  | .badCharacter c index =>
    s!"`{c}` at index {index} is not a valid identifier character"
  | .leadingDigit => "identifiers must not start with a digit"

/-- Whether a character may stand in a name. -/
def isIdentifierChar (c : Char) : Bool :=
  c.isAlphanum || c = '_'

/-- What is wrong with a name, if anything. A leading digit is reported before any other fault,
and of several bad characters the first. -/
def identifierError? (name : String) : Option IdentifierError :=
  match name.toList with
  | [] => some .empty
  | c :: cs =>
    if c.isDigit then some .leadingDigit
    else
      ((c :: cs).zipIdx.find? (fun p => !isIdentifierChar p.1)).map
        (fun p => .badCharacter p.1 p.2)

/-- A name is valid exactly when it is not empty, does not start with a digit and holds only
identifier characters. -/
theorem identifierError?_eq_none_iff {name : String} :
    identifierError? name = none ↔
      ∃ c cs, name.toList = c :: cs ∧ c.isDigit = false ∧
        ∀ d ∈ c :: cs, isIdentifierChar d = true := by
  unfold identifierError?
  cases name.toList with
  | nil => simp
  | cons c cs =>
    by_cases hd : c.isDigit = true
    · simp [hd]
    · simp only [hd, Bool.false_eq_true, ↓reduceIte, Option.map_eq_none_iff, List.find?_eq_none]
      constructor
      · intro h
        refine ⟨c, cs, rfl, by simpa using hd, fun d hm => ?_⟩
        obtain ⟨i, hi, he⟩ := List.mem_iff_getElem.1 hm
        have := h (d, i) (by
          rw [List.mem_zipIdx_iff_getElem?]
          simp [List.getElem?_eq_getElem hi, he])
        simpa using this
      · rintro ⟨c', cs', he, -, h⟩ p hp
        obtain ⟨rfl, rfl⟩ := List.cons.inj he
        have := List.mem_zipIdx_iff_getElem?.1 hp
        simpa using h p.1 (List.mem_of_getElem? this)

end RowCheck
